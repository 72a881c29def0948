import Mathlib.Data.List.Basic
import Mathlib.Data.List.Forall2
import Mathlib.Logic.Basic

/-!
# Computations that may abort

Inversion rules for `Except`: what it means for a sequence of checked steps to
return, or to abort with a given error.  A computation is read by rewriting with
these rules, never by unfolding the monad.
-/

namespace Linkora
namespace Checked

variable {ε α β : Type}

@[simp] theorem bind_eq_ok {x : Except ε α} {f : α → Except ε β} {b : β} :
    (x >>= f) = .ok b ↔ ∃ a, x = .ok a ∧ f a = .ok b := by
  cases x with
  | error e => simp [bind, Except.bind]
  | ok a => simp [bind, Except.bind]

theorem bind_eq_error {x : Except ε α} {f : α → Except ε β} {e : ε} :
    (x >>= f) = .error e ↔ x = .error e ∨ ∃ a, x = .ok a ∧ f a = .error e := by
  cases x with
  | error e' => simp [bind, Except.bind]
  | ok a => simp [bind, Except.bind]

theorem bind_of_ok {x : Except ε α} {a : α} (h : x = .ok a) (f : α → Except ε β) :
    (x >>= f) = f a := by
  rw [h]
  rfl

theorem bind_of_error {x : Except ε α} {e : ε} (h : x = .error e) (f : α → Except ε β) :
    (x >>= f) = .error e := by
  rw [h]
  rfl

@[simp] theorem pure_eq_ok {a b : α} : (pure a : Except ε α) = .ok b ↔ a = b := by
  simp [pure, Except.pure]

@[simp] theorem pure_ne_error {a : α} {e : ε} : (pure a : Except ε α) ≠ .error e := by
  simp [pure, Except.pure]

@[simp] theorem map_eq_ok {x : Except ε α} {f : α → β} {b : β} :
    x.map f = .ok b ↔ ∃ a, x = .ok a ∧ f a = b := by
  cases x with
  | error e => simp [Except.map]
  | ok a => simp [Except.map]

theorem mapError_eq_ok {δ : Type} {x : Except ε α} {f : ε → δ} {a : α} :
    x.mapError f = .ok a ↔ x = .ok a := by
  cases x with
  | error e => simp [Except.mapError]
  | ok b => simp [Except.mapError]

theorem map_eq_error {x : Except ε α} {f : α → β} {e : ε} :
    x.map f = .error e ↔ x = .error e := by
  cases x with
  | error e' => simp [Except.map]
  | ok a => simp [Except.map]

theorem forall₂_of_mapM {f : α → Except ε β} {l : List α} {ys : List β} (h : l.mapM f = .ok ys) :
    List.Forall₂ (fun x y => f x = .ok y) l ys := by
  induction l generalizing ys with
  | nil =>
    obtain rfl := pure_eq_ok.mp h
    exact .nil
  | cons x rest ih =>
    rw [List.mapM_cons] at h
    obtain ⟨y, hy, h⟩ := bind_eq_ok.mp h
    obtain ⟨zs, hzs, h⟩ := bind_eq_ok.mp h
    obtain rfl := pure_eq_ok.mp h
    exact .cons hy (ih hzs)

/-- A fold of checked steps preserves what each of its steps preserves. -/
theorem foldlM_invariant {f : β → α → Except ε β} {P : β → Prop} {l : List α}
    (hstep : ∀ a ∈ l, ∀ b b', P b → f b a = .ok b' → P b') :
    ∀ {b b' : β}, P b → l.foldlM f b = .ok b' → P b' := by
  induction l with
  | nil =>
    intro b b' hb h
    rw [List.foldlM_nil, pure_eq_ok] at h
    exact h ▸ hb
  | cons a rest ih =>
    intro b b' hb h
    rw [List.foldlM_cons, bind_eq_ok] at h
    obtain ⟨c, hc, h⟩ := h
    refine ih (fun x hx => hstep x (List.mem_cons_of_mem a hx)) ?_ h
    exact hstep a List.mem_cons_self b c hb hc

/-- The same for an invariant that counts the steps. -/
theorem foldlM_counted {f : β → α → Except ε β} {P : Nat → β → Prop} {l : List α}
    (hstep : ∀ n a b b', n < l.length → P n b → f b a = .ok b' → P (n + 1) b') :
    ∀ {b b' : β}, P 0 b → l.foldlM f b = .ok b' → P l.length b' := by
  induction l generalizing P with
  | nil =>
    intro b b' hb h
    rw [List.foldlM_nil, pure_eq_ok] at h
    exact h ▸ hb
  | cons a rest ih =>
    intro b b' hb h
    rw [List.foldlM_cons, bind_eq_ok] at h
    obtain ⟨c, hc, h⟩ := h
    refine ih (P := fun n => P (n + 1)) (fun n x b b' hn => ?_) ?_ h
    · exact hstep (n + 1) x b b' (Nat.succ_lt_succ hn)
    · exact hstep 0 a b c (Nat.succ_pos _) hb hc

/-- Checking every element of a list succeeds exactly when every check does. -/
theorem forM_eq_ok {f : α → Except ε Unit} {l : List α} {u : Unit} :
    forM l f = .ok u ↔ ∀ a ∈ l, f a = .ok () := by
  induction l with
  | nil => simp [pure, Except.pure]
  | cons a rest ih =>
    rw [List.forM_cons, bind_eq_ok, List.forall_mem_cons]
    constructor
    · rintro ⟨v, hv, h⟩
      exact ⟨hv, ih.mp h⟩
    · rintro ⟨hv, h⟩
      exact ⟨(), hv, ih.mpr h⟩

/-! ## Draining loops

The loop `while count > 0 && removed < max { count -= 1; body(count); removed += 1 }`
runs on two counters.  `drain` carries the count and the number of rounds still
allowed, and returns both with the final state. -/

def drain (body : Nat → β → Except ε β) : Nat → Nat → β → Except ε (Nat × Nat × β)
  | 0, left, b => .ok (0, left, b)
  | count + 1, 0, b => .ok (count + 1, 0, b)
  | count + 1, left + 1, b => do
    let b ← body count b
    drain body count left b

/-- A loop without slots, or without rounds, does nothing. -/
theorem drain_idle {body : Nat → β → Except ε β} {count left : Nat} {b : β}
    (h : left = 0 ∨ count = 0) : drain body count left b = .ok (count, left, b) := by
  cases count with
  | zero => rfl
  | succ count =>
    rcases h with rfl | h
    · rfl
    · cases h

/-- A loop invariant may mention the count: the body runs on slot `count` of a
state that satisfies it at `count + 1`, and leaves one that satisfies it at
`count`. -/
theorem drain_invariant {body : Nat → β → Except ε β} {P : Nat → β → Prop}
    (hstep : ∀ count b b', P (count + 1) b → body count b = .ok b' → P count b') :
    ∀ {count left : Nat} {b : β} {r : Nat × Nat × β}, P count b →
      drain body count left b = .ok r → P r.1 r.2.2 := by
  intro count
  induction count with
  | zero =>
    intro left b r hb h
    rw [drain, Except.ok.injEq] at h
    exact h ▸ hb
  | succ count ih =>
    intro left b r hb h
    cases left with
    | zero =>
      rw [drain, Except.ok.injEq] at h
      exact h ▸ hb
    | succ left =>
      rw [drain, bind_eq_ok] at h
      obtain ⟨c, hc, h⟩ := h
      exact ih (hstep count b c hb hc) h

/-- A loop whose body never aborts under the invariant returns. -/
theorem drain_total {body : Nat → β → Except ε β} {P : Nat → β → Prop}
    (hstep : ∀ count b, P (count + 1) b → ∃ b', body count b = .ok b' ∧ P count b') :
    ∀ {count : Nat} (left : Nat) {b : β}, P count b →
      ∃ r, drain body count left b = .ok r ∧ P r.1 r.2.2 := by
  intro count
  induction count with
  | zero => exact fun left b hb => ⟨(0, left, b), rfl, hb⟩
  | succ count ih =>
    intro left b hb
    cases left with
    | zero => exact ⟨(count + 1, 0, b), rfl, hb⟩
    | succ left =>
      obtain ⟨c, hc, hP⟩ := hstep count b hb
      obtain ⟨r, hr, hrP⟩ := ih left hP
      exact ⟨r, by rw [drain, hc]; exact hr, hrP⟩

/-- A loop whose body cannot abort returns. -/
theorem drain_returns {body : Nat → β → Except ε β} (hbody : ∀ i b, ∃ b', body i b = .ok b')
    (count left : Nat) (b : β) : ∃ r, drain body count left b = .ok r := by
  have hstep : ∀ count b, True → ∃ b', body count b = .ok b' ∧ True := by
    intro count b _
    obtain ⟨b', hb'⟩ := hbody count b
    exact ⟨b', hb', trivial⟩
  obtain ⟨r, hr, -⟩ : ∃ r, drain body count left b = .ok r ∧ True :=
    drain_total (P := fun _ _ => True) hstep left trivial
  exact ⟨r, hr⟩

/-- The count only goes down, by as much as the allowance, and the loop stops
when one of the two is used up. -/
theorem drain_counters {body : Nat → β → Except ε β} :
    ∀ {count left : Nat} {b : β} {r : Nat × Nat × β}, drain body count left b = .ok r →
      r.1 + (left - r.2.1) = count ∧ r.2.1 ≤ left ∧ (r.1 = 0 ∨ r.2.1 = 0) := by
  intro count
  induction count with
  | zero =>
    intro left b r h
    rw [drain, Except.ok.injEq] at h
    subst h
    exact ⟨by simp, Nat.le_refl left, Or.inl rfl⟩
  | succ count ih =>
    intro left b r h
    cases left with
    | zero =>
      rw [drain, Except.ok.injEq] at h
      subst h
      exact ⟨rfl, Nat.le_refl 0, Or.inr rfl⟩
    | succ left =>
      rw [drain, bind_eq_ok] at h
      obtain ⟨c, -, h⟩ := h
      obtain ⟨hsum, hle, hstop⟩ := ih h
      exact ⟨by omega, by omega, hstop⟩

/-! ## Checks on the way -/

/-- The computation returns only where `P` holds. -/
def Ensures (P : Prop) (x : Except ε α) : Prop := ∀ a, x = .ok a → P

namespace Ensures

variable {P : Prop} {x : Except ε α} {f : α → Except ε β}

/-- The first step checks it. -/
theorem first (h : Ensures P x) : Ensures P (x >>= f) := by
  intro b hb
  obtain ⟨a, ha, -⟩ := bind_eq_ok.mp hb
  exact h a ha

/-- One of the later steps checks it. -/
theorem later (h : ∀ a, Ensures P (f a)) : Ensures P (x >>= f) := by
  intro b hb
  obtain ⟨a, -, hb⟩ := bind_eq_ok.mp hb
  exact h a b hb

theorem map {g : α → β} (h : Ensures P x) : Ensures P (x.map g) := by
  intro b hb
  obtain ⟨a, ha, -⟩ := map_eq_ok.mp hb
  exact h a ha

end Ensures

/-! ## Errors that do not occur -/

/-- The computation does not abort with a bad error. -/
def Avoids (bad : ε → Prop) (x : Except ε α) : Prop := ∀ e, x = .error e → ¬bad e

namespace Avoids

variable {bad : ε → Prop}

theorem ok (a : α) : Avoids bad (.ok a : Except ε α) := fun _ h => nomatch h

theorem pure (a : α) : Avoids bad (Pure.pure a : Except ε α) := fun _ h => absurd h pure_ne_error

theorem error {e : ε} (h : ¬bad e) : Avoids bad (.error e : Except ε α) := by
  intro e' he
  obtain rfl := Except.error.inj he
  exact h

theorem bind {x : Except ε α} {f : α → Except ε β} (hx : Avoids bad x)
    (hf : ∀ a, x = .ok a → Avoids bad (f a)) : Avoids bad (x >>= f) := by
  intro e h
  rcases bind_eq_error.mp h with h | ⟨a, ha, h⟩
  · exact hx e h
  · exact hf a ha e h

theorem map {x : Except ε α} {f : α → β} (hx : Avoids bad x) : Avoids bad (x.map f) :=
  fun e h => hx e (map_eq_error.mp h)

theorem forM {f : α → Except ε Unit} {l : List α} (h : ∀ a ∈ l, Avoids bad (f a)) :
    Avoids bad (forM l f) := by
  induction l with
  | nil => exact pure ()
  | cons a rest ih =>
    rw [List.forM_cons]
    exact bind (h a List.mem_cons_self)
      (fun _ _ => ih (fun x hx => h x (List.mem_cons_of_mem a hx)))

/-- The steps of a fold may rely on what the steps before them have kept. -/
theorem foldlM {f : β → α → Except ε β} {P : β → Prop} {l : List α}
    (hstep : ∀ a ∈ l, ∀ b b', P b → f b a = .ok b' → P b')
    (hf : ∀ a ∈ l, ∀ b, P b → Avoids bad (f b a)) :
    ∀ {b : β}, P b → Avoids bad (l.foldlM f b) := by
  induction l with
  | nil => exact fun {b} _ => pure b
  | cons a rest ih =>
    intro b hb
    rw [List.foldlM_cons]
    refine bind (hf a List.mem_cons_self b hb) (fun c hc => ?_)
    exact ih (fun x hx => hstep x (List.mem_cons_of_mem a hx))
      (fun x hx => hf x (List.mem_cons_of_mem a hx)) (hstep a List.mem_cons_self b c hb hc)

/-- So may the rounds of a draining loop. -/
theorem drain {body : Nat → β → Except ε β} {P : Nat → β → Prop}
    (hstep : ∀ count b b', P (count + 1) b → body count b = .ok b' → P count b')
    (hbody : ∀ count b, P (count + 1) b → Avoids bad (body count b)) :
    ∀ {count left : Nat} {b : β}, P count b → Avoids bad (drain body count left b) := by
  intro count
  induction count with
  | zero => exact fun {left b} _ => ok _
  | succ count ih =>
    intro left b hb
    cases left with
    | zero => exact ok _
    | succ left =>
      rw [Checked.drain]
      exact bind (hbody count b hb) (fun c hc => ih (hstep count b c hb hc))

end Avoids

end Checked
end Linkora

import Mathlib.Data.List.Induction

/-!
# Replaying a list of events

A fold over events is replayed without effect when the second pass finds nothing to do: each
event leaves the state alone, or is overwritten by its own later occurrence, or fills a cell
that the first pass has filled.
-/

namespace Linkora
namespace Replay

universe u v

variable {σ : Type u} {ε : Type v} {f : σ → ε → σ}

theorem foldl_of_fixed {s : σ} {t : List ε} (h : ∀ e ∈ t, f s e = s) : t.foldl f s = s := by
  induction t with
  | nil => rfl
  | cons e rest ih =>
    rw [List.foldl_cons, h e List.mem_cons_self]
    exact ih fun e' he' => h e' (List.mem_cons_of_mem e he')

/-- Events that do nothing can be left out. -/
theorem foldl_filter_of_inert {p : ε → Bool} (h : ∀ s e, p e = false → f s e = s) (t : List ε)
    (s : σ) : (t.filter p).foldl f s = t.foldl f s := by
  induction t generalizing s with
  | nil => rfl
  | cons e rest ih =>
    cases hp : p e with
    | true => rw [List.filter_cons_of_pos hp, List.foldl_cons, List.foldl_cons, ih]
    | false =>
      rw [List.filter_cons_of_neg (by rw [hp]; exact Bool.false_ne_true), List.foldl_cons,
        h s e hp, ih]

theorem foldl_invariant {P : σ → Prop} {t : List ε} (hkeep : ∀ s, ∀ e ∈ t, P s → P (f s e)) {s : σ}
    (hs : P s) : P (t.foldl f s) := by
  induction t generalizing s with
  | nil => exact hs
  | cons e rest ih =>
    rw [List.foldl_cons]
    exact ih (fun s' e' he' => hkeep s' e' (List.mem_cons_of_mem e he'))
      (hkeep s e List.mem_cons_self hs)

/-- What one event of the list establishes and every event keeps holds after the list. -/
theorem foldl_of_mem {P : σ → Prop} (hkeep : ∀ s e, P s → P (f s e)) {e : ε} {t : List ε}
    (he : e ∈ t) (hest : ∀ s, P (f s e)) (s : σ) : P (t.foldl f s) := by
  obtain ⟨before, after, rfl⟩ := List.append_of_mem he
  rw [List.foldl_append, List.foldl_cons]
  exact foldl_invariant (fun s' e' _ => hkeep s' e') (hest _)

section Absorb

variable {Q : ε → Prop} (hidem : ∀ s a, Q a → f (f s a) a = f s a)
  (hband : ∀ s a b, Q a → Q b → f (f (f s a) b) a = f (f s b) a)

include hidem hband

/-- An event is absorbed by a list in which it occurs again. -/
theorem foldl_absorb {t : List ε} (hQ : ∀ e ∈ t, Q e) {a : ε} (ha : a ∈ t) (s : σ) :
    t.foldl f (f s a) = t.foldl f s := by
  induction t generalizing s with
  | nil => cases ha
  | cons b rest ih =>
    have hQ' : ∀ e ∈ rest, Q e := fun e he => hQ e (List.mem_cons_of_mem b he)
    have hb : Q b := hQ b List.mem_cons_self
    rw [List.foldl_cons, List.foldl_cons]
    rcases List.mem_cons.mp ha with rfl | hrest
    · rw [hidem s a hb]
    · calc
        rest.foldl f (f (f s a) b) = rest.foldl f (f (f (f s a) b) a) := (ih hQ' hrest _).symm
        _ = rest.foldl f (f (f s b) a) := by rw [hband s a b (hQ' a hrest) hb]
        _ = rest.foldl f (f s b) := ih hQ' hrest _

theorem foldl_idem_of_absorb {t : List ε} (hQ : ∀ e ∈ t, Q e) (s : σ) :
    t.foldl f (t.foldl f s) = t.foldl f s := by
  have hsub : ∀ u : List ε, u ⊆ t → t.foldl f (u.foldl f s) = t.foldl f s := by
    intro u
    induction u using List.reverseRecOn with
    | nil => exact fun _ => rfl
    | append_singleton u a ih =>
      intro hu
      rw [List.foldl_append, List.foldl_cons, List.foldl_nil,
        foldl_absorb hidem hband hQ (hu (List.mem_append_right u (List.mem_singleton_self a)))]
      exact ih fun e he => hu (List.mem_append_left _ he)
  exact hsub t (List.Subset.refl t)

end Absorb

section Cell

variable {ρ : Type u} {g : Option ρ → ε → Option ρ}

/-- A function of a cell that leaves it, writes it, or fills it when it is empty. -/
def Settling (h : Option ρ → Option ρ) : Prop :=
  (∀ c, h c = c) ∨ (∃ c', ∀ c, h c = c') ∨ ∃ r, ∀ c, h c = some (c.getD r)

/-- A write under a condition that the cell has no part in. -/
theorem Settling.write (p : Prop) [Decidable p] (c' : Option ρ) :
    Settling fun c => if p then c' else c := by
  by_cases hp : p
  · exact Or.inr (Or.inl ⟨c', fun c => if_pos hp⟩)
  · exact Or.inl fun c => if_neg hp

/-- An insertion that keeps what it finds. -/
theorem Settling.fill (p : Prop) [Decidable p] (r : ρ) :
    Settling fun c => if p then some (c.getD r) else c := by
  by_cases hp : p
  · exact Or.inr (Or.inr ⟨r, fun c => if_pos hp⟩)
  · exact Or.inl fun c => if_neg hp

theorem Settling.idem {h : Option ρ → Option ρ} (hs : Settling h) (c : Option ρ) :
    h (h c) = h c := by
  rcases hs with hid | ⟨c', hconst⟩ | ⟨r, hfill⟩
  · exact hid _
  · rw [hconst, hconst]
  · rw [hfill, hfill, Option.getD_some]

theorem Settling.comp {h h' : Option ρ → Option ρ} (hs : Settling h) (hs' : Settling h') :
    Settling fun c => h' (h c) := by
  rcases hs' with hid | ⟨c', hconst⟩ | ⟨r', hfill'⟩
  · simp only [hid]
    exact hs
  · exact Or.inr (Or.inl ⟨c', fun c => hconst _⟩)
  · rcases hs with hid | ⟨c', hconst⟩ | ⟨r, hfill⟩
    · exact Or.inr (Or.inr ⟨r', fun c => (congrArg h' (hid c)).trans (hfill' c)⟩)
    · exact Or.inr (Or.inl ⟨h' c', fun c => congrArg h' (hconst c)⟩)
    · exact Or.inr (Or.inr ⟨r, fun c => (congrArg h' (hfill c)).trans (hfill' _)⟩)

theorem settling_foldl (hg : ∀ e, Settling (g · e)) (t : List ε) :
    Settling fun c => t.foldl g c := by
  induction t using List.reverseRecOn with
  | nil => exact Or.inl fun _ => rfl
  | append_singleton t e ih =>
    simp only [List.foldl_append, List.foldl_cons, List.foldl_nil]
    exact ih.comp (hg e)

theorem foldl_idem_of_settling (hg : ∀ e, Settling (g · e)) (t : List ε) (c : Option ρ) :
    t.foldl g (t.foldl g c) = t.foldl g c :=
  (settling_foldl hg t).idem c

end Cell

end Replay
end Linkora

import Mathlib.Data.Set.Card
import Mathlib.Order.Interval.Finset.Nat
import Linkora.Lib.Checked
import Linkora.Lib.Store

/-!
# Entries that are listed for their removal

Owners have entries, and for each owner numbered slots name the entries that are to go with it.
A slot may name an entry that is gone, and two slots the same entry; but as long as every entry
is named by a slot below the count, the entries can be removed in portions, from the last slot
down, and when the count is used up nothing is left.
-/

namespace Linkora

/-- The entries of the owners, the slots that name them, and how many slots are in use. -/
structure Backlog (ω α β : Type) where
  entries : Store (ω × α) β
  slots : Store (ω × Nat) α
  counts : Store ω Nat

namespace Backlog

variable {ω α β : Type} {b b' : Backlog ω α β} {o k : ω} {m n : Nat} {v : α}

def size (b : Backlog ω α β) (o : ω) : Nat := (b.counts.get o).getD 0

/-- Every entry of `o` is named by a slot from `m` up to `n`, and no other slot is in use. -/
structure Covers (b : Backlog ω α β) (o : ω) (m n : Nat) : Prop where
  named : ∀ v, b.entries.has (o, v) = true → ∃ i, m ≤ i ∧ i < n ∧ b.slots.get (o, i) = some v
  unused : ∀ i, i < m ∨ n ≤ i → b.slots.get (o, i) = none

/-- The slots below the count name every entry. -/
def Covered (b : Backlog ω α β) (o : ω) : Prop := b.Covers o 0 (b.size o)

/-- The two agree in all that they have about `o`. -/
structure AgreeAt (b b' : Backlog ω α β) (o : ω) : Prop where
  entries : ∀ v, b'.entries.get (o, v) = b.entries.get (o, v)
  slots : ∀ i, b'.slots.get (o, i) = b.slots.get (o, i)
  counts : b'.counts.get o = b.counts.get o

/-- Nothing is left of `o`. -/
structure Cleared (b : Backlog ω α β) (o : ω) : Prop where
  entries : ∀ v, b.entries.get (o, v) = none
  slots : ∀ i, b.slots.get (o, i) = none
  counts : b.counts.get o = none

theorem AgreeAt.refl (b : Backlog ω α β) (o : ω) : b.AgreeAt b o :=
  ⟨fun _ => rfl, fun _ => rfl, rfl⟩

theorem AgreeAt.trans {b'' : Backlog ω α β} (h : b.AgreeAt b' o) (h' : b'.AgreeAt b'' o) :
    b.AgreeAt b'' o :=
  ⟨fun v => (h'.entries v).trans (h.entries v), fun i => (h'.slots i).trans (h.slots i),
    h'.counts.trans h.counts⟩

theorem AgreeAt.covers (h : b.AgreeAt b' o) (hb : b.Covers o m n) : b'.Covers o m n := by
  constructor
  · intro v hv
    rw [Store.has_eq, h.entries] at hv
    obtain ⟨i, hm, hn, hslot⟩ := hb.named v hv
    exact ⟨i, hm, hn, (h.slots i).trans hslot⟩
  · exact fun i hi => (h.slots i).trans (hb.unused i hi)

theorem AgreeAt.size (h : b.AgreeAt b' o) : b'.size o = b.size o := by
  rw [Backlog.size, Backlog.size, h.counts]

theorem AgreeAt.covered (h : b.AgreeAt b' o) (hb : b.Covered o) : b'.Covered o := by
  rw [Covered, h.size]
  exact h.covers hb

theorem Cleared.covered (h : b.Cleared o) : b.Covered o := by
  constructor
  · intro v hv
    rw [Store.has_eq, h.entries v] at hv
    cases hv
  · exact fun i _ => h.slots i

/-- Two backlogs are the same when they agree but for an owner of whom neither has anything. -/
theorem eq_of_cleared {b₀ : Backlog ω α β} (h : ∀ k, k ≠ o → b₀.AgreeAt b k)
    (h' : ∀ k, k ≠ o → b₀.AgreeAt b' k) (hclear : b.Cleared o) (hclear' : b'.Cleared o) :
    b = b' := by
  have hentries : b.entries = b'.entries := by
    ext1 key
    by_cases hkey : key.1 = o
    · rw [show key = (o, key.2) from Prod.ext hkey rfl, hclear.entries, hclear'.entries]
    · exact ((h key.1 hkey).entries key.2).trans ((h' key.1 hkey).entries key.2).symm
  have hslots : b.slots = b'.slots := by
    ext1 slot
    by_cases hslot : slot.1 = o
    · rw [show slot = (o, slot.2) from Prod.ext hslot rfl, hclear.slots, hclear'.slots]
    · exact ((h slot.1 hslot).slots slot.2).trans ((h' slot.1 hslot).slots slot.2).symm
  have hcounts : b.counts = b'.counts := by
    ext1 k
    by_cases hk : k = o
    · rw [hk, hclear.counts, hclear'.counts]
    · exact (h k hk).counts.trans (h' k hk).counts.symm
  cases b
  cases b'
  cases hentries
  cases hslots
  cases hcounts
  rfl

/-- A backlog without slots is empty. -/
theorem Covers.empty (h : b.Covers o n n) :
    (∀ v, b.entries.get (o, v) = none) ∧ ∀ i, b.slots.get (o, i) = none := by
  constructor
  · intro v
    rw [← Store.has_eq_false_iff, ← Bool.not_eq_true]
    intro hv
    obtain ⟨i, hm, hn, -⟩ := h.named v hv
    omega
  · exact fun i => h.unused i (by omega)

/-! ## Adding and taking back -/

section

variable [DecidableEq ω] [DecidableEq α]

theorem append_agreeAt (b : Backlog ω α β) (v : α) (x : β) (i count : Nat) (hk : k ≠ o) :
    b.AgreeAt ⟨b.entries.set (o, v) x, b.slots.set (o, i) v, b.counts.set o count⟩ k :=
  ⟨fun _ => Store.get_set_of_ne (fun e => hk (Prod.mk.inj e).1) _,
    fun _ => Store.get_set_of_ne (fun e => hk (Prod.mk.inj e).1) _, Store.get_set_of_ne hk _⟩

theorem rewrite_agreeAt (b : Backlog ω α β) (v : α) (x : β) (hk : k ≠ o) :
    b.AgreeAt { b with entries := b.entries.set (o, v) x } k :=
  ⟨fun _ => Store.get_set_of_ne (fun e => hk (Prod.mk.inj e).1) _, fun _ => rfl, rfl⟩

/-- A new entry in the next slot. -/
theorem Covered.append (h : b.Covered o) (v : α) (x : β) :
    Covered ⟨b.entries.set (o, v) x, b.slots.set (o, b.size o) v,
      b.counts.set o (b.size o + 1)⟩ o := by
  have hsize : size ⟨b.entries.set (o, v) x, b.slots.set (o, b.size o) v,
      b.counts.set o (b.size o + 1)⟩ o = b.size o + 1 := by
    rw [size]
    show ((b.counts.set o (b.size o + 1)).get o).getD 0 = _
    rw [Store.get_set_self]
    rfl
  rw [Covered, hsize]
  constructor
  · intro w hw
    by_cases hwv : w = v
    · rw [hwv]
      exact ⟨b.size o, Nat.zero_le _, Nat.lt_succ_self _, Store.get_set_self _ _ _⟩
    · have hold : b.entries.has (o, w) = true := by
        have hne : (o, w) ≠ (o, v) := fun heq => hwv (Prod.mk.inj heq).2
        rw [Store.has_eq] at hw ⊢
        rwa [Store.get_set_of_ne hne] at hw
      obtain ⟨i, hm, hn, hslot⟩ := h.named w hold
      have hne : (o, i) ≠ (o, b.size o) := by
        intro heq
        have := (Prod.mk.inj heq).2
        omega
      exact ⟨i, hm, by omega, (Store.get_set_of_ne hne v).trans hslot⟩
  · intro i hi
    have hne : (o, i) ≠ (o, b.size o) := by
      intro heq
      have := (Prod.mk.inj heq).2
      omega
    exact (Store.get_set_of_ne hne v).trans (h.unused i (by omega))

/-- An entry that is there is written again. -/
theorem Covered.rewrite (h : b.Covered o) (hv : b.entries.has (o, v) = true) (x : β) :
    Covered { b with entries := b.entries.set (o, v) x } o := by
  constructor
  · intro w hw
    apply h.named
    by_cases hwv : w = v
    · rw [hwv]
      exact hv
    · have hne : (o, w) ≠ (o, v) := fun heq => hwv (Prod.mk.inj heq).2
      rw [Store.has_eq] at hw ⊢
      rwa [Store.get_set_of_ne hne] at hw
  · exact h.unused

/-- An entry goes, and its slot stays. -/
theorem Covered.remove (h : b.Covered o) (v : α) :
    Covered { b with entries := b.entries.remove (o, v) } o := by
  constructor
  · intro w hw
    obtain ⟨x, hx⟩ := Store.has_iff_exists.mp hw
    exact h.named w (Store.has_of_get (Store.get_of_get_remove hx))
  · exact h.unused

omit [DecidableEq ω] [DecidableEq α] in
/-- An entry goes, and what the last slot names moves into its slot. -/
theorem Covers.moveLast {last p : Nat} (h : b.Covers o 0 (last + 1))
    (hp : b.slots.get (o, p) = some v) (hgone : b'.entries.get (o, v) = none)
    (hfewer : ∀ w, b'.entries.has (o, w) = true → b.entries.has (o, w) = true)
    (hkept : ∀ i, i ≠ p → i ≠ last → b'.slots.get (o, i) = b.slots.get (o, i))
    (hmoved : p ≠ last → ∀ w, b.slots.get (o, last) = some w → b'.slots.get (o, p) = some w)
    (hlast : b'.slots.get (o, last) = none) : b'.Covers o 0 last := by
  have hple : p ≤ last := by
    by_contra hlt
    have hnone := h.unused p (by omega)
    rw [hnone] at hp
    cases hp
  constructor
  · intro w hw
    have hne : w ≠ v := by
      intro heq
      rw [heq, Store.has_eq, hgone] at hw
      cases hw
    obtain ⟨i, -, hi, hslot⟩ := h.named w (hfewer w hw)
    have hip : i ≠ p := by
      intro heq
      rw [heq, hp, Option.some.injEq] at hslot
      exact hne hslot.symm
    by_cases hilast : i = last
    · rw [hilast] at hslot hip
      exact ⟨p, Nat.zero_le p, by omega, hmoved hip.symm w hslot⟩
    · exact ⟨i, Nat.zero_le i, by omega, (hkept i hip hilast).trans hslot⟩
  · intro i hi
    by_cases hilast : i = last
    · rw [hilast]
      exact hlast
    · rw [hkept i (by omega) hilast]
      exact h.unused i (by omega)

end

/-! ## Dropping a slot -/

section

variable [DecidableEq ω] [DecidableEq α] {i : Nat}

/-- Remove a slot, and the entry that it names. -/
def dropSlot (b : Backlog ω α β) (o : ω) (i : Nat) : Backlog ω α β :=
  match b.slots.get (o, i) with
  | some v => { b with entries := b.entries.remove (o, v), slots := b.slots.remove (o, i) }
  | none => b

theorem dropSlot_of_some (h : b.slots.get (o, i) = some v) : b.dropSlot o i =
    { b with entries := b.entries.remove (o, v), slots := b.slots.remove (o, i) } := by
  rw [dropSlot, h]

theorem dropSlot_of_none (h : b.slots.get (o, i) = none) : b.dropSlot o i = b := by
  rw [dropSlot, h]

@[simp] theorem counts_dropSlot (b : Backlog ω α β) (o : ω) (i : Nat) :
    (b.dropSlot o i).counts = b.counts := by
  rw [dropSlot]
  split
  · rfl
  · rfl

theorem entries_dropSlot (b : Backlog ω α β) (o : ω) (i : Nat) (key : ω × α) :
    (b.dropSlot o i).entries.get key =
      if key.1 = o ∧ b.slots.get (o, i) = some key.2 then none else b.entries.get key := by
  rw [dropSlot]
  cases hslot : b.slots.get (o, i) with
  | none => rw [if_neg fun h => Option.some_ne_none _ h.2.symm]
  | some v =>
    show (b.entries.remove (o, v)).get key = _
    rw [Store.get_remove]
    by_cases hkey : key = (o, v)
    · rw [if_pos hkey, if_pos ⟨by rw [hkey], by rw [hkey]⟩]
    · rw [if_neg hkey, if_neg fun h => hkey (Prod.ext h.1 (Option.some.inj h.2).symm)]

theorem slots_dropSlot (b : Backlog ω α β) (o : ω) (i : Nat) (slot : ω × Nat) :
    (b.dropSlot o i).slots.get slot = if slot = (o, i) then none else b.slots.get slot := by
  rw [dropSlot]
  cases hslot : b.slots.get (o, i) with
  | none =>
    by_cases heq : slot = (o, i)
    · rw [if_pos heq, heq]
      exact hslot
    · rw [if_neg heq]
  | some v => exact Store.get_remove _ _ _

theorem dropSlot_agreeAt (b : Backlog ω α β) (i : Nat) (hk : k ≠ o) :
    b.AgreeAt (b.dropSlot o i) k := by
  refine ⟨fun v => ?_, fun j => ?_, ?_⟩
  · rw [entries_dropSlot, if_neg fun h => hk h.1]
  · rw [slots_dropSlot, if_neg fun h => hk (Prod.mk.inj h).1]
  · rw [counts_dropSlot]

/-- The slot may be the first or the last one. -/
theorem Covers.dropSlot (h : b.Covers o m n) {m' n' : Nat}
    (hbounds : ∀ j, m ≤ j ∧ j < n ∧ j ≠ i ↔ m' ≤ j ∧ j < n') :
    (b.dropSlot o i).Covers o m' n' := by
  constructor
  · intro v hv
    rw [Store.has_eq, entries_dropSlot] at hv
    by_cases hslot : b.slots.get (o, i) = some v
    · rw [if_pos ⟨rfl, hslot⟩] at hv
      cases hv
    · rw [if_neg fun h => hslot h.2] at hv
      obtain ⟨j, hm, hn, hj⟩ := h.named v hv
      have hji : j ≠ i := by
        intro heq
        rw [heq] at hj
        exact hslot hj
      obtain ⟨hm', hn'⟩ := (hbounds j).mp ⟨hm, hn, hji⟩
      refine ⟨j, hm', hn', ?_⟩
      rw [slots_dropSlot, if_neg fun heq => hji (Prod.mk.inj heq).2]
      exact hj
  · intro j hj
    rw [slots_dropSlot]
    by_cases hji : j = i
    · rw [hji, if_pos rfl]
    · rw [if_neg fun heq => hji (Prod.mk.inj heq).2]
      apply h.unused
      have hout := (hbounds j).not
      omega

/-! ## Sweeping all slots -/

theorem sweep_covers (h : b.Covers o 0 n) :
    ((List.range n).foldl (fun b i => b.dropSlot o i) b).Covers o n n := by
  have hall : ∀ m, m ≤ n → ((List.range m).foldl (fun b i => b.dropSlot o i) b).Covers o m n := by
    intro m
    induction m with
    | zero => exact fun _ => h
    | succ m ih =>
      intro hm
      rw [List.range_succ, List.foldl_append]
      exact (ih (by omega)).dropSlot fun j => by omega
  exact hall n le_rfl

theorem sweep_agreeAt (b : Backlog ω α β) (is : List Nat) (hk : k ≠ o) :
    b.AgreeAt (is.foldl (fun b i => b.dropSlot o i) b) k := by
  induction is generalizing b with
  | nil => exact .refl b k
  | cons i is ih => exact (b.dropSlot_agreeAt i hk).trans (ih (b.dropSlot o i))

/-! ## Draining a portion -/

/-- The slots from `m` up to `n` have been dropped. -/
structure Drained (b b' : Backlog ω α β) (o : ω) (m n : Nat) : Prop where
  le : m ≤ n
  covers : b'.Covers o 0 m
  counts : b'.counts = b.counts
  gone : ∀ v, b.entries.has (o, v) = true → b'.entries.has (o, v) = false →
    ∃ i, m ≤ i ∧ i < n ∧ b.slots.get (o, i) = some v
  slots : ∀ i, i < m → b'.slots.get (o, i) = b.slots.get (o, i)
  off : ∀ k, k ≠ o → b.AgreeAt b' k

omit [DecidableEq ω] [DecidableEq α] in
theorem Drained.refl (h : b.Covers o 0 n) : b.Drained b o n n := by
  refine ⟨le_rfl, h, rfl, fun v hv hgone => ?_, fun _ _ => rfl, fun k _ => .refl b k⟩
  rw [hv] at hgone
  cases hgone

theorem Drained.dropSlot (h : b.Drained b' o (m + 1) n) : b.Drained (b'.dropSlot o m) o m n := by
  have hle := h.le
  refine ⟨by omega, h.covers.dropSlot fun j => by omega, ?_, fun v hv hgone => ?_, fun i hi => ?_,
    fun k hk => (h.off k hk).trans (b'.dropSlot_agreeAt m hk)⟩
  · rw [counts_dropSlot]
    exact h.counts
  · by_cases hbefore : b'.entries.has (o, v) = true
    · rw [Store.has_eq, entries_dropSlot] at hgone
      by_cases hslot : b'.slots.get (o, m) = some v
      · exact ⟨m, le_rfl, by omega, (h.slots m (Nat.lt_succ_self m)).symm.trans hslot⟩
      · rw [if_neg fun h => hslot h.2] at hgone
        rw [Store.has_eq, hgone] at hbefore
        cases hbefore
    · obtain ⟨i, hm, hn, hslot⟩ := h.gone v hv (Bool.not_eq_true _ ▸ hbefore)
      exact ⟨i, by omega, hn, hslot⟩
  · rw [slots_dropSlot, if_neg fun heq => by have := (Prod.mk.inj heq).2; omega]
    exact h.slots i (by omega)

/-- A loop that drops one slot in each round. -/
theorem drained_of_drain {χ ε : Type} (view : χ → Backlog ω α β) {body : Nat → χ → Except ε χ}
    (hbody : ∀ i x x', body i x = .ok x' → view x' = (view x).dropSlot o i) {x : χ}
    (h : (view x).Covers o 0 n) {left : Nat} {r : Nat × Nat × χ}
    (hdrain : Checked.drain body n left x = .ok r) :
    (view x).Drained (view r.2.2) o r.1 n := by
  refine Checked.drain_invariant (P := fun count y => (view x).Drained (view y) o count n) ?_
    (.refl h) hdrain
  intro count y y' hy hstep
  rw [hbody count y y' hstep]
  exact hy.dropSlot

end

section

variable [DecidableEq ω]

/-! ## Writing the count -/

/-- Write the count of the slots that are left, or remove it with the last one. -/
def settle (b : Backlog ω α β) (o : ω) (count : Nat) : Backlog ω α β :=
  { b with counts := if count = 0 then b.counts.remove o else b.counts.set o count }

theorem size_settle (b : Backlog ω α β) (o : ω) (count : Nat) :
    (b.settle o count).size o = count := by
  rw [size]
  show (Store.get (if count = 0 then b.counts.remove o else b.counts.set o count) o).getD 0 = count
  by_cases hzero : count = 0
  · rw [if_pos hzero, Store.get_remove_self, hzero]
    rfl
  · rw [if_neg hzero, Store.get_set_self]
    rfl

theorem settle_agreeAt (b : Backlog ω α β) (count : Nat) (hk : k ≠ o) :
    b.AgreeAt (b.settle o count) k := by
  refine ⟨fun _ => rfl, fun _ => rfl, ?_⟩
  show (if count = 0 then b.counts.remove o else b.counts.set o count).get k = b.counts.get k
  by_cases hzero : count = 0
  · rw [if_pos hzero, Store.get_remove_of_ne hk]
  · rw [if_neg hzero, Store.get_set_of_ne hk]

theorem Covers.settle (h : b.Covers o 0 n) : (b.settle o n).Covered o := by
  rw [Covered, size_settle]
  exact ⟨h.named, h.unused⟩

/-- With the last slot the count goes too. -/
theorem Covers.cleared_settle (h : b.Covers o n n) : (b.settle o 0).Cleared o := by
  obtain ⟨hentries, hslots⟩ := h.empty
  refine ⟨hentries, hslots, ?_⟩
  show (if 0 = 0 then b.counts.remove o else b.counts.set o 0).get o = none
  rw [if_pos rfl, Store.get_remove_self]

/-- When the count is used up nothing is left, and nothing is left only then. -/
theorem cleared_settle_iff (h : b.Covers o 0 n) : (b.settle o n).Cleared o ↔ n = 0 := by
  constructor
  · intro hcleared
    have hsize := size_settle b o n
    rw [size, hcleared.counts] at hsize
    exact hsize.symm
  · rintro rfl
    exact h.cleared_settle

/-- All slots of `o` but the first `left` have been worked off, and the count says so. -/
def Portion [DecidableEq α] (b b' : Backlog ω α β) (o : ω) (left : Nat) : Prop :=
  ∃ mid, b.Drained mid o left (b.size o) ∧ b' = mid.settle o left

section

variable [DecidableEq α] {left : Nat}

theorem Portion.covered (h : b.Portion b' o left) : b'.Covered o := by
  obtain ⟨mid, hdrained, rfl⟩ := h
  exact hdrained.covers.settle

theorem Portion.agreeAt (h : b.Portion b' o left) (hk : k ≠ o) : b.AgreeAt b' k := by
  obtain ⟨mid, hdrained, rfl⟩ := h
  exact (hdrained.off k hk).trans (mid.settle_agreeAt left hk)

theorem Portion.cleared_iff (h : b.Portion b' o left) : b'.Cleared o ↔ left = 0 := by
  obtain ⟨mid, hdrained, rfl⟩ := h
  exact cleared_settle_iff hdrained.covers

end

end

/-! ## How much is removed -/

/-- The entries of `o` that are in `b` and not in `b'`. -/
def removedEntries (b b' : Backlog ω α β) (o : ω) : Set α :=
  {v | b.entries.has (o, v) = true ∧ b'.entries.has (o, v) = false}

def removedSlots (b b' : Backlog ω α β) (o : ω) : Set Nat :=
  {i | b.slots.has (o, i) = true ∧ b'.slots.has (o, i) = false}

theorem Drained.ncard_removedEntries (h : b.Drained b' o m n) :
    (b.removedEntries b' o).ncard ≤ n - m := by
  have hsub : some '' b.removedEntries b' o ⊆ (fun i => b.slots.get (o, i)) '' Set.Ico m n := by
    rintro _ ⟨v, hv, rfl⟩
    obtain ⟨i, hm, hn, hslot⟩ := h.gone v hv.1 hv.2
    exact ⟨i, ⟨hm, hn⟩, hslot⟩
  have hfinite : (Set.Ico m n).Finite := Set.finite_Ico m n
  calc
    (b.removedEntries b' o).ncard = (some '' b.removedEntries b' o).ncard :=
      (Set.ncard_image_of_injective _ (Option.some_injective α)).symm
    _ ≤ ((fun i => b.slots.get (o, i)) '' Set.Ico m n).ncard :=
      Set.ncard_le_ncard hsub (hfinite.image _)
    _ ≤ (Set.Ico m n).ncard := Set.ncard_image_le hfinite
    _ = n - m := by rw [← Finset.coe_Ico, Set.ncard_coe_finset, Nat.card_Ico]

theorem Drained.ncard_removedSlots (h : b.Drained b' o m n) (hcovers : b.Covers o 0 n) :
    (b.removedSlots b' o).ncard ≤ n - m := by
  have hsub : b.removedSlots b' o ⊆ Set.Ico m n := by
    rintro i ⟨hhas, hgone⟩
    constructor
    · by_contra hlt
      rw [Store.has_eq, h.slots i (by omega), ← Store.has_eq, hhas] at hgone
      cases hgone
    · by_contra hlt
      rw [Store.has_eq, hcovers.unused i (by omega)] at hhas
      cases hhas
  calc
    (b.removedSlots b' o).ncard ≤ (Set.Ico m n).ncard :=
      Set.ncard_le_ncard hsub (Set.finite_Ico m n)
    _ = n - m := by rw [← Finset.coe_Ico, Set.ncard_coe_finset, Nat.card_Ico]

theorem Portion.ncard_le [DecidableEq ω] [DecidableEq α] {left : Nat} (hcovered : b.Covered o)
    (h : b.Portion b' o left) : (b.removedEntries b' o).ncard ≤ b.size o - left ∧
      (b.removedSlots b' o).ncard ≤ b.size o - left := by
  obtain ⟨mid, hdrained, rfl⟩ := h
  exact ⟨hdrained.ncard_removedEntries, hdrained.ncard_removedSlots hcovered⟩

end Backlog
end Linkora

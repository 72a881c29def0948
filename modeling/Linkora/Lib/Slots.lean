import Linkora.Lib.Store

/-!
# Numbered slots without positions

For each owner the slots `0, …, n - 1` hold the values of a set, once each.  The
number of slots is kept elsewhere, and the slot of a value has to be searched for.
A value is added in the next slot, and removed by moving the last value into its
slot.
-/

namespace Linkora

variable {ω α : Type}

/-- The first `n` slots of `o` hold exactly the values of `S`, without repetition. -/
structure Slots (idx : Store (ω × Nat) α) (o : ω) (n : Nat) (S : Set α) : Prop where
  filled : ∀ i, i < n → ∃ v, v ∈ S ∧ idx.get (o, i) = some v
  injective : ∀ i j v, i < n → j < n → idx.get (o, i) = some v → idx.get (o, j) = some v → i = j
  complete : ∀ v, v ∈ S → ∃ i, i < n ∧ idx.get (o, i) = some v

namespace Slots

variable {idx idx' : Store (ω × Nat) α} {o : ω} {n last p : Nat} {S : Set α} {v : α}

theorem empty (idx : Store (ω × Nat) α) (o : ω) : Slots idx o 0 ∅ :=
  ⟨nofun, nofun, nofun⟩

theorem congr (h : Slots idx o n S) (hidx : ∀ i, idx'.get (o, i) = idx.get (o, i)) :
    Slots idx' o n S := by
  constructor
  · intro i hi
    rw [hidx]
    exact h.filled i hi
  · intro i j w hi hj
    rw [hidx, hidx]
    exact h.injective i j w hi hj
  · intro w hw
    obtain ⟨i, hi, hget⟩ := h.complete w hw
    exact ⟨i, hi, (hidx i).trans hget⟩

/-- There are as many values as slots. -/
theorem ncard_eq (h : Slots idx o n S) : S.ncard = n := by
  choose f hf using h.filled
  refine Set.ncard_eq_of_bijective f ?_ ?_ ?_
  · intro w hw
    obtain ⟨i, hi, hget⟩ := h.complete w hw
    refine ⟨i, hi, ?_⟩
    have hfi := (hf i hi).2
    rw [hget, Option.some.injEq] at hfi
    exact hfi.symm
  · intro i hi
    exact (hf i hi).1
  · intro i j hi hj hij
    refine h.injective i j (f i hi) hi hj (hf i hi).2 ?_
    rw [hij]
    exact (hf j hj).2

variable [DecidableEq ω]

theorem append (h : Slots idx o n S) (hv : v ∉ S) :
    Slots (idx.set (o, n) v) o (n + 1) (insert v S) := by
  have hend : (idx.set (o, n) v).get (o, n) = some v := Store.get_set_self _ _ _
  have hold : ∀ i, i < n → (idx.set (o, n) v).get (o, i) = idx.get (o, i) := by
    intro i hi
    have hne : i ≠ n := by omega
    exact Store.get_set_of_ne (by simp [hne]) v
  -- A slot below the new one holds a value of `S`, so not `v`.
  have hother : ∀ i, i < n → (idx.set (o, n) v).get (o, i) ≠ some v := by
    intro i hi e
    obtain ⟨w, hw, hget⟩ := h.filled i hi
    rw [hold i hi, hget, Option.some.injEq] at e
    exact hv (e ▸ hw)
  constructor
  · intro i hi
    by_cases hin : i = n
    · rw [hin]
      exact ⟨v, Set.mem_insert v S, hend⟩
    · have hlt : i < n := by omega
      obtain ⟨w, hw, hget⟩ := h.filled i hlt
      exact ⟨w, Set.mem_insert_of_mem v hw, (hold i hlt).trans hget⟩
  · intro i j w hi hj hgi hgj
    by_cases hin : i = n
    · by_cases hjn : j = n
      · omega
      · have hlt : j < n := by omega
        rw [hin, hend] at hgi
        exact absurd (hgj.trans hgi.symm) (hother j hlt)
    · have hlt : i < n := by omega
      by_cases hjn : j = n
      · rw [hjn, hend] at hgj
        exact absurd (hgi.trans hgj.symm) (hother i hlt)
      · have hjlt : j < n := by omega
        rw [hold i hlt] at hgi
        rw [hold j hjlt] at hgj
        exact h.injective i j w hlt hjlt hgi hgj
  · intro w hw
    rcases Set.mem_insert_iff.mp hw with rfl | hw
    · exact ⟨n, Nat.lt_succ_self n, hend⟩
    · obtain ⟨i, hi, hget⟩ := h.complete w hw
      exact ⟨i, by omega, (hold i hi).trans hget⟩

omit [DecidableEq ω] in
/-- The value of the last slot moves into the slot of `v`, and the last slot is given
up. -/
theorem move_last (h : Slots idx o (last + 1) S) (hp : p < last + 1)
    (hv : idx.get (o, p) = some v)
    (hidx : ∀ i, i < last →
      idx'.get (o, i) = if i = p then idx.get (o, last) else idx.get (o, i)) :
    Slots idx' o last (S \ {v}) := by
  -- What a slot holds now, it or the last slot held before.
  have hfrom : ∀ i w, i < last → idx'.get (o, i) = some w →
      ∃ j, j < last + 1 ∧ idx.get (o, j) = some w ∧ ((i = p ∧ j = last) ∨ (i ≠ p ∧ j = i)) := by
    intro i w hi hget
    rw [hidx i hi] at hget
    split at hget
    · rename_i hip
      exact ⟨last, by omega, hget, Or.inl ⟨hip, rfl⟩⟩
    · rename_i hip
      exact ⟨i, by omega, hget, Or.inr ⟨hip, rfl⟩⟩
  have hne : ∀ j w, j < last + 1 → j ≠ p → idx.get (o, j) = some w → w ≠ v := by
    intro j w hj hjp hget e
    rw [e] at hget
    exact hjp (h.injective j p v hj hp hget hv)
  constructor
  · intro i hi
    by_cases hip : i = p
    · obtain ⟨w, hw, hget⟩ := h.filled last (by omega)
      refine ⟨w, ⟨hw, hne last w (by omega) (by omega) hget⟩, ?_⟩
      rw [hidx i hi, if_pos hip]
      exact hget
    · obtain ⟨w, hw, hget⟩ := h.filled i (by omega)
      refine ⟨w, ⟨hw, hne i w (by omega) hip hget⟩, ?_⟩
      rw [hidx i hi, if_neg hip]
      exact hget
  · intro i j w hi hj hgi hgj
    obtain ⟨i', hi', hgi, hcase⟩ := hfrom i w hi hgi
    obtain ⟨j', hj', hgj, hcase'⟩ := hfrom j w hj hgj
    have hsame : i' = j' := h.injective i' j' w hi' hj' hgi hgj
    omega
  · intro w hw
    obtain ⟨hw, hwv⟩ := hw
    obtain ⟨j, hj, hget⟩ := h.complete w hw
    have hjp : j ≠ p := by
      intro e
      rw [e, hv, Option.some.injEq] at hget
      exact hwv hget.symm
    by_cases hjlast : j = last
    · refine ⟨p, by omega, ?_⟩
      rw [hidx p (by omega), if_pos rfl, ← hjlast]
      exact hget
    · refine ⟨j, by omega, ?_⟩
      rw [hidx j (by omega), if_neg hjp]
      exact hget

end Slots
end Linkora

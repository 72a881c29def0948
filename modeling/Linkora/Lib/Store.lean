import Mathlib.Data.Set.Finite.Basic
import Mathlib.Data.Set.Card
import Mathlib.Algebra.BigOperators.Group.Finset.Basic
import Mathlib.Algebra.Order.BigOperators.Group.Finset

/-!
# Finite key-value stores

A store is a lookup function together with the fact that only finitely many keys
are present.  The lookup is a plain function, so that a run over a concrete
store reduces in the kernel, and finiteness is what lets a total over all stored
entries be written down.
-/

namespace Linkora

universe u v w

/-- A finite map from keys to values. -/
structure Store (κ : Type u) (α : Type v) where
  get : κ → Option α
  finite_present : {k | (get k).isSome}.Finite

namespace Store

variable {κ : Type u} {α : Type v} {M : Type w}

@[ext]
theorem ext {s t : Store κ α} (h : ∀ k, s.get k = t.get k) : s = t := by
  cases s with
  | mk f hf =>
    cases t with
    | mk g hg =>
      have hfg : f = g := funext h
      subst hfg
      rfl

def empty : Store κ α := { get := fun _ => none, finite_present := by simp }

instance : EmptyCollection (Store κ α) := ⟨empty⟩

@[simp] theorem get_empty (k : κ) : (∅ : Store κ α).get k = none := rfl

/-- Is an entry stored under `k`? -/
def has (s : Store κ α) (k : κ) : Bool := (s.get k).isSome

theorem has_eq (s : Store κ α) (k : κ) : s.has k = (s.get k).isSome := rfl

theorem has_of_get {s : Store κ α} {k : κ} {v : α} (h : s.get k = some v) : s.has k = true := by
  rw [has_eq, h, Option.isSome_some]

theorem has_eq_false_iff {s : Store κ α} {k : κ} : s.has k = false ↔ s.get k = none := by
  rw [has_eq, Option.isSome_eq_false_iff, Option.isNone_iff_eq_none]

theorem has_iff_exists {s : Store κ α} {k : κ} : s.has k = true ↔ ∃ v, s.get k = some v := by
  rw [has_eq, Option.isSome_iff_exists]

@[simp] theorem has_empty (k : κ) : (∅ : Store κ α).has k = false := rfl

variable [DecidableEq κ]

/-- Write `v` under `k`, replacing what was there. -/
def set (s : Store κ α) (k : κ) (v : α) : Store κ α where
  get j := if j = k then some v else s.get j
  finite_present := by
    refine (s.finite_present.insert k).subset (fun j hj => ?_)
    by_cases h : j = k
    · exact Set.mem_insert_iff.mpr (Or.inl h)
    · simp only [h, if_false, Set.mem_ofPred_eq] at hj
      exact Set.mem_insert_iff.mpr (Or.inr hj)

/-- Delete the entry under `k`, if there is one. -/
def remove (s : Store κ α) (k : κ) : Store κ α where
  get j := if j = k then none else s.get j
  finite_present := by
    refine s.finite_present.subset (fun j hj => ?_)
    by_cases h : j = k
    · simp [h] at hj
    · simpa [h] using hj

theorem get_set (s : Store κ α) (k j : κ) (v : α) :
    (s.set k v).get j = if j = k then some v else s.get j := rfl

@[simp] theorem get_set_self (s : Store κ α) (k : κ) (v : α) : (s.set k v).get k = some v := by
  rw [get_set, if_pos rfl]

theorem get_set_of_ne {s : Store κ α} {k j : κ} (h : j ≠ k) (v : α) :
    (s.set k v).get j = s.get j := by
  rw [get_set, if_neg h]

theorem get_remove (s : Store κ α) (k j : κ) :
    (s.remove k).get j = if j = k then none else s.get j := rfl

@[simp] theorem get_remove_self (s : Store κ α) (k : κ) : (s.remove k).get k = none := by
  rw [get_remove, if_pos rfl]

theorem get_remove_of_ne {s : Store κ α} {k j : κ} (h : j ≠ k) :
    (s.remove k).get j = s.get j := by
  rw [get_remove, if_neg h]

theorem has_set (s : Store κ α) (k j : κ) (v : α) :
    (s.set k v).has j = if j = k then true else s.has j := by
  rw [has_eq, get_set]
  split <;> rfl

theorem has_remove (s : Store κ α) (k j : κ) :
    (s.remove k).has j = if j = k then false else s.has j := by
  rw [has_eq, get_remove]
  split <;> rfl

/-- Removing a key only ever makes lookups fail. -/
theorem get_of_get_remove {s : Store κ α} {k j : κ} {v : α} (h : (s.remove k).get j = some v) :
    s.get j = some v := by
  rw [get_remove] at h
  split at h
  · cases h
  · exact h

/-- Writing changes a store exactly when something else, or nothing, was stored. -/
theorem set_eq_self_iff {s : Store κ α} {k : κ} {v : α} : s.set k v = s ↔ s.get k = some v := by
  constructor
  · intro h
    rw [← h, get_set_self]
  · intro h
    ext j : 1
    rw [get_set]
    split
    · rename_i hj
      rw [hj, h]
    · rfl

/-- Removing changes a store exactly when something was stored. -/
theorem remove_eq_self_iff {s : Store κ α} {k : κ} : s.remove k = s ↔ s.get k = none := by
  constructor
  · intro h
    rw [← h, get_remove_self]
  · intro h
    ext j : 1
    rw [get_remove]
    split
    · rename_i hj
      rw [hj, h]
    · rfl

/-- Removing the keys of a list leaves the entries that the list does not name. -/
theorem has_foldl_remove {ι : Type w} (key : ι → κ) (l : List ι) (s : Store κ α) (k : κ) :
    (l.foldl (fun s v => s.remove (key v)) s).has k = true ↔
      s.has k = true ∧ ∀ v ∈ l, k ≠ key v := by
  induction l generalizing s with
  | nil => simp
  | cons v l ih =>
    rw [List.foldl_cons, ih, has_remove, List.forall_mem_cons]
    by_cases hk : k = key v
    · simp [hk]
    · simp [hk]

theorem foldl_remove_of_absent {ι : Type w} {key : ι → κ} {l : List ι} {s : Store κ α}
    (h : ∀ v ∈ l, s.get (key v) = none) : l.foldl (fun s v => s.remove (key v)) s = s := by
  induction l with
  | nil => rfl
  | cons v l ih =>
    obtain ⟨hv, hl⟩ := List.forall_mem_cons.mp h
    rw [List.foldl_cons, remove_eq_self_iff.mpr hv, ih hl]

omit [DecidableEq κ] in
/-- The keys paired with a fixed left component form a finite set. -/
theorem finite_right {ι : Type u} (s : Store (ι × κ) α) (i : ι) :
    {k | s.has (i, k) = true}.Finite := by
  have hinj : Function.Injective (fun k : κ => (i, k)) := fun a b hab => (Prod.mk.inj hab).2
  exact s.finite_present.preimage hinj.injOn

/-! ## Counting the keys -/

omit [DecidableEq κ] in
theorem finite_has (s : Store κ α) : {k | s.has k = true}.Finite := s.finite_present

theorem setOf_has_set (s : Store κ α) (k : κ) (v : α) :
    {j | (s.set k v).has j = true} = insert k {j | s.has j = true} := by
  ext j
  rw [Set.mem_ofPred_eq, has_set, Set.mem_insert_iff, Set.mem_ofPred_eq]
  by_cases hj : j = k
  · simp [hj]
  · simp [hj]

theorem setOf_has_remove (s : Store κ α) (k : κ) :
    {j | (s.remove k).has j = true} = {j | s.has j = true} \ {k} := by
  ext j
  rw [Set.mem_ofPred_eq, has_remove, Set.mem_sdiff, Set.mem_ofPred_eq, Set.mem_singleton_iff]
  by_cases hj : j = k
  · simp [hj]
  · simp [hj]

/-- Writing under a new key adds one. -/
theorem ncard_set_of_new {s : Store κ α} {k : κ} (h : s.has k = false) (v : α) :
    {j | (s.set k v).has j = true}.ncard = {j | s.has j = true}.ncard + 1 := by
  have hnew : k ∉ {j | s.has j = true} := by
    rw [Set.mem_ofPred_eq, h]
    exact Bool.false_ne_true
  rw [setOf_has_set, Set.ncard_insert_of_notMem hnew s.finite_has]

/-- Writing under a key that is present leaves the keys as they are. -/
theorem ncard_set_of_has {s : Store κ α} {k : κ} (h : s.has k = true) (v : α) :
    {j | (s.set k v).has j = true}.ncard = {j | s.has j = true}.ncard := by
  have hmem : k ∈ {j | s.has j = true} := h
  rw [setOf_has_set, Set.insert_eq_of_mem hmem]

/-- Removing a key that is present takes one away. -/
theorem ncard_remove_add_one {s : Store κ α} {k : κ} (h : s.has k = true) :
    {j | (s.remove k).has j = true}.ncard + 1 = {j | s.has j = true}.ncard := by
  rw [setOf_has_remove]
  exact Set.ncard_sdiff_singleton_add_one h s.finite_has

/-! ## Totals over a store -/

/-- The finite set of keys present. -/
noncomputable def keys (s : Store κ α) : Finset κ := s.finite_present.toFinset

omit [DecidableEq κ] in
theorem mem_keys {s : Store κ α} {k : κ} : k ∈ s.keys ↔ s.has k = true := by
  rw [keys, Set.Finite.mem_toFinset, Set.mem_ofPred_eq, has_eq]

/-- What the entry under `k` contributes to a total. -/
def contribution [Zero M] (s : Store κ α) (f : κ → α → M) (k : κ) : M := (s.get k).elim 0 (f k)

/-- The total of `f` over all stored entries. -/
noncomputable def total [AddCommMonoid M] (s : Store κ α) (f : κ → α → M) : M :=
  ∑ k ∈ s.keys, s.contribution f k

omit [DecidableEq κ] in
theorem contribution_of_get [Zero M] {s : Store κ α} {f : κ → α → M} {k : κ} {v : α}
    (h : s.get k = some v) : s.contribution f k = f k v := by
  rw [contribution, h, Option.elim_some]

omit [DecidableEq κ] in
theorem contribution_of_not_mem [Zero M] {s : Store κ α} (f : κ → α → M) {k : κ}
    (h : k ∉ s.keys) : s.contribution f k = 0 := by
  rw [mem_keys, Bool.not_eq_true, has_eq_false_iff] at h
  rw [contribution, h, Option.elim_none]

omit [DecidableEq κ] in
/-- A total may be taken over any finite set of keys that covers the store. -/
theorem total_eq_sum [AddCommMonoid M] {s : Store κ α} {K : Finset κ} (f : κ → α → M)
    (h : s.keys ⊆ K) : s.total f = ∑ k ∈ K, s.contribution f k :=
  Finset.sum_subset h (fun _ _ hk => contribution_of_not_mem f hk)

omit [DecidableEq κ] in
theorem total_empty [AddCommMonoid M] (f : κ → α → M) : (∅ : Store κ α).total f = 0 := by
  refine Finset.sum_eq_zero (fun k _ => ?_)
  rw [contribution, get_empty, Option.elim_none]

/-- Two stores that differ at one key only have totals that differ by that
key's contribution. -/
theorem total_add_contribution [AddCommMonoid M] {s t : Store κ α} {k : κ}
    (h : ∀ j, j ≠ k → t.get j = s.get j) (f : κ → α → M) :
    t.total f + s.contribution f k = s.total f + t.contribution f k := by
  set K := insert k (s.keys ∪ t.keys) with hK
  have hs : s.keys ⊆ K := fun j hj => by simp [hK, hj]
  have ht : t.keys ⊆ K := fun j hj => by simp [hK, hj]
  have hk : k ∈ K := by simp [hK]
  have hrest : ∑ j ∈ K.erase k, t.contribution f j = ∑ j ∈ K.erase k, s.contribution f j := by
    refine Finset.sum_congr rfl (fun j hj => ?_)
    rw [contribution, contribution, h j (Finset.ne_of_mem_erase hj)]
  rw [total_eq_sum f hs, total_eq_sum f ht, ← Finset.sum_erase_add K _ hk,
    ← Finset.sum_erase_add K _ hk, hrest, add_right_comm]

theorem total_set [AddCommMonoid M] (s : Store κ α) (k : κ) (v : α) (f : κ → α → M) :
    (s.set k v).total f + s.contribution f k = s.total f + f k v := by
  rw [total_add_contribution (fun j hj => get_set_of_ne hj v) f,
    contribution_of_get (get_set_self s k v)]

omit [DecidableEq κ] in
theorem contribution_nonneg [Zero M] [Preorder M] {s : Store κ α} {f : κ → α → M}
    (h : ∀ k v, s.get k = some v → 0 ≤ f k v) (k : κ) : 0 ≤ s.contribution f k := by
  cases hk : s.get k with
  | none => rw [contribution, hk, Option.elim_none]
  | some v => rw [contribution_of_get hk]; exact h k v hk

omit [DecidableEq κ] in
/-- Where every entry counts for at least nothing, one entry counts for at most
the total. -/
theorem contribution_le_total [AddCommMonoid M] [PartialOrder M] [IsOrderedAddMonoid M]
    {s : Store κ α} {f : κ → α → M} (h : ∀ k v, s.get k = some v → 0 ≤ f k v) (k : κ) :
    s.contribution f k ≤ s.total f := by
  by_cases hk : k ∈ s.keys
  · exact Finset.single_le_sum (fun j _ => contribution_nonneg h j) hk
  · rw [contribution_of_not_mem f hk]
    exact Finset.sum_nonneg (fun j _ => contribution_nonneg h j)

omit [DecidableEq κ] in
/-- Entries that count for at least nothing can only lower the total by going. -/
theorem total_le_of_pruned [AddCommMonoid M] [PartialOrder M] [IsOrderedAddMonoid M]
    {s t : Store κ α} {f : κ → α → M} (hf : ∀ k v, s.get k = some v → 0 ≤ f k v)
    (h : ∀ k, t.get k = s.get k ∨ t.get k = none) : t.total f ≤ s.total f := by
  have hkeys : t.keys ⊆ s.keys := by
    intro k hk
    rw [mem_keys, has_eq] at hk ⊢
    rcases h k with hk' | hk'
    · rwa [hk'] at hk
    · rw [hk'] at hk
      cases hk
  rw [total_eq_sum f hkeys]
  refine Finset.sum_le_sum fun k _ => ?_
  rcases h k with hk | hk
  · rw [contribution, contribution, hk]
  · rw [contribution, hk, Option.elim_none]
    exact contribution_nonneg hf k

end Store
end Linkora

import Mathlib.Data.List.Basic
import Mathlib.Data.List.Nodup

/-!
# Bounded lists of entries in order of use

A cache that drops its least recently used entry when it is full: the entries by key, the
most recently used first.  A key occurs once, and there are never more entries than the
capacity.
-/

namespace Linkora

universe u v

structure Lru (κ : Type u) (α : Type v) where
  capacity : Nat
  entries : List (κ × α)
  capacity_pos : 0 < capacity
  nodup : (entries.map Prod.fst).Nodup
  bounded : entries.length ≤ capacity

namespace Lru

variable {κ : Type u} {α : Type v} [DecidableEq κ] {c : Lru κ α} {k j : κ} {a b : α}

def empty (capacity : Nat) (h : 0 < capacity) : Lru κ α where
  capacity
  entries := []
  capacity_pos := h
  nodup := List.nodup_nil
  bounded := Nat.zero_le _

def clear (c : Lru κ α) : Lru κ α := empty c.capacity c.capacity_pos

/-- The entry of a key, wherever it stands. -/
def find? (c : Lru κ α) (k : κ) : Option α := (c.entries.find? (·.1 = k)).map Prod.snd

/-- Keep the entries that meet a test. -/
def filter (c : Lru κ α) (p : κ → α → Bool) : Lru κ α where
  capacity := c.capacity
  entries := c.entries.filter fun x => p x.1 x.2
  capacity_pos := c.capacity_pos
  nodup := List.Sublist.nodup (List.Sublist.map _ List.filter_sublist) c.nodup
  bounded := Nat.le_trans (List.length_filter_le _ _) c.bounded

def erase (c : Lru κ α) (k : κ) : Lru κ α := c.filter fun j _ => decide (j ≠ k)

/-- Drop the entry at the end of a full list. -/
def evict (c : Lru κ α) : List (κ × α) :=
  if c.entries.length < c.capacity then c.entries else c.entries.dropLast

omit [DecidableEq κ] in
theorem evict_sublist (c : Lru κ α) : c.evict.Sublist c.entries := by
  unfold evict
  split
  · exact List.Sublist.refl _
  · exact List.dropLast_sublist _

omit [DecidableEq κ] in
theorem length_evict (c : Lru κ α) : c.evict.length < c.capacity := by
  have hpos := c.capacity_pos
  have hle := c.bounded
  unfold evict
  split
  · assumption
  · rw [List.length_dropLast]
    omega

theorem not_mem_erase (c : Lru κ α) (k : κ) : k ∉ (c.erase k).entries.map Prod.fst := by
  intro hmem
  obtain ⟨x, hx, rfl⟩ := List.mem_map.mp hmem
  exact of_decide_eq_true (List.mem_filter.mp hx).2 rfl

/-- Put an entry in front, in the place of the one that the key has; a list that is full then
loses its last entry. -/
def put (c : Lru κ α) (k : κ) (a : α) : Lru κ α where
  capacity := c.capacity
  entries := (k, a) :: (c.erase k).evict
  capacity_pos := c.capacity_pos
  nodup := by
    have hsub := List.Sublist.map Prod.fst (c.erase k).evict_sublist
    rw [List.map_cons, List.nodup_cons]
    exact ⟨fun hk => c.not_mem_erase k (hsub.subset hk), hsub.nodup (c.erase k).nodup⟩
  bounded := (c.erase k).length_evict

/-! ## What the entries are -/

theorem mem_of_find? (h : c.find? k = some a) : (k, a) ∈ c.entries := by
  obtain ⟨x, hx, rfl⟩ := Option.map_eq_some_iff.mp h
  have hkey : x.1 = k := by simpa using List.find?_some hx
  rw [← hkey]
  exact List.mem_of_find?_eq_some hx

theorem find?_of_mem (h : (k, a) ∈ c.entries) : c.find? k = some a := by
  cases hfound : c.entries.find? (·.1 = k) with
  | none =>
    have hother := List.find?_eq_none.mp hfound (k, a) h
    simp at hother
  | some x =>
    -- Two entries with one key are one entry.
    have hkey : x.1 = k := by simpa using List.find?_some hfound
    have hsame : x = (k, a) :=
      List.inj_on_of_nodup_map c.nodup (List.mem_of_find?_eq_some hfound) h hkey
    rw [find?, hfound, hsame]
    rfl

omit [DecidableEq κ] in
theorem mem_filter {p : κ → α → Bool} :
    (k, a) ∈ (c.filter p).entries ↔ (k, a) ∈ c.entries ∧ p k a = true := List.mem_filter

theorem mem_erase : (k, a) ∈ (c.erase j).entries ↔ (k, a) ∈ c.entries ∧ k ≠ j := by
  rw [erase, mem_filter, decide_eq_true_iff]

theorem mem_put (h : (k, a) ∈ (c.put j b).entries) : k = j ∧ a = b ∨ (k, a) ∈ c.entries := by
  rcases List.mem_cons.mp h with hhead | htail
  · exact Or.inl (Prod.mk.inj hhead)
  · exact Or.inr (mem_erase.mp ((c.erase j).evict_sublist.subset htail)).1

theorem find?_put_self (c : Lru κ α) (k : κ) (a : α) : (c.put k a).find? k = some a :=
  find?_of_mem List.mem_cons_self

/-! ## The entries as they stand -/

variable {es fs : List (κ × α)}

omit [DecidableEq κ] in
/-- The other entries have other keys. -/
theorem ne_of_split (h : c.entries = es ++ (k, a) :: fs) : ∀ x ∈ es ++ fs, x.1 ≠ k := by
  have hnodup := c.nodup
  rw [h, List.map_append, List.map_cons, List.nodup_middle, ← List.map_append] at hnodup
  intro x hx heq
  exact (List.nodup_cons.mp hnodup).1 (List.mem_map.mpr ⟨x, hx, heq⟩)

theorem erase_of_split (h : c.entries = es ++ (k, a) :: fs) : (c.erase k).entries = es ++ fs := by
  have hothers := ne_of_split h
  have hkeep : ∀ xs : List (κ × α), (∀ x ∈ xs, x.1 ≠ k) →
      xs.filter (fun x => decide (x.1 ≠ k)) = xs := fun xs hxs =>
    List.filter_eq_self.mpr fun x hx => decide_eq_true (hxs x hx)
  show c.entries.filter (fun x => decide (x.1 ≠ k)) = es ++ fs
  rw [h, List.filter_append, List.filter_cons_of_neg (by simp),
    hkeep es fun x hx => hothers x (List.mem_append_left _ hx),
    hkeep fs fun x hx => hothers x (List.mem_append_right _ hx)]

theorem erase_of_absent (h : c.find? k = none) : (c.erase k).entries = c.entries := by
  refine List.filter_eq_self.mpr fun x hx => decide_eq_true fun heq => ?_
  have hfound : c.find? k = some x.2 := find?_of_mem (heq ▸ hx)
  rw [h] at hfound
  cases hfound

/-- A key that has an entry keeps the others in place. -/
theorem put_of_split (h : c.entries = es ++ (k, a) :: fs) :
    (c.put k b).entries = (k, b) :: (es ++ fs) := by
  have hbounded := c.bounded
  have herase := erase_of_split h
  rw [h, List.length_append, List.length_cons] at hbounded
  have hroom : (c.erase k).entries.length < (c.erase k).capacity := by
    rw [herase, List.length_append]
    exact hbounded
  show (k, b) :: (c.erase k).evict = _
  rw [evict, if_pos hroom, herase]

theorem put_of_room (h : c.find? k = none) (hroom : c.entries.length < c.capacity) :
    (c.put k b).entries = (k, b) :: c.entries := by
  have herase := erase_of_absent h
  have hroom' : (c.erase k).entries.length < (c.erase k).capacity := by
    rw [herase]
    exact hroom
  show (k, b) :: (c.erase k).evict = _
  rw [evict, if_pos hroom', herase]

theorem put_of_full (h : c.find? k = none) (hfull : c.capacity ≤ c.entries.length) :
    (c.put k b).entries = (k, b) :: c.entries.dropLast := by
  have herase := erase_of_absent h
  have hfull' : ¬(c.erase k).entries.length < (c.erase k).capacity := by
    rw [herase]
    exact Nat.not_lt.mpr hfull
  show (k, b) :: (c.erase k).evict = _
  rw [evict, if_neg hfull', herase]

omit [DecidableEq κ] in
theorem not_mem_clear (c : Lru κ α) : (k, a) ∉ c.clear.entries := List.not_mem_nil

end Lru
end Linkora

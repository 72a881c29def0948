import Mathlib.Data.List.Nodup
import Mathlib.Data.List.TakeDrop

/-!
# Pages of a list

A page is a stretch of a list that starts at an offset and is no longer than a limit.
Where every page is cut from the same list, the pages at the multiples of the limit put
the list together again, and pages that start far enough apart have nothing in common.

A list to be cut into pages is often one that a loop collects, leaving out what it has
seen before; `eraseDups` says what such a loop collects.
-/

namespace Linkora

variable {α : Type}

def page (l : List α) (offset limit : Nat) : List α := (l.drop offset).take limit

namespace page

theorem sublist (l : List α) (offset limit : Nat) : (page l offset limit).Sublist l :=
  (List.take_sublist _ _).trans (List.drop_sublist _ _)

theorem mem {l : List α} {offset limit : Nat} {a : α} (h : a ∈ page l offset limit) : a ∈ l :=
  (sublist l offset limit).mem h

theorem nodup {l : List α} (h : l.Nodup) (offset limit : Nat) : (page l offset limit).Nodup :=
  (sublist l offset limit).nodup h

theorem eq_drop_take (l : List α) (offset limit : Nat) :
    page l offset limit = (l.take (offset + limit)).drop offset := by
  rw [List.drop_take, Nat.add_sub_cancel_left, page]

theorem length_eq (l : List α) (offset limit : Nat) :
    (page l offset limit).length = min limit (l.length - offset) := by
  rw [page, List.length_take, List.length_drop]

/-- A long page is a page and the one behind it. -/
theorem add (l : List α) (offset m n : Nat) :
    page l offset (m + n) = page l offset m ++ page l (offset + m) n := by
  rw [page, List.take_add, List.drop_drop]
  rfl

/-- A page that reaches the end of the list is the rest of it. -/
theorem eq_drop {l : List α} {offset limit : Nat} (h : l.length ≤ offset + limit) :
    page l offset limit = l.drop offset :=
  List.take_of_length_le (by rw [List.length_drop]; omega)

/-- A page of the beginning of a list, if the beginning reaches to the end of the page. -/
theorem take_eq (l : List α) {n offset limit : Nat} (h : offset + limit ≤ n ∨ l.length ≤ n) :
    page (l.take n) offset limit = page l offset limit := by
  rcases h with h | h
  · rw [page, page, List.drop_take, List.take_take, Nat.min_eq_left (by omega)]
  · rw [List.take_of_length_le h]

/-- The first `k` pages, one after another. -/
theorem flatten_eq (l : List α) (limit k : Nat) :
    ((List.range k).map fun i => page l (i * limit) limit).flatten = l.take (k * limit) := by
  induction k with
  | zero => simp
  | succ k ih =>
    rw [List.range_succ, List.map_append, List.flatten_append, ih, List.map_singleton,
      List.flatten_singleton, Nat.succ_mul, List.take_add]
    rfl

/-- Enough pages give the whole list. -/
theorem flatten_all (l : List α) {limit k : Nat} (h : l.length ≤ k * limit) :
    ((List.range k).map fun i => page l (i * limit) limit).flatten = l := by
  rw [flatten_eq, List.take_of_length_le h]

/-- A page that starts where another one ends, or later, has none of its elements. -/
theorem disjoint {l : List α} (h : l.Nodup) {offset offset' limit limit' : Nat}
    (hle : offset + limit ≤ offset') :
    List.Disjoint (page l offset limit) (page l offset' limit') := by
  have hsplit : (l.take (offset + limit) ++ l.drop (offset + limit)).Nodup := by
    rw [List.take_append_drop]
    exact h
  refine List.disjoint_of_subset_left ?_
    (List.disjoint_of_subset_right ?_ (List.disjoint_of_nodup_append hsplit))
  · intro a ha
    rw [eq_drop_take] at ha
    exact List.mem_of_mem_drop ha
  · intro a ha
    have hdrop : l.drop offset' = (l.drop (offset + limit)).drop (offset' - (offset + limit)) := by
      rw [List.drop_drop, Nat.add_sub_cancel' hle]
    rw [page, hdrop] at ha
    exact List.mem_of_mem_drop (List.mem_of_mem_take ha)

end page

/-! ## Distinct elements -/

section Distinct

variable [BEq α] [LawfulBEq α]

theorem nodup_eraseDups (l : List α) : l.eraseDups.Nodup := by
  induction hn : l.length using Nat.strongRecOn generalizing l with
  | _ n ih =>
    cases l with
    | nil => exact List.nodup_nil
    | cons a l =>
      rw [List.eraseDups_cons]
      refine List.nodup_cons.mpr ⟨fun hmem => ?_, ih _ ?_ _ rfl⟩
      · have hkept := (List.mem_filter.mp (List.mem_eraseDups.mp hmem)).2
        simp at hkept
      · have hle := List.length_filter_le (fun b => !b == a) l
        rw [List.length_cons] at hn
        omega

/-- One more element at the end is kept if it is new. -/
theorem eraseDups_concat (l : List α) (a : α) :
    (l ++ [a]).eraseDups = if l.contains a then l.eraseDups else l.eraseDups ++ [a] := by
  rw [List.eraseDups_append]
  split
  · rename_i h
    have hnone : [a].removeAll l = [] := by simp [List.removeAll, List.contains_iff_mem.mp h]
    rw [hnone, List.eraseDups_nil, List.append_nil]
  · rename_i h
    have hnew : a ∉ l := fun hmem => h (List.contains_iff_mem.mpr hmem)
    have hone : [a].removeAll l = [a] := by simp [List.removeAll, hnew]
    rw [hone, List.eraseDups_cons, List.filter_nil, List.eraseDups_nil]

/-- The distinct elements of a beginning come first. -/
theorem eraseDups_prefix {l l' : List α} (h : l <+: l') : l.eraseDups <+: l'.eraseDups := by
  obtain ⟨r, rfl⟩ := h
  rw [List.eraseDups_append]
  exact List.prefix_append _ _

end Distinct

end Linkora

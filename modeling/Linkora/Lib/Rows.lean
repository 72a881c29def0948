import Mathlib.Data.List.Basic
import Mathlib.Data.List.Nodup
import Mathlib.Data.List.Count

/-!
# Tables as lists of rows

The rows of a table in the order in which they were inserted, with a primary key that is a
function of the row.  The operations are those of SQL statements; an insert leaves out a key
that is there, so the keys stay different.
-/

namespace Linkora
namespace Rows

universe u v

variable {κ : Type u} {ρ : Type v} [DecidableEq κ] (key : ρ → κ)

/-- `INSERT`, which fails on a key that is there. -/
def insert (rows : List ρ) (r : ρ) : Option (List ρ) :=
  if key r ∈ rows.map key then none else some (rows ++ [r])

/-- `UPDATE … WHERE key = k`. -/
def updateAt (rows : List ρ) (k : κ) (f : ρ → ρ) : List ρ :=
  rows.map fun x => if key x = k then f x else x

/-- `INSERT … ON CONFLICT(key) DO UPDATE`. -/
def upsert (rows : List ρ) (r : ρ) (f : ρ → ρ) : List ρ :=
  if key r ∈ rows.map key then updateAt key rows (key r) f else rows ++ [r]

/-- No key is there twice. -/
def Keyed (rows : List ρ) : Prop := (rows.map key).Nodup

variable {key} {rows : List ρ} {r x : ρ} {k : κ} {f : ρ → ρ}

theorem insert_eq_some {rows' : List ρ} :
    insert key rows r = some rows' ↔ key r ∉ rows.map key ∧ rows' = rows ++ [r] := by
  unfold insert
  split
  · rename_i hmem
    exact ⟨nofun, fun h => absurd hmem h.1⟩
  · rename_i hmem
    exact ⟨fun h => ⟨hmem, (Option.some.inj h).symm⟩, fun h => by rw [h.2]⟩

theorem map_updateAt {β : Type*} {g : ρ → β} (hg : ∀ x, g (f x) = g x) (rows : List ρ) (k : κ) :
    (updateAt key rows k f).map g = rows.map g := by
  rw [updateAt, List.map_map]
  apply List.map_congr_left
  intro x _
  show g (if key x = k then f x else x) = g x
  split
  · exact hg x
  · rfl

theorem mem_updateAt : x ∈ updateAt key rows k f ↔
    ∃ y ∈ rows, x = if key y = k then f y else y := by
  rw [updateAt, List.mem_map]
  exact exists_congr fun y => and_congr_right fun _ => eq_comm

namespace Keyed

omit [DecidableEq κ] in
theorem nil : Keyed key ([] : List ρ) := List.nodup_nil

omit [DecidableEq κ] in
theorem append (h : Keyed key rows) (hr : key r ∉ rows.map key) : Keyed key (rows ++ [r]) := by
  rw [Keyed, List.map_append, List.map_singleton, ← List.concat_eq_append]
  exact List.Nodup.concat hr h

theorem updateAt (h : Keyed key rows) (hf : ∀ x, key (f x) = key x) (k : κ) :
    Keyed key (updateAt key rows k f) := by
  rw [Keyed, map_updateAt hf]
  exact h

theorem upsert (h : Keyed key rows) (hf : ∀ x, key (f x) = key x) (r : ρ) :
    Keyed key (upsert key rows r f) := by
  unfold Rows.upsert
  split
  · exact h.updateAt hf _
  · rename_i hr
    exact h.append hr

omit [DecidableEq κ] in
theorem filter (h : Keyed key rows) (p : ρ → Bool) : Keyed key (rows.filter p) :=
  List.Sublist.nodup (List.Sublist.map key (List.filter_sublist)) h

omit [DecidableEq κ] in
/-- The rows with one key are at most one. -/
theorem eq_of_key (h : Keyed key rows) (hx : x ∈ rows) (hr : r ∈ rows) (hk : key x = key r) :
    x = r :=
  List.inj_on_of_nodup_map h hx hr hk

theorem countP_key (h : Keyed key rows) (hx : x ∈ rows) :
    rows.countP (fun y => key y = key x) = 1 := by
  have hone : (rows.map key).count (key x) = 1 :=
    List.count_eq_one_of_mem h (List.mem_map_of_mem hx)
  rw [List.count, List.countP_map] at hone
  rw [← hone]
  apply List.countP_congr
  intro y _
  simp

/-- One row may be given a key that is not there. -/
theorem rename (h : Keyed key rows) {k k' : κ} (hnew : k' ∉ rows.map key) {f : ρ → ρ}
    (hf : ∀ x, key (f x) = k') : Keyed key (Rows.updateAt key rows k f) := by
  induction rows with
  | nil => exact nil
  | cons x rest ih =>
    obtain ⟨hx, hrest⟩ := List.nodup_cons.mp h
    rw [List.map_cons, List.mem_cons, not_or] at hnew
    have hih : Keyed key (Rows.updateAt key rest k f) := ih hrest hnew.2
    refine List.nodup_cons.mpr ⟨fun hmem => ?_, hih⟩
    obtain ⟨y, hy, hyx⟩ := List.mem_map.mp hmem
    obtain ⟨z, hz, rfl⟩ := mem_updateAt.mp hy
    have hkeys : key (if key z = k then f z else z) = key (if key x = k then f x else x) := hyx
    -- The renamed row has a new key, and the others keep theirs.
    by_cases hxk : key x = k <;> by_cases hzk : key z = k
    · exact hx (hxk.trans hzk.symm ▸ List.mem_map_of_mem hz)
    · rw [if_neg hzk, if_pos hxk, hf] at hkeys
      exact hnew.2 (hkeys ▸ List.mem_map_of_mem hz)
    · rw [if_pos hzk, if_neg hxk, hf] at hkeys
      exact hnew.1 hkeys
    · rw [if_neg hzk, if_neg hxk] at hkeys
      exact hx (hkeys ▸ List.mem_map_of_mem hz)

/-- Taking one row away takes one away from a count that it is in. -/
theorem countP_filter_not (h : Keyed key rows) (hr : r ∈ rows) {q : ρ → Bool}
    (hq : ∀ x ∈ rows, q x = true ↔ x = r) (p : ρ → Bool) :
    rows.countP p = (rows.filter fun x => !q x).countP p + (if p r = true then 1 else 0) := by
  have hsplit := List.countP_eq_countP_filter_add rows p q
  have hone : (rows.filter q).countP p = if p r = true then 1 else 0 := by
    rw [List.countP_filter]
    split
    · rename_i hp
      rw [← h.countP_key hr]
      apply List.countP_congr
      intro x hx
      have hkey : key x = key r ↔ x = r := ⟨h.eq_of_key hx hr, fun heq => heq ▸ rfl⟩
      simp only [Bool.and_eq_true, decide_eq_true_eq, hq x hx, hkey]
      exact ⟨fun hx => hx.2, fun hx => ⟨hx ▸ hp, hx⟩⟩
    · rename_i hp
      apply List.countP_eq_zero.mpr
      intro x hx hand
      obtain ⟨hpx, hqx⟩ := Bool.and_eq_true_iff.mp hand
      exact hp ((hq x hx).mp hqx ▸ hpx)
  rw [hsplit, hone, Nat.add_comm]

end Keyed

/-- An update of no consequence. -/
theorem updateAt_eq_self (h : ∀ x ∈ rows, key x = k → f x = x) : updateAt key rows k f = rows := by
  conv_rhs => rw [← List.map_id rows]
  apply List.map_congr_left
  intro x hx
  show (if key x = k then f x else x) = x
  split
  · rename_i hk
    exact h x hx hk
  · rfl

/-- Whatever is inserted is there, under its key. -/
theorem mem_upsert (hnew : key r ∉ rows.map key → x = r)
    (hold : ∀ y ∈ rows, key y = key r → x = f y) : x ∈ upsert key rows r f := by
  unfold upsert
  split
  · rename_i hmem
    obtain ⟨y, hy, hkey⟩ := List.mem_map.mp hmem
    refine mem_updateAt.mpr ⟨y, hy, ?_⟩
    rw [if_pos hkey]
    exact hold y hy hkey
  · rename_i hmem
    rw [hnew hmem]
    exact List.mem_append_right _ (List.mem_singleton_self r)

/-- A row with another key stays. -/
theorem mem_upsert_of_ne (hx : x ∈ rows) (hk : key x ≠ key r) : x ∈ upsert key rows r f := by
  unfold upsert
  split
  · exact mem_updateAt.mpr ⟨x, hx, (if_neg hk).symm⟩
  · exact List.mem_append_left _ hx

/-- A row is new, or updated, or as it was. -/
theorem of_mem_upsert (hx : x ∈ upsert key rows r f) :
    (x = r ∧ key r ∉ rows.map key) ∨ (∃ y ∈ rows, key y = key r ∧ x = f y) ∨
      (x ∈ rows ∧ key x ≠ key r) := by
  unfold upsert at hx
  split at hx
  · obtain ⟨y, hy, rfl⟩ := mem_updateAt.mp hx
    split
    · rename_i hk
      exact Or.inr (Or.inl ⟨y, hy, hk, rfl⟩)
    · rename_i hk
      exact Or.inr (Or.inr ⟨hy, hk⟩)
  · rename_i hmem
    rcases List.mem_append.mp hx with hx | hx
    · exact Or.inr (Or.inr ⟨hx, fun h => hmem (h ▸ List.mem_map_of_mem hx)⟩)
    · exact Or.inl ⟨List.mem_singleton.mp hx, hmem⟩

/-! ## Ordered selections -/

/-- `SELECT … WHERE p ORDER BY le LIMIT limit`. -/
def select (p : ρ → Bool) (le : ρ → ρ → Bool) (limit : Nat) (rows : List ρ) : List ρ :=
  ((rows.filter p).mergeSort le).take limit

omit [DecidableEq κ] in
/-- Under an order that ranks rows with different keys, a selection depends only on which rows
it is over. -/
theorem select_congr {p : ρ → Bool} {le : ρ → ρ → Bool} {rows' : List ρ} (limit : Nat)
    (htrans : ∀ x y z, le x y = true → le y z = true → le x z = true)
    (htotal : ∀ x y, (le x y || le y x) = true)
    (hanti : ∀ x y, le x y = true → le y x = true → key x = key y)
    (hrows : Keyed key rows) (hrows' : Keyed key rows')
    (hsame : ∀ x, p x = true → (x ∈ rows ↔ x ∈ rows')) :
    select p le limit rows = select p le limit rows' := by
  have hmem : ∀ x, x ∈ rows.filter p ↔ x ∈ rows'.filter p := by
    intro x
    rw [List.mem_filter, List.mem_filter]
    exact and_congr_left (hsame x)
  have hperm : (rows.filter p).Perm (rows'.filter p) :=
    (List.perm_ext_iff_of_nodup (hrows.filter p).of_map (hrows'.filter p).of_map).mpr hmem
  have hsorted : (rows.filter p).mergeSort le = (rows'.filter p).mergeSort le := by
    refine List.Perm.eq_of_pairwise ?_
      (List.pairwise_mergeSort htrans htotal _) (List.pairwise_mergeSort htrans htotal _)
      ((List.mergeSort_perm _ _).trans (hperm.trans (List.mergeSort_perm _ _).symm))
    intro x y hx hy hxy hyx
    rw [List.mem_mergeSort, List.mem_filter] at hx
    rw [List.mem_mergeSort, ← hmem, List.mem_filter] at hy
    exact hrows.eq_of_key hx.1 hy.1 (hanti x y hxy hyx)
  rw [select, select, hsorted]

end Rows
end Linkora

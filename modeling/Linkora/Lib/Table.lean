import Mathlib.Data.Finmap
import Mathlib.Data.BitVec

/-!
# Tables with a primary key

A table is a finite map from keys to rows, so that two tables with the same rows are equal.
The operations are those of SQL statements that name one key, and the fingerprint of a table
is the exclusive or of a hash of each row.
-/

namespace Linkora

universe u v

/-- The rows of a table by primary key. -/
abbrev Table (κ : Type u) (ρ : Type v) := Finmap fun _ : κ => ρ

namespace Table

variable {κ : Type u} {ρ : Type v} [DecidableEq κ]

/-- `INSERT … ON CONFLICT DO NOTHING`. -/
def insertNew (t : Table κ ρ) (k : κ) (r : ρ) : Table κ ρ := if k ∈ t then t else t.insert k r

/-- `UPDATE … WHERE key = k`. -/
def update (t : Table κ ρ) (k : κ) (f : ρ → ρ) : Table κ ρ :=
  match t.lookup k with
  | none => t
  | some r => t.insert k (f r)

/-- Put the given row at a key, or no row. -/
def patch (t : Table κ ρ) (k : κ) : Option ρ → Table κ ρ
  | none => t.erase k
  | some r => t.insert k r

theorem lookup_insert (t : Table κ ρ) (k j : κ) (r : ρ) :
    (t.insert k r).lookup j = if j = k then some r else t.lookup j := by
  by_cases h : j = k
  · rw [if_pos h, h, Finmap.lookup_insert]
  · rw [if_neg h, Finmap.lookup_insert_of_ne t h]

theorem lookup_erase (t : Table κ ρ) (k j : κ) :
    (t.erase k).lookup j = if j = k then none else t.lookup j := by
  by_cases h : j = k
  · rw [if_pos h, h, Finmap.lookup_erase]
  · rw [if_neg h, Finmap.lookup_erase_ne h]

theorem lookup_insertNew (t : Table κ ρ) (k j : κ) (r : ρ) :
    (insertNew t k r).lookup j = if j = k then some ((t.lookup k).getD r) else t.lookup j := by
  rw [insertNew]
  by_cases hk : k ∈ t
  · obtain ⟨r', hr'⟩ := Finmap.mem_iff.mp hk
    rw [if_pos hk, hr', Option.getD_some]
    by_cases h : j = k
    · rw [if_pos h, h, hr']
    · rw [if_neg h]
  · rw [if_neg hk, lookup_insert, Finmap.lookup_eq_none.mpr hk, Option.getD_none]

theorem lookup_update (t : Table κ ρ) (k j : κ) (f : ρ → ρ) :
    (update t k f).lookup j = if j = k then (t.lookup k).map f else t.lookup j := by
  rw [update]
  cases hk : t.lookup k with
  | none =>
    by_cases h : j = k
    · rw [if_pos h, h, hk, Option.map_none]
    · rw [if_neg h]
  | some r => rw [lookup_insert, Option.map_some]

theorem mem_insertNew {t : Table κ ρ} {k j : κ} {r : ρ} :
    j ∈ insertNew t k r ↔ j = k ∨ j ∈ t := by
  rw [insertNew]
  by_cases hk : k ∈ t
  · rw [if_pos hk]
    refine ⟨Or.inr, fun h => ?_⟩
    rcases h with rfl | h
    · exact hk
    · exact h
  · rw [if_neg hk]
    exact Finmap.mem_insert

theorem mem_update {t : Table κ ρ} {k j : κ} {f : ρ → ρ} : j ∈ update t k f ↔ j ∈ t := by
  rw [update]
  cases hk : t.lookup k with
  | none => exact Iff.rfl
  | some r =>
    rw [Finmap.mem_insert]
    refine ⟨fun h => ?_, Or.inr⟩
    rcases h with rfl | h
    · exact Finmap.mem_of_lookup_eq_some hk
    · exact h

/-- Updates of different rows commute. -/
theorem update_update (t : Table κ ρ) {k j : κ} (h : k ≠ j) (f g : ρ → ρ) :
    update (update t k f) j g = update (update t j g) k f := by
  apply Finmap.ext_lookup
  intro i
  simp only [lookup_update]
  by_cases hk : i = k
  · have hj : i ≠ j := fun hj => h (hk.symm.trans hj)
    rw [if_neg hj, if_pos hk, if_pos hk, if_neg h]
  · rw [if_neg hk, if_neg hk, if_neg h.symm]

theorem insertNew_update (t : Table κ ρ) {k j : κ} (h : k ≠ j) (f : ρ → ρ) (r : ρ) :
    insertNew (update t k f) j r = update (insertNew t j r) k f := by
  apply Finmap.ext_lookup
  intro i
  simp only [lookup_update, lookup_insertNew]
  by_cases hk : i = k
  · have hj : i ≠ j := fun hj => h (hk.symm.trans hj)
    rw [if_neg hj, if_pos hk, if_pos hk, if_neg h]
  · rw [if_neg hk, if_neg hk, if_neg h.symm]

theorem lookup_patch (t : Table κ ρ) (k j : κ) (o : Option ρ) :
    (patch t k o).lookup j = if j = k then o else t.lookup j := by
  cases o with
  | none => exact lookup_erase t k j
  | some r => exact lookup_insert t k j r

/-- A fold whose effect on each row is idempotent is idempotent. -/
theorem foldl_idem_of_cells {ε : Type v} {f : Table κ ρ → ε → Table κ ρ}
    {cell : κ → Option ρ → ε → Option ρ} (hcell : ∀ t k e, (f t e).lookup k = cell k (t.lookup k) e)
    {es : List ε} (hidem : ∀ k c, es.foldl (cell k) (es.foldl (cell k) c) = es.foldl (cell k) c)
    (t : Table κ ρ) : es.foldl f (es.foldl f t) = es.foldl f t := by
  apply Finmap.ext_lookup
  intro k
  have hlookup : ∀ t, (es.foldl f t).lookup k = es.foldl (cell k) (t.lookup k) := fun t =>
    (List.foldl_hom (Finmap.lookup k) fun x e => (hcell x k e).symm).symm
  rw [hlookup, hlookup, hidem]

section

variable {n : Nat} (hash : κ → ρ → BitVec n)

instance : Std.Commutative (fun x y : BitVec n => x ^^^ y) := ⟨BitVec.xor_comm⟩

instance : Std.Associative (fun x y : BitVec n => x ^^^ y) := ⟨BitVec.xor_assoc⟩

/-- The exclusive or of the hashes of all rows. -/
def xorAll (t : Table κ ρ) : BitVec n :=
  (t.entries.map fun e => hash e.1 e.2).fold (fun x y => x ^^^ y) 0#n

/-- What a key contributes to the fingerprint. -/
def hashAt (k : κ) : Option ρ → BitVec n
  | none => 0#n
  | some r => hash k r

theorem xorAll_insert_of_notMem {t : Table κ ρ} {k : κ} (h : k ∉ t) (r : ρ) :
    xorAll hash (t.insert k r) = hash k r ^^^ xorAll hash t := by
  rw [xorAll, Finmap.entries_insert_of_notMem h, Multiset.map_cons, Multiset.fold_cons_left]
  rfl

theorem xorAll_erase (t : Table κ ρ) (k : κ) :
    xorAll hash (t.erase k) = xorAll hash t ^^^ hashAt hash k (t.lookup k) := by
  cases hk : t.lookup k with
  | none =>
    have herase : t.erase k = t := by
      apply Finmap.ext_lookup
      intro j
      rw [lookup_erase]
      by_cases h : j = k
      · rw [if_pos h, h, hk]
      · rw [if_neg h]
    rw [herase]
    exact BitVec.xor_zero.symm
  | some r =>
    have hinsert : t = (t.erase k).insert k r := by
      apply Finmap.ext_lookup
      intro j
      rw [lookup_insert, lookup_erase]
      by_cases h : j = k
      · rw [if_pos h, h, hk]
      · rw [if_neg h, if_neg h]
    have hxor := xorAll_insert_of_notMem hash Finmap.notMem_erase_self (t := t.erase k) r
    rw [← hinsert] at hxor
    rw [hxor, hashAt, BitVec.xor_comm (hash k r), BitVec.xor_assoc, BitVec.xor_self,
      BitVec.xor_zero]

/-- Replacing a row takes its old hash out and puts its new hash in. -/
theorem xorAll_patch (t : Table κ ρ) (k : κ) (o : Option ρ) :
    xorAll hash (patch t k o) =
      xorAll hash t ^^^ hashAt hash k (t.lookup k) ^^^ hashAt hash k o := by
  cases o with
  | none => rw [patch, xorAll_erase, hashAt, BitVec.xor_zero]
  | some r =>
    have hinsert : t.insert k r = (t.erase k).insert k r := by
      apply Finmap.ext_lookup
      intro j
      rw [lookup_insert, lookup_insert, lookup_erase]
      by_cases h : j = k
      · rw [if_pos h, if_pos h]
      · rw [if_neg h, if_neg h, if_neg h]
    rw [patch, hinsert, xorAll_insert_of_notMem hash Finmap.notMem_erase_self, xorAll_erase,
      BitVec.xor_comm]
    rfl

end

end Table
end Linkora

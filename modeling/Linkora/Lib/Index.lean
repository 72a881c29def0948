import Linkora.Lib.Store

/-!
# Swap-remove indexes

For each owner an index keeps a sequence of distinct values in numbered slots,
the slot of each value, and the number of slots in use.  A value is added at the
end, and it is removed by moving the last value into its slot, so both cost a
constant number of store accesses.  The three families of entries have to stay
mutually inverse; `Enumerates` says that they do and names the set they list.
-/

namespace Linkora

/-- The slots, positions and slot counts of every owner.  A missing count reads
as zero. -/
structure Index (ω α : Type) where
  count : Store ω Nat
  idx : Store (ω × Nat) α
  pos : Store (ω × α) Nat

/-- The ways a swap-remove can find the index inconsistent. -/
inductive SwapError where
  | positionMissing
  | entryMissing
  deriving DecidableEq

namespace Index

variable {ω α : Type}

def empty : Index ω α := { count := ∅, idx := ∅, pos := ∅ }

/-- The number of slots in use. -/
def size (ix : Index ω α) (o : ω) : Nat := (ix.count.get o).getD 0

theorem size_of_count {ix : Index ω α} {o : ω} {n : Nat} (h : ix.count.get o = some n) :
    ix.size o = n := by
  rw [size, h]
  rfl

/-- The values in the slots `start, …, start + len - 1`, skipping empty slots. -/
def slice (ix : Index ω α) (o : ω) (start len : Nat) : List α :=
  (List.range' start len).filterMap fun i => ix.idx.get (o, i)

theorem slice_zero (ix : Index ω α) (o : ω) (start : Nat) : ix.slice o start 0 = [] := rfl

theorem slice_succ (ix : Index ω α) (o : ω) (start n : Nat) :
    ix.slice o start (n + 1) = match ix.idx.get (o, start) with
      | some v => v :: ix.slice o (start + 1) n
      | none => ix.slice o (start + 1) n := by
  rw [slice, List.range'_succ, List.filterMap_cons]
  cases ix.idx.get (o, start) with
  | none => rfl
  | some v => rfl

/-- The index lists exactly the values of `S` for owner `o`: the slots below the
count are the ones in use, and the position of a value is the slot it is in.
Two slots never hold the same value, since a value has one position. -/
structure Enumerates (ix : Index ω α) (o : ω) (S : Set α) : Prop where
  present_iff : ∀ i, (∃ v, ix.idx.get (o, i) = some v) ↔ i < ix.size o
  inverse : ∀ i v, ix.idx.get (o, i) = some v ↔ ix.pos.get (o, v) = some i
  mem_iff : ∀ v, v ∈ S ↔ ix.pos.has (o, v) = true

/-- No count exceeds `n`, and every slot below a count is in use.  Unlike
`Enumerates` this survives a count that has been reset. -/
def Compact (ix : Index ω α) (n : Nat) : Prop :=
  ∀ o, ix.size o ≤ n ∧ ∀ i, i < ix.size o → ix.idx.has (o, i) = true

/-- Two indexes hold the same entries for owner `o`. -/
structure AgreeAt (ix ix' : Index ω α) (o : ω) : Prop where
  count : ix'.count.get o = ix.count.get o
  idx : ∀ i, ix'.idx.get (o, i) = ix.idx.get (o, i)
  pos : ∀ v, ix'.pos.get (o, v) = ix.pos.get (o, v)

theorem AgreeAt.refl (ix : Index ω α) (o : ω) : AgreeAt ix ix o :=
  ⟨rfl, fun _ => rfl, fun _ => rfl⟩

theorem AgreeAt.size_eq {ix ix' : Index ω α} {o : ω} (h : AgreeAt ix ix' o) :
    ix'.size o = ix.size o := by
  rw [size, size, h.count]

namespace Enumerates

variable {ix ix' : Index ω α} {o : ω} {S : Set α}

theorem congr (h : Enumerates ix o S) (hag : AgreeAt ix ix' o) : Enumerates ix' o S where
  present_iff i := by rw [hag.size_eq, hag.idx i]; exact h.present_iff i
  inverse i v := by rw [hag.idx i, hag.pos v]; exact h.inverse i v
  mem_iff v := by rw [Store.has_eq, hag.pos v]; exact h.mem_iff v

/-- Only the count, the slots and the positions of the owner matter, and a count
only through the size it gives. -/
theorem of_gets (h : Enumerates ix o S) (hsize : ix'.size o = ix.size o)
    (hidx : ∀ i, ix'.idx.get (o, i) = ix.idx.get (o, i))
    (hpos : ∀ v, ix'.pos.get (o, v) = ix.pos.get (o, v)) : Enumerates ix' o S where
  present_iff i := by rw [hsize, hidx i]; exact h.present_iff i
  inverse i v := by rw [hidx i, hpos v]; exact h.inverse i v
  mem_iff v := by rw [Store.has_eq, hpos v]; exact h.mem_iff v

theorem position_lt (h : Enumerates ix o S) {v : α} {p : Nat}
    (hp : ix.pos.get (o, v) = some p) : p < ix.size o :=
  (h.present_iff p).mp ⟨v, (h.inverse p v).mpr hp⟩

theorem mem_of_slot (h : Enumerates ix o S) {v : α} {p : Nat}
    (hp : ix.idx.get (o, p) = some v) : v ∈ S :=
  (h.mem_iff v).mpr (Store.has_of_get ((h.inverse p v).mp hp))

theorem exists_slot (h : Enumerates ix o S) {v : α} (hv : v ∈ S) :
    ∃ p, p < ix.size o ∧ ix.idx.get (o, p) = some v := by
  obtain ⟨p, hp⟩ := Store.has_iff_exists.mp ((h.mem_iff v).mp hv)
  exact ⟨p, h.position_lt hp, (h.inverse p v).mpr hp⟩

theorem empty (o : ω) : Enumerates (Index.empty : Index ω α) o ∅ where
  present_iff i := by simp [Index.empty, size]
  inverse i v := by simp [Index.empty]
  mem_iff v := by simp [Index.empty]

end Enumerates

theorem mem_slice_mem {ix : Index ω α} {o : ω} {S : Set α} (h : Enumerates ix o S) {v : α}
    {start len : Nat} (hv : v ∈ ix.slice o start len) : v ∈ S := by
  rw [slice, List.mem_filterMap] at hv
  obtain ⟨p, -, hp⟩ := hv
  exact h.mem_of_slot hp

theorem slice_add (ix : Index ω α) (o : ω) (start m n : Nat) :
    ix.slice o start (m + n) = ix.slice o start m ++ ix.slice o (start + m) n := by
  rw [slice, ← List.range'_append_1, List.filterMap_append]
  rfl

/-- The list of an owner: what the slots in use hold, in order. -/
def entries (ix : Index ω α) (o : ω) : List α := ix.slice o 0 (ix.size o)

namespace Enumerates

variable {ix : Index ω α} {o : ω} {S : Set α}

theorem length_slice (h : Enumerates ix o S) {start len : Nat} (hle : start + len ≤ ix.size o) :
    (ix.slice o start len).length = len := by
  induction len generalizing start with
  | zero => rfl
  | succ n ih =>
    obtain ⟨v, hv⟩ := (h.present_iff start).mpr (by omega)
    rw [slice_succ, hv]
    show (ix.slice o (start + 1) n).length + 1 = n + 1
    rw [ih (by omega)]

theorem length_entries (h : Enumerates ix o S) : (ix.entries o).length = ix.size o :=
  h.length_slice (by omega)

/-- A slice that stops at the end of the list is a page of it. -/
theorem slice_eq (h : Enumerates ix o S) (offset limit : Nat) :
    ix.slice o offset (min (offset + limit) (ix.size o) - offset) =
      ((ix.entries o).drop offset).take limit := by
  by_cases hle : ix.size o ≤ offset
  · have hzero : min (offset + limit) (ix.size o) - offset = 0 := by omega
    rw [hzero, List.drop_of_length_le (by rw [h.length_entries]; exact hle), List.take_nil]
    rfl
  · generalize hlen : min (offset + limit) (ix.size o) - offset = len
    have hsplit : ix.entries o = ix.slice o 0 offset ++
        (ix.slice o offset len ++ ix.slice o (offset + len) (ix.size o - (offset + len))) := by
      have hsize : ix.size o = offset + (len + (ix.size o - (offset + len))) := by omega
      have hfront := slice_add ix o 0 offset (len + (ix.size o - (offset + len)))
      rw [← hsize, Nat.zero_add, slice_add ix o offset len] at hfront
      exact hfront
    have hfront : (ix.slice o 0 offset).length = offset := h.length_slice (by omega)
    have hmid : (ix.slice o offset len).length = len := h.length_slice (by omega)
    rw [hsplit, List.drop_left' hfront]
    by_cases hfull : len = limit
    · rw [List.take_left' (by omega)]
    · have hrest : ix.size o - (offset + len) = 0 := by omega
      rw [hrest, slice_zero, List.append_nil, List.take_of_length_le (by omega)]

/-- The entries stand in the order of their slots. -/
theorem getElem?_entries (h : Enumerates ix o S) (i : Nat) :
    (ix.entries o)[i]? = ix.idx.get (o, i) := by
  by_cases hi : i < ix.size o
  · obtain ⟨v, hv⟩ := (h.present_iff i).mpr hi
    have hone := h.slice_eq i 1
    have hlen : min (i + 1) (ix.size o) - i = 1 := by omega
    rw [hlen, slice_succ, hv, slice_zero] at hone
    have hhead := congrArg List.head? hone
    rw [List.head?_take, List.head?_drop, if_neg (by decide)] at hhead
    rw [hv]
    exact hhead.symm
  · have hnone : ix.idx.get (o, i) = none := by
      cases hget : ix.idx.get (o, i) with
      | none => rfl
      | some v => exact absurd ((h.present_iff i).mp ⟨v, hget⟩) hi
    rw [hnone, List.getElem?_eq_none_iff, h.length_entries]
    omega

theorem nodup_entries (h : Enumerates ix o S) : (ix.entries o).Nodup := by
  rw [List.nodup_iff_getElem?_ne_getElem?]
  intro i j hij hj heq
  rw [h.length_entries] at hj
  obtain ⟨v, hv⟩ := (h.present_iff j).mpr hj
  rw [h.getElem?_entries, h.getElem?_entries, hv] at heq
  have hi := (h.inverse i v).mp heq
  rw [(h.inverse j v).mp hv, Option.some.injEq] at hi
  omega

theorem mem_entries_iff (h : Enumerates ix o S) (v : α) : v ∈ ix.entries o ↔ v ∈ S := by
  constructor
  · intro hv
    exact mem_slice_mem h hv
  · intro hv
    obtain ⟨p, -, hp⟩ := h.exists_slot hv
    exact List.mem_iff_getElem?.mpr ⟨p, (h.getElem?_entries p).trans hp⟩

end Enumerates

theorem Compact.empty (n : Nat) : Compact (Index.empty : Index ω α) n := by
  intro o
  have hzero : (Index.empty : Index ω α).size o = 0 := rfl
  rw [hzero]
  exact ⟨Nat.zero_le n, nofun⟩

/-- A smaller index over the same slots is compact too. -/
theorem Compact.of_le {ix ix' : Index ω α} {n : Nat} (h : ix.Compact n)
    (hle : ∀ o, ix'.size o ≤ ix.size o ∧
      ∀ i, i < ix'.size o → ix'.idx.get (o, i) = ix.idx.get (o, i)) : ix'.Compact n := by
  intro o
  obtain ⟨hsize, hget⟩ := hle o
  refine ⟨hsize.trans (h o).1, fun i hi => ?_⟩
  rw [Store.has_eq, hget i hi]
  exact (h o).2 i (hi.trans_le hsize)

variable [DecidableEq ω] [DecidableEq α]

omit [DecidableEq α] in
/-- Writing a count of zero down again changes nothing. -/
theorem reset_eq {ix : Index ω α} {o : ω} (h : ix.count.get o = some 0) :
    { ix with count := ix.count.set o 0 } = ix := by
  rw [Store.set_eq_self_iff.mpr h]

/-- Add `v` in the next free slot of `o`. -/
def append (ix : Index ω α) (o : ω) (v : α) : Index ω α where
  count := ix.count.set o (ix.size o + 1)
  idx := ix.idx.set (o, ix.size o) v
  pos := ix.pos.set (o, v) (ix.size o)

/-- The counts after slot `last` of `o` has been given up: an empty index keeps
no count. -/
def shrink (count : Store ω Nat) (o : ω) (last : Nat) : Store ω Nat :=
  if last = 0 then count.remove o else count.set o last

/-- Remove `v` from the slots of `o`, moving the last value into its slot. -/
def swapRemove (ix : Index ω α) (o : ω) (v : α) : Except SwapError (Index ω α) :=
  match ix.pos.get (o, v) with
  | none => .error .positionMissing
  | some p =>
    if ix.size o = 0 then .ok ix
    else
      let last := ix.size o - 1
      if p ≠ last then
        match ix.idx.get (o, last) with
        | none => .error .entryMissing
        | some moved =>
          .ok { count := shrink ix.count o last
                idx := (ix.idx.set (o, p) moved).remove (o, last)
                pos := (ix.pos.set (o, moved) p).remove (o, v) }
      else
        .ok { count := shrink ix.count o last
              idx := ix.idx.remove (o, last)
              pos := ix.pos.remove (o, v) }

theorem append_size (ix : Index ω α) (o : ω) (v : α) :
    (ix.append o v).size o = ix.size o + 1 := by
  simp [append, size]

theorem append_agreeAt {ix : Index ω α} {o o' : ω} (h : o' ≠ o) (v : α) :
    AgreeAt ix (ix.append o v) o' where
  count := Store.get_set_of_ne h _
  idx i := Store.get_set_of_ne (by simp [h]) _
  pos w := Store.get_set_of_ne (by simp [h]) _

theorem get_shrink (count : Store ω Nat) (o : ω) (last : Nat) :
    ((shrink count o last).get o).getD 0 = last := by
  rw [shrink]
  split
  · rename_i h; simp [h]
  · simp

theorem get_shrink_of_ne {count : Store ω Nat} {o o' : ω} (h : o' ≠ o) (last : Nat) :
    (shrink count o last).get o' = count.get o' := by
  rw [shrink]
  split
  · exact Store.get_remove_of_ne h
  · exact Store.get_set_of_ne h _

theorem swapRemove_of_last {ix : Index ω α} {o : ω} {v : α} {last : Nat}
    (hp : ix.pos.get (o, v) = some last) (hsize : ix.size o = last + 1) :
    ix.swapRemove o v =
      .ok { count := shrink ix.count o last
            idx := ix.idx.remove (o, last)
            pos := ix.pos.remove (o, v) } := by
  have hnz : ix.size o ≠ 0 := by omega
  have hpred : ix.size o - 1 = last := by omega
  rw [swapRemove, hp]
  simp only [hnz, hpred, if_false, ne_eq, not_true_eq_false]

theorem swapRemove_of_ne_last {ix : Index ω α} {o : ω} {v moved : α} {p last : Nat}
    (hp : ix.pos.get (o, v) = some p) (hsize : ix.size o = last + 1) (hne : p ≠ last)
    (hmoved : ix.idx.get (o, last) = some moved) :
    ix.swapRemove o v =
      .ok { count := shrink ix.count o last
            idx := (ix.idx.set (o, p) moved).remove (o, last)
            pos := (ix.pos.set (o, moved) p).remove (o, v) } := by
  have hnz : ix.size o ≠ 0 := by omega
  have hpred : ix.size o - 1 = last := by omega
  rw [swapRemove, hp]
  simp only [hnz, hpred, hne, hmoved, if_false, if_true, ne_eq, not_false_eq_true]

/-- Everything a swap-remove can return: the index itself when it counts no
slot, or the last value moved into the slot of the removed one. -/
theorem swapRemove_cases {ix ix' : Index ω α} {o : ω} {v : α} (h : ix.swapRemove o v = .ok ix') :
    (ix.size o = 0 ∧ ix' = ix) ∨
    ∃ p last, ix.pos.get (o, v) = some p ∧ ix.size o = last + 1 ∧
      ix'.count = shrink ix.count o last ∧
      ((p ≠ last ∧ ∃ moved, ix.idx.get (o, last) = some moved ∧
          ix'.idx = (ix.idx.set (o, p) moved).remove (o, last) ∧
          ix'.pos = (ix.pos.set (o, moved) p).remove (o, v)) ∨
        (p = last ∧ ix'.idx = ix.idx.remove (o, last) ∧ ix'.pos = ix.pos.remove (o, v))) := by
  rw [swapRemove] at h
  split at h
  · cases h
  · rename_i p hp
    split at h
    · rename_i hzero
      cases h
      exact Or.inl ⟨hzero, rfl⟩
    · rename_i hne
      refine Or.inr ⟨p, ix.size o - 1, hp, by omega, ?_⟩
      dsimp only at h
      split at h
      · rename_i hlast
        split at h
        · cases h
        · rename_i moved hmoved
          cases h
          exact ⟨rfl, Or.inl ⟨hlast, moved, hmoved, rfl, rfl⟩⟩
      · rename_i hlast
        cases h
        exact ⟨rfl, Or.inr ⟨not_not.mp hlast, rfl, rfl⟩⟩

theorem swapRemove_agreeAt {ix ix' : Index ω α} {o o' : ω} {v : α} (hne : o' ≠ o)
    (h : ix.swapRemove o v = .ok ix') : AgreeAt ix ix' o' := by
  have hidx : ∀ k : Nat, ∀ i : Nat, (o', i) ≠ (o, k) := fun k i e => hne (Prod.mk.inj e).1
  have hpos : ∀ x y : α, (o', y) ≠ (o, x) := fun x y e => hne (Prod.mk.inj e).1
  rcases swapRemove_cases h with ⟨-, rfl⟩ | ⟨p, last, -, -, hcount, hcase⟩
  · exact AgreeAt.refl _ o'
  · refine ⟨by rw [hcount, get_shrink_of_ne hne], ?_, ?_⟩
    · intro i
      rcases hcase with ⟨-, moved, -, hi, -⟩ | ⟨-, hi, -⟩
      · rw [hi, Store.get_remove_of_ne (hidx _ i), Store.get_set_of_ne (hidx _ i)]
      · rw [hi, Store.get_remove_of_ne (hidx _ i)]
    · intro w
      rcases hcase with ⟨-, moved, -, -, hq⟩ | ⟨-, -, hq⟩
      · rw [hq, Store.get_remove_of_ne (hpos _ w), Store.get_set_of_ne (hpos _ w)]
      · rw [hq, Store.get_remove_of_ne (hpos _ w)]

namespace Enumerates

variable {ix ix' : Index ω α} {o : ω} {S : Set α}

/-- Appending a value that is not listed yet adds it to the set. -/
theorem append (h : Enumerates ix o S) {v : α} (hv : v ∉ S) :
    Enumerates (ix.append o v) o (insert v S) where
  present_iff i := by
    rw [append_size]
    by_cases hi : i = ix.size o
    · simp [Index.append, hi]
    · have hget : (ix.append o v).idx.get (o, i) = ix.idx.get (o, i) :=
        Store.get_set_of_ne (by simp [hi]) _
      rw [hget, h.present_iff i]
      omega
  inverse i x := by
    have hfree : ix.pos.get (o, v) = none := by
      rw [← Store.has_eq_false_iff, ← Bool.not_eq_true, ← h.mem_iff v]
      exact hv
    by_cases hi : i = ix.size o
    · by_cases hx : x = v
      · simp [Index.append, hi, hx]
      · have hlt : ix.pos.get (o, x) ≠ some i := fun e => by
          have := h.position_lt e
          omega
        have hget : (ix.append o v).pos.get (o, x) = ix.pos.get (o, x) :=
          Store.get_set_of_ne (by simp [hx]) _
        rw [hget]
        simp [Index.append, hi, Ne.symm hx]
        exact hi ▸ hlt
    · have hget : (ix.append o v).idx.get (o, i) = ix.idx.get (o, i) :=
        Store.get_set_of_ne (by simp [hi]) _
      rw [hget, h.inverse i x]
      by_cases hx : x = v
      · subst hx
        rw [hfree]
        simp [Index.append, Ne.symm hi]
      · have hpos : (ix.append o v).pos.get (o, x) = ix.pos.get (o, x) :=
          Store.get_set_of_ne (by simp [hx]) _
        rw [hpos]
  mem_iff x := by
    rw [Set.mem_insert_iff, h.mem_iff x]
    simp only [Index.append, Store.has_set, Prod.mk.injEq, true_and]
    by_cases hx : x = v
    · simp [hx]
    · simp [hx]

omit [DecidableEq ω] in
/-- Moving the value of the last slot into the slot of `v` and giving the last
slot up removes `v` from the set. -/
theorem move_last (h : Enumerates ix o S) {v moved : α} {p last : Nat}
    (hp : ix.pos.get (o, v) = some p) (hlast : ix.size o = last + 1)
    (hmoved : ix.idx.get (o, last) = some moved) (hsize : ix'.size o = last)
    (hidx : ∀ i, ix'.idx.get (o, i) =
      if i = last then none else if i = p then some moved else ix.idx.get (o, i))
    (hpos : ∀ x, ix'.pos.get (o, x) =
      if x = v then none else if x = moved then some p else ix.pos.get (o, x)) :
    Enumerates ix' o (S \ {v}) := by
  have hplt := h.position_lt hp
  have hslot : ix.idx.get (o, p) = some v := (h.inverse p v).mpr hp
  have hmpos : ix.pos.get (o, moved) = some last := (h.inverse last moved).mp hmoved
  refine ⟨fun i => ?_, fun i x => ?_, fun x => ?_⟩
  · rw [hsize, hidx i]
    by_cases hi : i = last
    · simp [hi]
    · by_cases hip : i = p
      · rw [if_neg hi, if_pos hip]
        have : p < last := by omega
        simp [hip, this]
      · rw [if_neg hi, if_neg hip, h.present_iff i]
        omega
  · rw [hidx i, hpos x]
    by_cases hi : i = last
    · rw [if_pos hi]
      by_cases hxv : x = v
      · simp [hxv]
      · rw [if_neg hxv]
        by_cases hxm : x = moved
        · -- The moved value sat in the last slot, so its new slot `p` is another one.
          have hne : p ≠ last := by
            intro e
            rw [e] at hslot
            rw [hslot] at hmoved
            exact hxv (hxm.trans (Option.some.inj hmoved).symm)
          simp [hxm, hi, hne]
        · rw [if_neg hxm, ← h.inverse i x, hi, hmoved]
          simp [Ne.symm hxm]
    · rw [if_neg hi]
      by_cases hip : i = p
      · rw [if_pos hip]
        by_cases hxv : x = v
        · rw [if_pos hxv]
          have hne : moved ≠ v := by
            intro e
            rw [e, hp] at hmpos
            exact hi (hip.trans (Option.some.inj hmpos))
          simp [hxv, hne]
        · rw [if_neg hxv]
          by_cases hxm : x = moved
          · simp [hxm, hip]
          · rw [if_neg hxm, ← h.inverse i x, hip, hslot]
            simp [Ne.symm hxm, Ne.symm hxv]
      · rw [if_neg hip, h.inverse i x]
        by_cases hxv : x = v
        · rw [if_pos hxv, hxv, hp]
          simp [Ne.symm hip]
        · rw [if_neg hxv]
          by_cases hxm : x = moved
          · rw [if_pos hxm, hxm, hmpos]
            simp [Ne.symm hi, Ne.symm hip]
          · rw [if_neg hxm]
  · rw [Set.mem_sdiff, Set.mem_singleton_iff, h.mem_iff x, Store.has_eq, Store.has_eq, hpos x]
    by_cases hxv : x = v
    · simp [hxv]
    · by_cases hxm : x = moved
      · simp [hxm, hmpos, hxm ▸ hxv]
      · simp [hxv, hxm]

/-- A listed value can always be swap-removed, and the result lists the rest. -/
theorem swapRemove (h : Enumerates ix o S) {v : α} (hv : v ∈ S) :
    ∃ ix', ix.swapRemove o v = .ok ix' ∧ Enumerates ix' o (S \ {v}) := by
  obtain ⟨p, hp⟩ := Store.has_iff_exists.mp ((h.mem_iff v).mp hv)
  have hplt := h.position_lt hp
  have hslot : ix.idx.get (o, p) = some v := (h.inverse p v).mpr hp
  obtain ⟨last, hlast⟩ : ∃ last, ix.size o = last + 1 := ⟨ix.size o - 1, by omega⟩
  obtain ⟨moved, hmoved⟩ := (h.present_iff last).mpr (by omega)
  by_cases hpl : p = last
  · have hvm : moved = v := by
      rw [hpl, hmoved] at hslot
      exact Option.some.inj hslot
    refine ⟨_, swapRemove_of_last (hpl ▸ hp) hlast, ?_⟩
    refine h.move_last hp hlast hmoved (get_shrink ix.count o last) (fun i => ?_) (fun x => ?_)
    · by_cases hi : i = last
      · simp [hi]
      · simp [Store.get_remove, hi, hpl]
    · by_cases hx : x = v
      · simp [hx]
      · simp [Store.get_remove, hx, hvm]
  · refine ⟨_, swapRemove_of_ne_last hp hlast hpl hmoved, ?_⟩
    refine h.move_last hp hlast hmoved (get_shrink ix.count o last) (fun i => ?_) (fun x => ?_)
    · by_cases hi : i = last
      · simp [hi]
      · simp [Store.get_remove, Store.get_set, hi]
    · by_cases hx : x = v
      · simp [hx]
      · simp [Store.get_remove, Store.get_set, hx]

end Enumerates

theorem Compact.append {ix : Index ω α} {n : Nat} (h : ix.Compact n) {o : ω} (v : α)
    (hroom : ix.size o + 1 ≤ n) : (ix.append o v).Compact n := by
  intro o'
  by_cases ho : o' = o
  · subst ho
    rw [append_size]
    refine ⟨hroom, fun i hi => ?_⟩
    rw [Index.append, Store.has_set]
    by_cases hii : i = ix.size o'
    · simp [hii]
    · simp only [Prod.mk.injEq, hii, and_false, if_false]
      exact (h o').2 i (by omega)
  · have hag : AgreeAt ix (ix.append o v) o' := append_agreeAt ho v
    rw [hag.size_eq]
    refine ⟨(h o').1, fun i hi => ?_⟩
    rw [Store.has_eq, hag.idx i]
    exact (h o').2 i hi

/-- A swap-remove keeps a compact index compact, whatever its positions say. -/
theorem Compact.swapRemove {ix ix' : Index ω α} {n : Nat} (h : ix.Compact n) {o : ω} {v : α}
    (hr : ix.swapRemove o v = .ok ix') : ix'.Compact n := by
  intro o'
  by_cases ho : o' = o
  · subst ho
    rcases swapRemove_cases hr with ⟨-, rfl⟩ | ⟨p, last, -, hsize, hcount, hcase⟩
    · exact h o'
    · have hlast : ix'.size o' = last := by rw [size, hcount, get_shrink]
      have hle := (h o').1
      refine ⟨by omega, fun i hi => ?_⟩
      have hil : i ≠ last := by omega
      have hold := (h o').2 i (by omega)
      rcases hcase with ⟨-, moved, -, hidx, -⟩ | ⟨-, hidx, -⟩
      · rw [hidx, Store.has_remove, Store.has_set]
        by_cases hip : i = p
        · simp [hip, hip ▸ hil]
        · simp only [Prod.mk.injEq, hil, hip, and_false, if_false]
          exact hold
      · rw [hidx, Store.has_remove]
        simp only [Prod.mk.injEq, hil, and_false, if_false]
        exact hold
  · have hag := swapRemove_agreeAt ho hr
    rw [hag.size_eq]
    refine ⟨(h o').1, fun i hi => ?_⟩
    rw [Store.has_eq, hag.idx i]
    exact (h o').2 i hi

omit [DecidableEq α] in
/-- So does giving up the last slot by hand. -/
theorem Compact.drop_last {ix ix' : Index ω α} {n : Nat} (h : ix.Compact n) {o : ω} {last : Nat}
    (hsize : ix.size o = last + 1) (hsize' : ix'.size o = last)
    (hidx : ix'.idx = ix.idx.remove (o, last))
    (hcount : ∀ a, a ≠ o → ix'.count.get a = ix.count.get a) : ix'.Compact n := by
  refine h.of_le fun a => ?_
  by_cases ha : a = o
  · subst ha
    refine ⟨by omega, fun i hi => ?_⟩
    have hne : i ≠ last := by omega
    rw [hidx, Store.get_remove_of_ne (by simp [hne])]
  · have hs : ix'.size a = ix.size a := by rw [size, size, hcount a ha]
    refine ⟨hs.le, fun i _ => ?_⟩
    rw [hidx, Store.get_remove_of_ne (by simp [ha])]

/-! ## Owners and what they list -/

/-- Every slot in use holds a value that stands in `R` to the owner.  Neither the
counts nor the positions matter. -/
def Within (ix : Index ω α) (R : ω → α → Prop) : Prop :=
  ∀ o i v, ix.idx.get (o, i) = some v → R o v

namespace Within

variable {ix ix' : Index ω α} {R : ω → α → Prop} {o : ω} {v : α}

omit [DecidableEq ω] [DecidableEq α] in
theorem empty : (Index.empty : Index ω α).Within R := by
  intro o i v h
  cases h

omit [DecidableEq α] in
theorem of_remove (h : ix.Within R) {k : ω × Nat} (hidx : ix'.idx = ix.idx.remove k) :
    ix'.Within R := by
  intro o i v hv
  rw [hidx] at hv
  exact h o i v (Store.get_of_get_remove hv)

theorem append (h : ix.Within R) (hv : R o v) : (ix.append o v).Within R := by
  intro o' i x hx
  rw [Index.append, Store.get_set] at hx
  split at hx
  · rename_i hk
    obtain ⟨rfl, rfl⟩ := Prod.mk.inj hk
    exact Option.some.inj hx ▸ hv
  · exact h o' i x hx

/-- A swap-remove only moves a value within the slots of its owner. -/
theorem swapRemove (h : ix.Within R) (hr : ix.swapRemove o v = .ok ix') : ix'.Within R := by
  rcases swapRemove_cases hr with ⟨-, rfl⟩ | ⟨p, last, -, -, -, hcase⟩
  · exact h
  · rcases hcase with ⟨-, moved, hmoved, hidx, -⟩ | ⟨-, hidx, -⟩
    · intro o' i x hx
      rw [hidx] at hx
      replace hx := Store.get_of_get_remove hx
      rw [Store.get_set] at hx
      split at hx
      · rename_i hk
        obtain ⟨rfl, -⟩ := Prod.mk.inj hk
        exact Option.some.inj hx ▸ h o' last moved hmoved
      · exact h o' i x hx
    · exact h.of_remove hidx

end Within

/-! ## What is listed is right

An index whose counts have been reset no longer lists everything, but the slots
below the counts can still be trusted: each holds a value that belongs there, and
the position of the value is that slot. -/

def Sound (ix : Index ω α) (R : ω → α → Prop) : Prop :=
  ∀ o i v, i < ix.size o → ix.idx.get (o, i) = some v → R o v ∧ ix.pos.get (o, v) = some i

namespace Sound

variable {ix ix' : Index ω α} {R R' : ω → α → Prop} {o : ω} {v : α}

omit [DecidableEq ω] [DecidableEq α] in
theorem empty : (Index.empty : Index ω α).Sound R := by
  intro o i v _ h
  cases h

omit [DecidableEq ω] [DecidableEq α] in
/-- An index is sound when what it lists is listed by a sound one, at the same
position, and belongs there. -/
theorem restrict (h : ix.Sound R)
    (hsub : ∀ o i v, i < ix'.size o → ix'.idx.get (o, i) = some v → i < ix.size o ∧
      ix.idx.get (o, i) = some v ∧ (R o v → R' o v ∧ ix'.pos.get (o, v) = ix.pos.get (o, v))) :
    ix'.Sound R' := by
  intro o i v hi hv
  obtain ⟨hi, hv, hR⟩ := hsub o i v hi hv
  obtain ⟨hRv, hpos⟩ := h o i v hi hv
  obtain ⟨hRv', hsame⟩ := hR hRv
  exact ⟨hRv', hsame.trans hpos⟩

omit [DecidableEq ω] [DecidableEq α] in
/-- The counts may be lowered. -/
theorem of_le (h : ix.Sound R) (hsize : ∀ o, ix'.size o ≤ ix.size o) (hidx : ix'.idx = ix.idx)
    (hpos : ix'.pos = ix.pos) : ix'.Sound R := by
  refine h.restrict fun o i v hi hv => ⟨hi.trans_le (hsize o), ?_, fun hR => ⟨hR, ?_⟩⟩
  · rw [← hidx]
    exact hv
  · rw [hpos]

theorem append (h : ix.Sound R) (hnew : ¬R o v) :
    (ix.append o v).Sound fun a w => R a w ∨ (a = o ∧ w = v) := by
  intro a i w hi hw
  by_cases ha : a = o
  · subst ha
    by_cases hend : i = ix.size a
    · subst hend
      have hv : (ix.append a v).idx.get (a, ix.size a) = some v := Store.get_set_self _ _ _
      rw [hv, Option.some.injEq] at hw
      subst hw
      exact ⟨Or.inr ⟨rfl, rfl⟩, Store.get_set_self _ _ _⟩
    · rw [append_size] at hi
      have hget : (ix.append a v).idx.get (a, i) = ix.idx.get (a, i) :=
        Store.get_set_of_ne (by simp [hend]) _
      rw [hget] at hw
      obtain ⟨hR, hpos⟩ := h a i w (by omega) hw
      have hne : w ≠ v := fun e => hnew (e ▸ hR)
      refine ⟨Or.inl hR, ?_⟩
      have hsame : (ix.append a v).pos.get (a, w) = ix.pos.get (a, w) :=
        Store.get_set_of_ne (by simp [hne]) _
      rw [hsame]
      exact hpos
  · have hag : AgreeAt ix (ix.append o v) a := append_agreeAt ha v
    rw [hag.size_eq] at hi
    rw [hag.idx] at hw
    obtain ⟨hR, hpos⟩ := h a i w hi hw
    rw [hag.pos]
    exact ⟨Or.inl hR, hpos⟩

/-- Wherever the position of `v` points, a swap-remove leaves a sound index without
`v`: if `v` is listed at all, its position is its slot. -/
theorem swapRemove (h : ix.Sound R) (hr : ix.swapRemove o v = .ok ix') :
    ix'.Sound fun a w => R a w ∧ ¬(a = o ∧ w = v) := by
  intro a i w hi hw
  by_cases ha : a = o
  · subst ha
    rcases swapRemove_cases hr with ⟨hzero, rfl⟩ | ⟨p, last, hp, hsize, hcount, hcase⟩
    · omega
    · have hlast : ix'.size a = last := by rw [size, hcount, get_shrink]
      rw [hlast] at hi
      have hil : (a, i) ≠ (a, last) := by simp; omega
      rcases hcase with ⟨hne, moved, hmoved, hidx, hpos⟩ | ⟨rfl, hidx, hpos⟩
      · obtain ⟨hRm, hpm⟩ := h a last moved (by omega) hmoved
        have hmv : moved ≠ v := by
          intro e
          rw [e, hp, Option.some.injEq] at hpm
          exact hne hpm
        rw [hidx, Store.get_remove_of_ne hil, Store.get_set] at hw
        rw [hpos]
        split at hw
        · rename_i hip
          obtain rfl := Option.some.inj hw
          obtain rfl : i = p := (Prod.mk.inj hip).2
          refine ⟨⟨hRm, fun e => hmv e.2⟩, ?_⟩
          rw [Store.get_remove_of_ne (by simp [hmv]), Store.get_set_self]
        · rename_i hip
          obtain ⟨hRw, hpw⟩ := h a i w (by omega) hw
          have hwv : w ≠ v := by
            intro e
            rw [e, hp, Option.some.injEq] at hpw
            exact hip (by rw [hpw])
          have hwm : w ≠ moved := by
            intro e
            rw [e, hpm, Option.some.injEq] at hpw
            omega
          refine ⟨⟨hRw, fun e => hwv e.2⟩, ?_⟩
          rw [Store.get_remove_of_ne (by simp [hwv]), Store.get_set_of_ne (by simp [hwm])]
          exact hpw
      · rw [hidx, Store.get_remove_of_ne hil] at hw
        obtain ⟨hRw, hpw⟩ := h a i w (by omega) hw
        have hwv : w ≠ v := by
          intro e
          rw [e, hp, Option.some.injEq] at hpw
          omega
        refine ⟨⟨hRw, fun e => hwv e.2⟩, ?_⟩
        rw [hpos, Store.get_remove_of_ne (by simp [hwv])]
        exact hpw
  · have hag := swapRemove_agreeAt ha hr
    rw [hag.size_eq] at hi
    rw [hag.idx] at hw
    obtain ⟨hR, hpos⟩ := h a i w hi hw
    rw [hag.pos]
    exact ⟨⟨hR, fun e => ha e.1⟩, hpos⟩

/-- Giving up the last slot by hand removes the value in it. -/
theorem drop_last (h : ix.Sound R) {last : Nat} (hsize : ix.size o = last + 1)
    (hlast : ix.idx.get (o, last) = some v) (hsize' : ix'.size o = last)
    (hidx : ix'.idx = ix.idx.remove (o, last)) (hpos : ix'.pos = ix.pos.remove (o, v))
    (hcount : ∀ a, a ≠ o → ix'.count.get a = ix.count.get a) :
    ix'.Sound fun a w => R a w ∧ ¬(a = o ∧ w = v) := by
  intro a i w hi hw
  rw [hidx] at hw
  have hold := Store.get_of_get_remove hw
  have hsub : i < ix.size a := by
    by_cases ha : a = o
    · rw [ha] at hi ⊢
      omega
    · rw [size, hcount a ha] at hi
      exact hi
  obtain ⟨hR, hp⟩ := h a i w hsub hold
  have hne : ¬(a = o ∧ w = v) := by
    rintro ⟨rfl, rfl⟩
    have hend := (h a last w (by omega) hlast).2
    rw [hp, Option.some.injEq] at hend
    omega
  refine ⟨⟨hR, hne⟩, ?_⟩
  rw [hpos, Store.get_remove_of_ne (by simpa using hne)]
  exact hp

omit [DecidableEq ω] [DecidableEq α] in
theorem congr (h : ix.Sound R) (hR : ∀ o v, R' o v ↔ R o v) : ix.Sound R' := fun o i v hi hv =>
  ⟨(hR o v).mpr (h o i v hi hv).1, (h o i v hi hv).2⟩

end Sound

/-! ## Listing a relation

An index lists a relation when it enumerates, for every owner, what the owner is
related to. -/

def Lists (ix : Index ω α) (R : ω → α → Prop) : Prop := ∀ o, ix.Enumerates o {v | R o v}

namespace Lists

variable {ix ix' : Index ω α} {R R' : ω → α → Prop} {o : ω} {v : α}

omit [DecidableEq ω] [DecidableEq α] in
theorem congr (h : ix.Lists R) (hR : ∀ o v, R' o v ↔ R o v) : ix.Lists R' := by
  have : R' = R := funext fun o => funext fun v => propext (hR o v)
  exact this ▸ h

omit [DecidableEq α] in
/-- A relation that has changed at one owner only needs that owner looked at. -/
theorem at_owner (h : ix.Lists R) (hat : ix'.Enumerates o {w | R' o w})
    (hag : ∀ a, a ≠ o → AgreeAt ix ix' a) (hR : ∀ a, a ≠ o → ∀ w, R' a w ↔ R a w) :
    ix'.Lists R' := by
  intro a
  by_cases ha : a = o
  · subst ha
    exact hat
  · have hset : {w | R' a w} = {w | R a w} := Set.ext fun w => hR a ha w
    rw [hset]
    exact (h a).congr (hag a ha)

theorem append (h : ix.Lists R) (hnew : ¬R o v) :
    (ix.append o v).Lists fun a w => R a w ∨ (a = o ∧ w = v) := by
  refine h.at_owner ?_ (fun a ha => append_agreeAt ha v) (fun a ha w => by simp [ha])
  have hset : {w | R o w ∨ (o = o ∧ w = v)} = insert v {w | R o w} := by
    ext w
    simp [or_comm]
  rw [hset]
  exact (h o).append hnew

theorem swapRemove (h : ix.Lists R) (hR : R o v) :
    ∃ ix', ix.swapRemove o v = .ok ix' ∧ ix'.Lists fun a w => R a w ∧ ¬(a = o ∧ w = v) := by
  obtain ⟨ix', hix', hat⟩ := (h o).swapRemove hR
  refine ⟨ix', hix', h.at_owner ?_ (fun a ha => swapRemove_agreeAt ha hix')
    (fun a ha w => by simp [ha])⟩
  have hset : {w | R o w ∧ ¬(o = o ∧ w = v)} = {w | R o w} \ {v} := by
    ext w
    simp
  rw [hset]
  exact hat

/-- Giving up the last slot by hand removes the value in it. -/
theorem drop_last (h : ix.Lists R) {last : Nat} (hsize : ix.size o = last + 1)
    (hlast : ix.idx.get (o, last) = some v) (hsize' : ix'.size o = last)
    (hidx : ix'.idx = ix.idx.remove (o, last)) (hpos : ix'.pos = ix.pos.remove (o, v))
    (hcount : ∀ a, a ≠ o → ix'.count.get a = ix.count.get a) :
    ix'.Lists fun a w => R a w ∧ ¬(a = o ∧ w = v) := by
  have hp : ix.pos.get (o, v) = some last := ((h o).inverse last v).mp hlast
  refine h.at_owner ?_ (fun a ha => ⟨hcount a ha, fun i => ?_, fun w => ?_⟩)
    (fun a ha w => by simp [ha])
  · have hset : {w | R o w ∧ ¬(o = o ∧ w = v)} = {w | R o w} \ {v} := by
      ext w
      simp
    rw [hset]
    refine (h o).move_last hp hsize hlast hsize' (fun i => ?_) (fun w => ?_)
    · rw [hidx, Store.get_remove]
      by_cases hi : i = last
      · simp [hi]
      · simp [hi]
    · rw [hpos, Store.get_remove]
      by_cases hw : w = v
      · simp [hw]
      · simp [hw]
  · rw [hidx, Store.get_remove_of_ne (by simp [ha])]
  · rw [hpos, Store.get_remove_of_ne (by simp [ha])]

omit [DecidableEq ω] [DecidableEq α] in
/-- Only the size that a count gives matters. -/
theorem of_sizes (h : ix.Lists R) (hsize : ∀ a, ix'.size a = ix.size a) (hidx : ix'.idx = ix.idx)
    (hpos : ix'.pos = ix.pos) : ix'.Lists R := fun a =>
  (h a).of_gets (hsize a) (fun i => by rw [hidx]) (fun w => by rw [hpos])

end Lists

end Index
end Linkora

import Mathlib.Data.List.Infix

/-!
# Cutting at a delimiter

A list is cut where a delimiter stands for the first time, and split at all its places from the
left.  No piece has the delimiter in it.
-/

namespace Linkora
namespace Cut

variable {α : Type} [DecidableEq α]

/-- What stands before the first place of `d`, and what after it. -/
def cut (d : List α) : List α → Option (List α × List α)
  | [] => if d = [] then some ([], []) else none
  | c :: rest =>
    if d.isPrefixOf (c :: rest) = true then some ([], (c :: rest).drop d.length)
    else (cut d rest).map fun x => (c :: x.1, x.2)

/-- The pieces between the places of `d`, or `none` if that many turns do not do. -/
def split (d : List α) : Nat → List α → Option (List (List α))
  | 0, _ => none
  | turns + 1, l =>
    match cut d l with
    | none => some [l]
    | some (piece, rest) => (split d turns rest).map (piece :: ·)

variable {d : List α}

theorem cut_of_start {l : List α} (h : d <+: l) : cut d l = some ([], l.drop d.length) := by
  cases l with
  | nil =>
    obtain rfl := List.prefix_nil.mp h
    rfl
  | cons c rest => rw [cut, if_pos (List.isPrefixOf_iff_prefix.mpr h)]

theorem cut_cons_of_not_start {c : α} {rest : List α} (h : ¬d <+: c :: rest) :
    cut d (c :: rest) = (cut d rest).map fun x => (c :: x.1, x.2) := by
  rw [cut, if_neg fun hp => h (List.isPrefixOf_iff_prefix.mp hp)]

theorem cut_self (rest : List α) : cut d (d ++ rest) = some ([], rest) := by
  rw [cut_of_start (List.prefix_append d rest), List.drop_left]

/-- Nothing is cut off where the delimiter does not begin. -/
theorem cut_append {a rest : List α} (h : ∀ s, s <:+ a → s ≠ [] → ¬d <+: s ++ rest) :
    cut d (a ++ rest) = (cut d rest).map fun x => (a ++ x.1, x.2) := by
  induction a with
  | nil => simp
  | cons c a ih =>
    have hnot : ¬d <+: c :: (a ++ rest) := h (c :: a) List.suffix_rfl (List.cons_ne_nil c a)
    rw [List.cons_append, cut_cons_of_not_start hnot,
      ih fun s hs hne => h s (hs.trans (List.suffix_cons c a)) hne, Option.map_map]
    rfl

theorem eq_append_of_cut {l a rest : List α} (h : cut d l = some (a, rest)) :
    l = a ++ (d ++ rest) := by
  induction l generalizing a with
  | nil =>
    rw [cut] at h
    split at h
    · rename_i hd
      cases h
      rw [hd]
      rfl
    · cases h
  | cons c l ih =>
    rw [cut] at h
    split at h
    · rename_i hstarts
      obtain ⟨tail, htail⟩ := List.isPrefixOf_iff_prefix.mp hstarts
      cases h
      rw [← htail, List.drop_left]
      rfl
    · obtain ⟨x, hx, heq⟩ := Option.map_eq_some_iff.mp h
      cases heq
      rw [ih hx]
      rfl

/-- The piece before the first place does not have the delimiter. -/
theorem not_infix_of_cut (hd : d ≠ []) {l a rest : List α} (h : cut d l = some (a, rest)) :
    ¬d <:+: a := by
  induction l generalizing a with
  | nil => rw [cut, if_neg hd] at h; cases h
  | cons c l ih =>
    by_cases hstarts : d <+: c :: l
    · rw [cut_of_start hstarts] at h
      cases h
      exact fun hinside => hd (List.infix_nil.mp hinside)
    · rw [cut_cons_of_not_start hstarts] at h
      obtain ⟨⟨a', rest'⟩, hx, heq⟩ := Option.map_eq_some_iff.mp h
      cases heq
      intro hinside
      rcases List.infix_cons_iff.mp hinside with hstart | hlater
      · refine hstarts (hstart.trans ?_)
        rw [eq_append_of_cut hx]
        exact ⟨d ++ rest', rfl⟩
      · exact ih hx hlater

theorem not_infix_of_cut_eq_none {l : List α} (h : cut d l = none) : ¬d <:+: l := by
  induction l with
  | nil =>
    intro hinside
    rw [cut, if_pos (List.infix_nil.mp hinside)] at h
    cases h
  | cons c l ih =>
    have hstarts : ¬d <+: c :: l := by
      intro hp
      rw [cut_of_start hp] at h
      cases h
    rw [cut_cons_of_not_start hstarts, Option.map_eq_none_iff] at h
    intro hinside
    rcases List.infix_cons_iff.mp hinside with hstart | hlater
    · exact hstarts hstart
    · exact ih h hlater

omit [DecidableEq α] in
/-- A delimiter without the last element of a piece does not begin in the piece, unless the
piece has it. -/
theorem not_prefix_of_sep {a rest : List α} {x : α} (hx : x ∉ d) (ha : ¬d <:+: a) :
    ∀ s, s <:+ a ++ [x] → s ≠ [] → ¬d <+: s ++ rest := by
  intro s hs hne hstarts
  obtain ⟨s', rfl⟩ : ∃ s', s = s' ++ [x] := by
    obtain ⟨t, ht⟩ := hs
    rcases List.eq_nil_or_concat' s with rfl | ⟨s', y, rfl⟩
    · exact absurd rfl hne
    · rw [← List.append_assoc] at ht
      exact ⟨s', by rw [(List.append_inj' ht rfl).2]⟩
  have hs' : s' <:+ a := by
    obtain ⟨t, ht⟩ := hs
    rw [← List.append_assoc] at ht
    exact ⟨t, (List.append_inj' ht rfl).1⟩
  by_cases hle : d.length ≤ s'.length
  · rw [List.append_assoc] at hstarts
    exact ha ((List.prefix_of_prefix_length_le hstarts (List.prefix_append s' _) hle).isInfix.trans
      hs'.isInfix)
  · have hmem : s' ++ [x] <+: d := by
      refine List.prefix_of_prefix_length_le (List.prefix_append _ rest) hstarts ?_
      rw [List.length_append, List.length_singleton]
      omega
    exact hx (hmem.subset (List.mem_append_right _ List.mem_cons_self))

omit [DecidableEq α] in
/-- A delimiter does not reach over an element that it does not have. -/
theorem infix_of_infix_sep {a b : List α} {x : α} (hx : x ∉ d) (h : d <:+: a ++ x :: b) :
    d <:+: a ∨ d <:+: b := by
  induction a with
  | nil =>
    rcases List.infix_cons_iff.mp h with hstart | hlater
    · cases d with
      | nil => exact .inl List.nil_infix
      | cons y d => exact absurd ((List.cons_prefix_cons.mp hstart).1 ▸ List.mem_cons_self) hx
    · exact .inr hlater
  | cons c a ih =>
    rcases List.infix_cons_iff.mp h with hstart | hlater
    · refine .inl (List.IsPrefix.isInfix (List.prefix_of_prefix_length_le hstart
        (List.prefix_append (c :: a) (x :: b)) ?_))
      by_contra hlong
      have hreach : c :: a ++ [x] <+: d := by
        refine List.prefix_of_prefix_length_le ⟨b, by simp⟩ hstart ?_
        rw [List.length_append, List.length_singleton]
        omega
      exact hx (hreach.subset (List.mem_append_right _ List.mem_cons_self))
    · rcases ih hlater with hin | hin
      · exact .inl (hin.trans (List.suffix_cons c a).isInfix)
      · exact .inr hin

/-- A piece that ends in an element that the delimiter does not have is cut off whole. -/
theorem cut_piece {a rest : List α} {x : α} (hx : x ∉ d) (ha : ¬d <:+: a) :
    cut d (a ++ [x] ++ (d ++ rest)) = some (a ++ [x], rest) := by
  rw [cut_append (not_prefix_of_sep hx ha), cut_self, Option.map_some, List.append_nil]

theorem split_succ_of_cut {l piece rest : List α} (h : cut d l = some (piece, rest))
    (turns : Nat) : split d (turns + 1) l = (split d turns rest).map (piece :: ·) := by
  rw [split, h]

theorem length_lt_of_cut (hd : d ≠ []) {l piece rest : List α}
    (h : cut d l = some (piece, rest)) : rest.length < l.length := by
  have hlength : 0 < d.length := List.length_pos_iff.mpr hd
  rw [eq_append_of_cut h, List.length_append, List.length_append]
  omega

/-- A turn for each element is enough. -/
theorem split_returns (hd : d ≠ []) {turns : Nat} {l : List α} (h : l.length < turns) :
    ∃ pieces, split d turns l = some pieces := by
  induction turns generalizing l with
  | zero => omega
  | succ turns ih =>
    rw [split]
    cases hcut : cut d l with
    | none => exact ⟨_, rfl⟩
    | some found =>
      have hshort := length_lt_of_cut hd hcut
      obtain ⟨pieces, hpieces⟩ := ih (show found.2.length < turns by omega)
      exact ⟨found.1 :: pieces, by simp only [hpieces, Option.map_some]⟩

/-- The pieces stand in the list, and none has the delimiter in it. -/
theorem mem_split (hd : d ≠ []) {turns : Nat} {l : List α} {pieces : List (List α)}
    (h : split d turns l = some pieces) : ∀ p ∈ pieces, p <:+: l ∧ ¬d <:+: p := by
  induction turns generalizing l pieces with
  | zero => cases h
  | succ turns ih =>
    rw [split] at h
    cases hcut : cut d l with
    | none =>
      rw [hcut] at h
      cases h
      intro p hp
      rw [List.mem_singleton.mp hp]
      exact ⟨List.infix_rfl, not_infix_of_cut_eq_none hcut⟩
    | some found =>
      obtain ⟨piece, rest⟩ := found
      rw [hcut] at h
      obtain ⟨later, hlater, rfl⟩ := Option.map_eq_some_iff.mp h
      have hl := eq_append_of_cut hcut
      intro p hp
      rcases List.mem_cons.mp hp with rfl | hp
      · exact ⟨⟨[], d ++ rest, by rw [List.nil_append, ← hl]⟩, not_infix_of_cut hd hcut⟩
      · obtain ⟨hin, hnot⟩ := ih hlater p hp
        refine ⟨hin.trans ?_, hnot⟩
        rw [hl]
        exact ((List.suffix_append d rest).trans (List.suffix_append piece _)).isInfix

end Cut
end Linkora

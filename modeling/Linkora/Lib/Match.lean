import Mathlib.Data.List.Infix
import Linkora.Lib.Scan

/-!
# Matching texts

What a regular expression finds: the first place from the left at which it matches.  A matcher
sees the character before the place, for `^`, and the rest of the text from there.
-/

namespace Linkora
namespace Match

variable {β : Type}

/-- `/…/.exec(s)`, by a matcher for one place. -/
def exec (m : Option Char → List Char → Option β) : Option Char → List Char → Option β
  | before, [] => m before []
  | before, c :: rest =>
    match m before (c :: rest) with
    | some b => some b
    | none => exec m (some c) rest

/-- A literal in lower case, matched in either case; what stands behind it. -/
def literal : List Char → List Char → Option (List Char)
  | [], l => some l
  | _ :: _, [] => none
  | k :: key, c :: l => if c.toLower = k then literal key l else none

/-- `^` with the flag `m`. -/
def lineStart : Option Char → Bool
  | none => true
  | some c => [0x0a, 0x0d, 0x2028, 0x2029].contains c.toNat

def isBreak (c : Char) : Bool := c == '\n' || c == '\r'

/-- `\s*([^\r\n]+)`: if nothing but space is left, the last of it that is no line break. -/
def restOfLine (l : List Char) : Option (List Char) :=
  let rest := l.dropWhile Scan.isSpace
  if rest = [] then
    ((l.filter fun c => !isBreak c).getLast?).map fun c => [c]
  else some (rest.takeWhile fun c => !isBreak c)

/-- `([^"]*)"` -/
def untilQuote (l : List Char) : Option (List Char) :=
  if '"' ∈ l then some (l.takeWhile (· ≠ '"')) else none

/-- A parameter with its value in quotes. -/
def paramAt (key : List Char) (_ : Option Char) (l : List Char) : Option (List Char) :=
  match literal key l with
  | some ('"' :: rest) => untilQuote rest
  | _ => none

/-- A literal with the rest of its line, at places that `g` allows. -/
def headerAt (g : Option Char → Bool) (key : List Char) (before : Option Char) (l : List Char) :
    Option (List Char) :=
  if g before = true then (literal key l).bind restOfLine else none

/-- Does the literal stand at such a place? -/
def marks (g : Option Char → Bool) (key : List Char) (before : Option Char) (l : List Char) :
    Bool :=
  (exec (fun before l => if g before = true then literal key l else none) before l).isSome

/-! ## Literals -/

theorem literal_cons_of_ne {k c : Char} {key l : List Char} (h : c.toLower ≠ k) :
    literal (k :: key) (c :: l) = none := by
  rw [literal, if_neg h]

/-- A literal does not reach over a character that it does not have. -/
theorem literal_append_sep {key a rest : List Char} {x : Char} (hx : ∀ k ∈ key, x.toLower ≠ k)
    (h : literal key a = none) : literal key (a ++ x :: rest) = none := by
  induction key generalizing a with
  | nil => cases h
  | cons k key ih =>
    cases a with
    | nil => exact literal_cons_of_ne (hx k List.mem_cons_self)
    | cons c a =>
      rw [literal] at h
      rw [List.cons_append, literal]
      split
      · rename_i hc
        rw [if_pos hc] at h
        exact ih (fun k' hk' => hx k' (List.mem_cons_of_mem k hk')) h
      · rfl

/-- The characters already tell that the literal is not there, whatever follows. -/
def bars : List Char → List Char → Bool
  | k :: key, c :: l => decide (c.toLower ≠ k) || bars key l
  | _, _ => false

theorem literal_of_bars {key a : List Char} (h : bars key a = true) (rest : List Char) :
    literal key (a ++ rest) = none := by
  induction key generalizing a with
  | nil => cases a <;> cases h
  | cons k key ih =>
    cases a with
    | nil => cases h
    | cons c a =>
      rw [List.cons_append, literal]
      split
      · rename_i hc
        rw [bars, hc] at h
        exact ih (by simpa using h)
      · rfl

theorem literal_append {key a : List Char} (h : literal key a = some []) (rest : List Char) :
    literal key (a ++ rest) = some rest := by
  induction key generalizing a with
  | nil =>
    obtain rfl : a = [] := Option.some.inj h
    rfl
  | cons k key ih =>
    cases a with
    | nil => cases h
    | cons c a =>
      rw [literal] at h
      rw [List.cons_append, literal]
      split
      · rename_i hc
        rw [if_pos hc] at h
        exact ih h
      · rename_i hc
        rw [if_neg hc] at h
        cases h

theorem exec_of_here {m : Option Char → List Char → Option β} {before : Option Char}
    {l : List Char} {b : β} (h : m before l = some b) : exec m before l = some b := by
  cases l with
  | nil => exact h
  | cons c rest => rw [exec, h]

theorem exec_headerAt_here {g : Option Char → Bool} {key name rest v : List Char}
    {before : Option Char} (hg : g before = true) (hname : literal key name = some [])
    (hline : restOfLine rest = some v) :
    exec (headerAt g key) before (name ++ rest) = some v := by
  apply exec_of_here
  rw [headerAt, if_pos hg, literal_append hname]
  exact hline

/-- The literal stands nowhere in a text that its beginnings bar, nor behind. -/
theorem marks_append {g : Option Char → Bool} {key a rest : List Char} {before : Option Char}
    (h : ∀ s ∈ a.tails, s ≠ [] → bars key s = true) :
    marks g key before (a ++ rest) = marks g key (a.getLast?.or before) rest := by
  induction a generalizing before with
  | nil => rfl
  | cons c a ih =>
    have hhere := literal_of_bars (h (c :: a) (by simp) (List.cons_ne_nil c a)) rest
    have hlater : marks g key (some c) (a ++ rest) =
        marks g key (a.getLast?.or (some c)) rest :=
      ih fun s hs => h s (by rw [List.tails_cons]; exact List.mem_cons_of_mem _ hs)
    rw [marks] at hlater ⊢
    rw [List.cons_append, exec, ← List.cons_append, hhere]
    have hlast : (c :: a).getLast?.or before = a.getLast?.or (some c) := by
      rw [List.getLast?_cons]
      cases a.getLast? with
      | none => rfl
      | some _ => rfl
    simp only [ite_self]
    rw [hlater, hlast]

/-- Places before a character that the literal does not have are passed over. -/
theorem exec_headerAt_skip {g : Option Char → Bool} {k : Char} {key a rest : List Char}
    {x : Char} {before : Option Char} (hx : ∀ k' ∈ k :: key, x.toLower ≠ k')
    (h : marks g (k :: key) before a = false) :
    exec (headerAt g (k :: key)) before (a ++ x :: rest) =
      exec (headerAt g (k :: key)) (some x) rest := by
  induction a generalizing before with
  | nil =>
    rw [List.nil_append, exec, headerAt, literal_cons_of_ne (hx k List.mem_cons_self)]
    simp
  | cons c a ih =>
    rw [marks, exec] at h
    have hhere : headerAt g (k :: key) before (c :: a ++ x :: rest) = none := by
      rw [headerAt]
      split
      · rename_i hg
        simp only [hg, if_true] at h
        have hnone : literal (k :: key) (c :: a) = none := by
          cases hlit : literal (k :: key) (c :: a) with
          | none => rfl
          | some _ =>
            rw [hlit] at h
            cases h
        rw [literal_append_sep hx hnone]
        rfl
      · rfl
    have hlater : marks g (k :: key) (some c) a = false := by
      split at h
      · cases h
      · exact h
    rw [List.cons_append, exec, ← List.cons_append, hhere]
    exact ih hlater

/-! ## Lines -/

theorem restOfLine_line {line rest : List Char} (hline : line ≠ [])
    (hspace : ∀ c, line.head? = some c → Scan.isSpace c = false)
    (hbreak : ∀ c ∈ line, isBreak c = false) (hrest : rest = [] ∨ ∃ c more, rest = c :: more ∧
      isBreak c = true) : restOfLine (' ' :: (line ++ rest)) = some line := by
  obtain ⟨c, more, rfl⟩ := List.exists_cons_of_ne_nil hline
  have hc := hspace c rfl
  have hdrop : (' ' :: (c :: more ++ rest)).dropWhile Scan.isSpace = c :: more ++ rest := by
    rw [List.dropWhile_cons_of_pos (by decide), List.cons_append,
      List.dropWhile_cons_of_neg (by rw [hc]; exact Bool.false_ne_true)]
  have htake : (c :: more ++ rest).takeWhile (fun c => !isBreak c) = c :: more := by
    rw [List.takeWhile_append_of_pos fun a ha => by rw [hbreak a ha]; rfl]
    rcases hrest with rfl | ⟨b, tail, rfl, hb⟩
    · rw [List.takeWhile_nil, List.append_nil]
    · rw [List.takeWhile_cons_of_neg (by rw [hb]; exact Bool.false_ne_true), List.append_nil]
  simp only [restOfLine, hdrop, htake]
  exact if_neg (List.cons_ne_nil _ _)

/-! ## What is found stands in the text -/

theorem exec_eq_some {m : Option Char → List Char → Option β} {before : Option Char}
    {l : List Char} {b : β} (h : exec m before l = some b) :
    ∃ before' s, s <:+ l ∧ m before' s = some b := by
  induction l generalizing before with
  | nil => exact ⟨before, [], List.suffix_rfl, h⟩
  | cons c rest ih =>
    rw [exec] at h
    split at h
    · rename_i b' hb
      cases h
      exact ⟨before, c :: rest, List.suffix_rfl, hb⟩
    · obtain ⟨before', s, hs, hm⟩ := ih h
      exact ⟨before', s, hs.trans (List.suffix_cons c rest), hm⟩

theorem suffix_of_literal {key l rest : List Char} (h : literal key l = some rest) :
    rest <:+ l := by
  induction key generalizing l with
  | nil =>
    cases h
    exact List.suffix_rfl
  | cons k key ih =>
    cases l with
    | nil => cases h
    | cons c l =>
      rw [literal] at h
      split at h
      · exact (ih h).trans (List.suffix_cons c l)
      · cases h

theorem restOfLine_spec {l v : List Char} (h : restOfLine l = some v) :
    v <:+: l ∧ ∀ c ∈ v, isBreak c = false := by
  simp only [restOfLine] at h
  split at h
  · obtain ⟨c, hc, rfl⟩ := Option.map_eq_some_iff.mp h
    obtain ⟨hmem, hbreak⟩ := List.mem_filter.mp (List.mem_of_getLast? hc)
    obtain ⟨a, b, rfl⟩ := List.append_of_mem hmem
    refine ⟨⟨a, b, by simp⟩, fun d hd => ?_⟩
    rw [List.mem_singleton.mp hd]
    exact Bool.not_eq_eq_eq_not.mp hbreak
  · cases h
    refine ⟨(List.takeWhile_prefix _).isInfix.trans (List.dropWhile_suffix _).isInfix,
      fun c hc => ?_⟩
    have hnot : (!isBreak c) = true := List.mem_takeWhile_imp (p := fun c => !isBreak c) hc
    exact Bool.not_eq_eq_eq_not.mp hnot

theorem untilQuote_spec {l v : List Char} (h : untilQuote l = some v) :
    v <+: l ∧ '"' ∉ v := by
  rw [untilQuote] at h
  split at h
  · cases h
    refine ⟨List.takeWhile_prefix _, fun hmem => ?_⟩
    exact absurd (List.mem_takeWhile_imp hmem) (by simp)
  · cases h

theorem exec_headerAt_spec {g : Option Char → Bool} {key l v : List Char}
    (h : exec (headerAt g key) none l = some v) :
    v <:+: l ∧ ∀ c ∈ v, isBreak c = false := by
  obtain ⟨before, s, hs, hm⟩ := exec_eq_some h
  rw [headerAt] at hm
  split at hm
  · obtain ⟨rest, hrest, hline⟩ := Option.bind_eq_some_iff.mp hm
    obtain ⟨hin, hbreak⟩ := restOfLine_spec hline
    exact ⟨hin.trans ((suffix_of_literal hrest).trans hs).isInfix, hbreak⟩
  · cases hm

theorem exec_paramAt_spec {key l v : List Char} (h : exec (paramAt key) none l = some v) :
    v <:+: l ∧ '"' ∉ v := by
  obtain ⟨before, s, hs, hm⟩ := exec_eq_some h
  rw [paramAt] at hm
  split at hm
  · rename_i rest hrest
    obtain ⟨hstarts, hquote⟩ := untilQuote_spec hm
    refine ⟨hstarts.isInfix.trans (((List.suffix_cons _ _).trans
      (suffix_of_literal hrest)).trans hs).isInfix, hquote⟩
  · cases hm

/-! ## Parameters -/

theorem untilQuote_value {value rest : List Char} (h : '"' ∉ value) :
    untilQuote (value ++ '"' :: rest) = some value := by
  have htake : (value ++ '"' :: rest).takeWhile (· ≠ '"') = value := by
    rw [List.takeWhile_append_of_pos fun c hc => decide_eq_true (ne_of_mem_of_not_mem hc h),
      List.takeWhile_cons_of_neg (by decide), List.append_nil]
  rw [untilQuote, if_pos (List.mem_append_right _ List.mem_cons_self), htake]

theorem untilQuote_nil : untilQuote [] = none := rfl

/-- The text ends in the key, in either case. -/
def endsIn (key a : List Char) : Bool := decide (key <:+ a.map Char.toLower)

theorem literal_quote {key a rest tail : List Char} (hkey : '"' ∉ key) (ha : '"' ∉ a) :
    literal key (a ++ '"' :: rest) = some ('"' :: tail) ↔
      a.map Char.toLower = key ∧ rest = tail := by
  induction key generalizing a with
  | nil =>
    cases a with
    | nil => simp [literal]
    | cons c a =>
      have hc : c ≠ '"' := fun heq => ha (heq ▸ List.mem_cons_self)
      simp [literal, hc]
  | cons k key ih =>
    have hk : '"'.toLower ≠ k := fun heq => hkey (heq ▸ List.mem_cons_self)
    cases a with
    | nil =>
      rw [List.nil_append, literal_cons_of_ne hk]
      simp
    | cons c a =>
      rw [List.cons_append, literal]
      split
      · rename_i hc
        rw [ih (fun h => hkey (List.mem_cons_of_mem k h)) fun h => ha (List.mem_cons_of_mem c h)]
        simp [hc]
      · rename_i hc
        simp [hc]

theorem paramAt_quote {key a rest : List Char} (before : Option Char) (hkey : '"' ∉ key)
    (ha : '"' ∉ a) : paramAt key before (a ++ '"' :: rest) =
      if a.map Char.toLower = key then untilQuote rest else none := by
  rw [paramAt]
  split
  · rename_i tail hlit
    obtain ⟨hmap, rfl⟩ := (literal_quote hkey ha).mp hlit
    rw [if_pos hmap]
  · rename_i hnone
    rw [if_neg]
    intro hmap
    exact hnone rest ((literal_quote hkey ha).mpr ⟨hmap, rfl⟩)

/-- Up to a quote, only a key that stands right before it matches. -/
theorem exec_paramAt_quote {key a rest : List Char} {before : Option Char}
    (hne : key ≠ []) (hkey : '"' ∉ key) (ha : '"' ∉ a) :
    exec (paramAt key) before (a ++ '"' :: rest) =
      if endsIn key a = true then
        (untilQuote rest).or (exec (paramAt key) (some '"') rest)
      else exec (paramAt key) (some '"') rest := by
  induction a generalizing before with
  | nil =>
    have hends : endsIn key [] = false := decide_eq_false fun h => hne (List.suffix_nil.mp h)
    have hhere : paramAt key before ([] ++ '"' :: rest) =
        if ([] : List Char).map Char.toLower = key then untilQuote rest else none :=
      paramAt_quote before hkey List.not_mem_nil
    rw [if_neg (by simpa using Ne.symm hne), List.nil_append] at hhere
    rw [List.nil_append, exec, hhere, hends, if_neg Bool.false_ne_true]
  | cons c a ih =>
    have hrest : '"' ∉ a := fun h => ha (List.mem_cons_of_mem c h)
    have hhere : paramAt key before (c :: a ++ '"' :: rest) =
        if (c :: a).map Char.toLower = key then untilQuote rest else none :=
      paramAt_quote before hkey ha
    rw [List.cons_append, exec, ← List.cons_append, hhere]
    by_cases hmap : (c :: a).map Char.toLower = key
    · have hends : endsIn key (c :: a) = true := decide_eq_true (by rw [hmap])
      have hshort : endsIn key a = false := by
        refine decide_eq_false fun h => ?_
        have hlength := h.length_le
        rw [← hmap, List.length_map, List.length_map, List.length_cons] at hlength
        omega
      rw [if_pos hmap, if_pos hends, ih hrest, hshort, if_neg Bool.false_ne_true]
      cases untilQuote rest with
      | none => rfl
      | some value => rfl
    · have hends : endsIn key (c :: a) = endsIn key a := by
        rw [endsIn, endsIn, decide_eq_decide, List.map_cons, List.suffix_cons_iff]
        exact or_iff_right fun heq => hmap heq.symm
      rw [if_neg hmap, hends]
      exact ih hrest

end Match
end Linkora

import Mathlib.Data.List.TakeWhile
import Linkora.Lib.Text

/-!
# Reading texts

`trim` and `parseInt`, as JavaScript has them, and what they make of the texts of numbers.
-/

namespace Linkora
namespace Scan

/-- What `\s` matches. -/
def isSpace (c : Char) : Bool :=
  decide (9 ≤ c.toNat ∧ c.toNat ≤ 13 ∨ 0x2000 ≤ c.toNat ∧ c.toNat ≤ 0x200a) ||
    [0x20, 0xa0, 0x1680, 0x2028, 0x2029, 0x202f, 0x205f, 0x3000, 0xfeff].contains c.toNat

def trimChars (l : List Char) : List Char :=
  ((l.dropWhile isSpace).reverse.dropWhile isSpace).reverse

/-- `s.trim()` -/
def trim (s : String) : String := String.ofList (trimChars s.toList)

/-- An optional sign, and what stands behind it. -/
def readSign : List Char → Bool × List Char
  | '-' :: rest => (true, rest)
  | '+' :: rest => (false, rest)
  | l => (false, l)

def parseIntChars (l : List Char) : Option Int :=
  let signed := readSign (l.dropWhile isSpace)
  let digits := signed.2.takeWhile Char.isDigit
  if digits = [] then none
  else
    let n : Int := Nat.ofDigitChars 10 digits 0
    some (if signed.1 = true then -n else n)

/-- `parseInt(s, 10)`, without a value for `NaN`. -/
def parseInt (s : String) : Option Int := parseIntChars s.toList

/-- A digit of the base, in either case. -/
def inBase (base : Nat) (c : Char) : Bool :=
  match Text.hexValue c with
  | some d => decide (d < base)
  | none => false

def digitsValue (base : Nat) (l : List Char) : Nat :=
  l.foldl (fun n c => base * n + (Text.hexValue c).getD 0) 0

/-- `parseInt` in a base, without sign, space or prefix. -/
def parseRadix (base : Nat) (l : List Char) : Option Nat :=
  let digits := l.takeWhile (inBase base)
  if digits = [] then none else some (digitsValue base digits)

theorem dropWhile_of_not_space {l : List Char} (h : ∀ c ∈ l, isSpace c = false) :
    l.dropWhile isSpace = l := by
  cases l with
  | nil => rfl
  | cons c rest => rw [List.dropWhile_cons, h c List.mem_cons_self, if_neg Bool.false_ne_true]

theorem trimChars_within (l : List Char) : trimChars l <:+: l := by
  have hback : ((l.dropWhile isSpace).reverse.dropWhile isSpace).reverse <+:
      l.dropWhile isSpace := by
    rw [← List.reverse_suffix, List.reverse_reverse]
    exact List.dropWhile_suffix _
  exact hback.isInfix.trans (List.dropWhile_suffix _).isInfix

/-- A text that is not shortened does not begin with space. -/
theorem head_not_space_of_trimChars {l : List Char} (h : trimChars l = l) :
    ∀ c, l.head? = some c → isSpace c = false := by
  intro c hc
  cases l with
  | nil => cases hc
  | cons d rest =>
    cases hc
    rw [Bool.eq_false_iff]
    intro hspace
    have hlength := (trimChars_within rest).length_le
    rw [trimChars, List.dropWhile_cons_of_pos hspace] at h
    rw [trimChars, h, List.length_cons] at hlength
    omega

theorem trim_of_not_space {s : String} (h : ∀ c ∈ s.toList, isSpace c = false) : trim s = s := by
  rw [trim, trimChars, dropWhile_of_not_space h, dropWhile_of_not_space, List.reverse_reverse,
    String.ofList_toList]
  exact fun c hc => h c (List.mem_reverse.mp hc)

theorem digit_cases {c : Char} (h : c.isDigit = true) : 48 ≤ c.toNat ∧ c.toNat ≤ 57 := by
  have hboth := Bool.and_eq_true_iff.mp h
  exact ⟨of_decide_eq_true hboth.1, of_decide_eq_true hboth.2⟩

theorem not_space_of_digit {c : Char} (h : c.isDigit = true) : isSpace c = false := by
  obtain ⟨hlow, hhigh⟩ := digit_cases h
  have hlist : [0x20, 0xa0, 0x1680, 0x2028, 0x2029, 0x202f, 0x205f, 0x3000, 0xfeff].contains
      c.toNat = false := by
    simp
    omega
  rw [isSpace, hlist, Bool.or_false, decide_eq_false_iff_not]
  omega

theorem isDigit_of_mem_toString {n : Nat} {c : Char} (h : c ∈ (toString n).toList) :
    c.isDigit = true := by
  rw [Nat.toString_eq_ofList_toDigits, String.toList_ofList] at h
  exact Nat.isDigit_of_mem_toDigits (by omega) (by omega) h

theorem not_mem_toString {n : Nat} {c : Char} (h : c.isDigit = false) :
    c ∉ (toString n).toList := by
  intro hmem
  rw [isDigit_of_mem_toString hmem] at h
  cases h

theorem toString_toList_ne (n : Nat) : (toString n).toList ≠ [] := by
  rw [Nat.toString_eq_ofList_toDigits, String.toList_ofList]
  exact Nat.toDigits_ne_nil

theorem hexValue_of_digit {c : Char} (h : c.isDigit = true) :
    Text.hexValue c = some (c.toNat - 48) := by
  obtain ⟨hlow, hhigh⟩ := digit_cases h
  exact if_pos ⟨hlow, hhigh⟩

theorem inBase_of_digit {c : Char} (h : c.isDigit = true) : inBase 10 c = true := by
  obtain ⟨hlow, hhigh⟩ := digit_cases h
  rw [inBase, hexValue_of_digit h]
  exact decide_eq_true (by omega)

theorem digitsValue_of_digits {l : List Char} (h : ∀ c ∈ l, c.isDigit = true) :
    digitsValue 10 l = Nat.ofDigitChars 10 l 0 := by
  have hfold : ∀ n, l.foldl (fun n c => 10 * n + (Text.hexValue c).getD 0) n =
      Nat.ofDigitChars 10 l n := by
    induction l with
    | nil => exact fun n => rfl
    | cons c l ih =>
      intro n
      rw [List.foldl_cons, ih fun d hd => h d (List.mem_cons_of_mem c hd),
        Nat.ofDigitChars_cons, hexValue_of_digit (h c List.mem_cons_self)]
      rfl
  exact hfold 0

theorem digitsValue_toString (n : Nat) : digitsValue 10 (toString n).toList = n := by
  rw [digitsValue_of_digits fun c => isDigit_of_mem_toString, Nat.toString_eq_ofList_toDigits,
    String.toList_ofList, Nat.ofDigitChars_toDigits (by omega) le_rfl]

theorem parseRadix_toString (n : Nat) : parseRadix 10 (toString n).toList = some n := by
  have htake : (toString n).toList.takeWhile (inBase 10) = (toString n).toList :=
    List.takeWhile_eq_self_iff.mpr fun c hc => inBase_of_digit (isDigit_of_mem_toString hc)
  simp only [parseRadix, htake, if_neg (toString_toList_ne n), digitsValue_toString]

/-- A number that is not zero is written without leading zeros. -/
theorem head_toDigits {n : Nat} (h : 0 < n) : (Nat.toDigits 10 n).head? ≠ some '0' := by
  induction n using Nat.strongRecOn with
  | ind n ih =>
    by_cases hlt : n < 10
    · have hall : ∀ n < 10, 0 < n → [n.digitChar].head? ≠ some '0' := by decide
      rw [Nat.toDigits_of_lt_base hlt]
      exact hall n hlt h
    · rw [Nat.toDigits_of_base_le (by omega) (by omega),
        List.head?_append_of_ne_nil _ Nat.toDigits_ne_nil]
      exact ih (n / 10) (by omega) (by omega)

theorem head_toString {n : Nat} (h : 0 < n) : (toString n).toList.head? ≠ some '0' := by
  rw [Nat.toString_eq_ofList_toDigits, String.toList_ofList]
  exact head_toDigits h

theorem readSign_of_digit {c : Char} {rest : List Char} (h : c.isDigit = true) :
    readSign (c :: rest) = (false, c :: rest) := by
  obtain ⟨hlow, -⟩ := digit_cases h
  rw [readSign]
  · intro _ heq
    rw [(List.cons.inj heq).1] at hlow
    exact absurd hlow (by decide)
  · intro _ heq
    rw [(List.cons.inj heq).1] at hlow
    exact absurd hlow (by decide)

theorem parseInt_toString (n : Nat) : parseInt (toString n) = some (n : Int) := by
  have hdigits : ∀ c ∈ (toString n).toList, c.isDigit = true := fun c => isDigit_of_mem_toString
  have hne : (toString n).toList ≠ [] := toString_toList_ne n
  have hvalue : Nat.ofDigitChars 10 (toString n).toList 0 = n := by
    rw [Nat.toString_eq_ofList_toDigits, String.toList_ofList]
    simp
  have hsign : readSign (toString n).toList = (false, (toString n).toList) := by
    obtain ⟨c, rest, hlist⟩ := List.exists_cons_of_ne_nil hne
    rw [hlist]
    exact readSign_of_digit (hdigits c (by rw [hlist]; exact List.mem_cons_self))
  have htake : (toString n).toList.takeWhile Char.isDigit = (toString n).toList :=
    List.takeWhile_eq_self_iff.mpr hdigits
  rw [parseInt, parseIntChars, dropWhile_of_not_space fun c hc => not_space_of_digit (hdigits c hc)]
  simp only [hsign, htake]
  rw [if_neg hne, if_neg Bool.false_ne_true, hvalue]

end Scan
end Linkora

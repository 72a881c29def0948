import Mathlib.Data.List.DropRight
import Mathlib.Data.List.TakeWhile
import Linkora.Lib.Scan

/-!
# The texts of numbers

A finite number of JavaScript by the decimal digits that `Number::toString` finds for it: the
shortest ones that round to the number.  The text is read back, so that two numbers with one
text are one number.
-/

namespace Linkora

/-- The number `0.digits * 10 ^ point`.  Zero has no digits and no sign. -/
structure Decimal where
  negative : Bool
  digits : List Char
  point : Int
  isDigit : ∀ c ∈ digits, c.isDigit = true
  head_ne : digits.head? ≠ some '0'
  last_ne : digits.getLast? ≠ some '0'
  zero : digits = [] → negative = false ∧ point = 0
  deriving DecidableEq

namespace Decimal

theorem ext {a b : Decimal} (hsign : a.negative = b.negative) (hdigits : a.digits = b.digits)
    (hpoint : a.point = b.point) : a = b := by
  cases a
  cases b
  cases hsign
  cases hdigits
  cases hpoint
  rfl

/-! ## Printing -/

/-- The exponent with its sign. -/
def exponentChars (e : Int) : List Char :=
  (if e < 0 then '-' else '+') :: (toString e.natAbs).toList

/-- One digit, the others behind a point, and the exponent. -/
def scientificChars : List Char → Int → List Char
  | [], _ => []
  | [d], n => [d] ++ 'e' :: exponentChars (n - 1)
  | d :: rest, n => d :: '.' :: rest ++ 'e' :: exponentChars (n - 1)

/-- Steps 6 to 10 of `Number::toString`, for the digits and the place of the point. -/
def unsignedChars (digits : List Char) (n : Int) : List Char :=
  if -5 ≤ n ∧ n ≤ 21 then
    if (digits.length : Int) ≤ n then digits ++ List.replicate (n - digits.length).toNat '0'
    else if 0 < n then digits.take n.toNat ++ '.' :: digits.drop n.toNat
    else ['0'] ++ '.' :: (List.replicate (-n).toNat '0' ++ digits)
  else scientificChars digits n

def chars (x : Decimal) : List Char :=
  if x.digits = [] then ['0']
  else if x.negative = true then '-' :: unsignedChars x.digits x.point
  else unsignedChars x.digits x.point

/-- `String(x)` -/
def text (x : Decimal) : String := String.ofList x.chars

/-! ## Reading -/

/-- The digits between the zeros at both ends, and the place of the point before them. -/
def strip (l : List Char) (p : Int) : List Char × Int :=
  let rest := l.dropWhile (· = '0')
  (rest.rdropWhile (· = '0'), p - (l.length - rest.length))

def readExponent : List Char → Int
  | [] => 0
  | c :: l => if c = '-' then -(Nat.ofDigitChars 10 l 0) else Nat.ofDigitChars 10 l 0

def readMantissa (l : List Char) (e : Int) : List Char × Int :=
  let whole := l.takeWhile (· ≠ '.')
  strip (whole ++ (l.dropWhile (· ≠ '.')).tail) (whole.length + e)

def readUnsigned (l : List Char) : List Char × Int :=
  readMantissa (l.takeWhile (· ≠ 'e')) (readExponent (l.dropWhile (· ≠ 'e')).tail)

theorem takeWhile_sep {a rest : List Char} {x : Char} (h : x ∉ a) :
    (a ++ x :: rest).takeWhile (· ≠ x) = a := by
  rw [List.takeWhile_append_of_pos fun c hc => decide_eq_true (ne_of_mem_of_not_mem hc h),
    List.takeWhile_cons_of_neg (by simp), List.append_nil]

theorem dropWhile_sep {a rest : List Char} {x : Char} (h : x ∉ a) :
    (a ++ x :: rest).dropWhile (· ≠ x) = x :: rest := by
  rw [List.dropWhile_append_of_pos fun c hc => decide_eq_true (ne_of_mem_of_not_mem hc h),
    List.dropWhile_cons_of_neg (by simp)]

theorem takeWhile_absent {a : List Char} {x : Char} (h : x ∉ a) : a.takeWhile (· ≠ x) = a :=
  List.takeWhile_eq_self_iff.mpr fun _ hc => decide_eq_true (ne_of_mem_of_not_mem hc h)

theorem dropWhile_absent {a : List Char} {x : Char} (h : x ∉ a) : a.dropWhile (· ≠ x) = [] :=
  List.dropWhile_eq_nil_iff.mpr fun _ hc => decide_eq_true (ne_of_mem_of_not_mem hc h)

theorem readUnsigned_absent {l : List Char} (h : 'e' ∉ l) : readUnsigned l = readMantissa l 0 := by
  rw [readUnsigned, takeWhile_absent h, dropWhile_absent h]
  rfl

theorem readUnsigned_exponent {m x : List Char} (h : 'e' ∉ m) :
    readUnsigned (m ++ 'e' :: x) = readMantissa m (readExponent x) := by
  rw [readUnsigned, takeWhile_sep h, dropWhile_sep h]
  rfl

theorem readMantissa_whole {l : List Char} (h : '.' ∉ l) (e : Int) :
    readMantissa l e = strip l (l.length + e) := by
  simp only [readMantissa]
  rw [takeWhile_absent h, dropWhile_absent h, List.tail_nil, List.append_nil]

theorem readMantissa_point {a b : List Char} (h : '.' ∉ a) (e : Int) :
    readMantissa (a ++ '.' :: b) e = strip (a ++ b) (a.length + e) := by
  simp only [readMantissa]
  rw [takeWhile_sep h, dropWhile_sep h, List.tail_cons]

theorem readExponent_chars (e : Int) : readExponent (exponentChars e) = e := by
  have hvalue : Nat.ofDigitChars 10 (toString e.natAbs).toList 0 = e.natAbs := by
    rw [Nat.toString_eq_ofList_toDigits, String.toList_ofList]
    simp
  rw [exponentChars, readExponent, hvalue]
  by_cases hneg : e < 0
  · rw [if_pos hneg, if_pos rfl]
    omega
  · rw [if_neg hneg, if_neg (by decide)]
    omega

/-- The zeros around the digits are taken off. -/
theorem strip_zeros {digits : List Char} (hne : digits ≠ []) (hhead : digits.head? ≠ some '0')
    (hlast : digits.getLast? ≠ some '0') (a b : Nat) (p : Int) :
    strip (List.replicate a '0' ++ (digits ++ List.replicate b '0')) p = (digits, p - a) := by
  have hzeros : ∀ n, ∀ c ∈ List.replicate n '0', decide (c = '0') = true := fun n c hc =>
    decide_eq_true (List.eq_of_mem_replicate hc)
  have hfront : (List.replicate a '0' ++ (digits ++ List.replicate b '0')).dropWhile (· = '0') =
      digits ++ List.replicate b '0' := by
    obtain ⟨c, rest, rfl⟩ := List.exists_cons_of_ne_nil hne
    have hc : c ≠ '0' := fun heq => hhead (by rw [heq]; rfl)
    rw [List.dropWhile_append_of_pos (hzeros a), List.cons_append,
      List.dropWhile_cons_of_neg (by simpa using hc)]
  have hback : (digits ++ List.replicate b '0').rdropWhile (· = '0') = digits := by
    rw [List.rdropWhile, List.reverse_append, List.reverse_replicate,
      List.dropWhile_append_of_pos (hzeros b)]
    rw [List.getLast?_eq_head?_reverse] at hlast
    cases hrev : digits.reverse with
    | nil => exact absurd (List.reverse_eq_nil_iff.mp hrev) hne
    | cons c rest =>
      have hc : c ≠ '0' := fun heq => hlast (by rw [hrev, heq]; rfl)
      rw [List.dropWhile_cons_of_neg (by simpa using hc), ← hrev, List.reverse_reverse]
  simp only [strip]
  rw [hfront, hback, List.length_append, List.length_replicate]
  push_cast
  simp

theorem not_mem_of_digits {l : List Char} (h : ∀ c ∈ l, c.isDigit = true) {x : Char}
    (hx : x.isDigit = false) : x ∉ l := by
  intro hmem
  rw [h x hmem] at hx
  cases hx

theorem digits_append_zeros {l : List Char} (h : ∀ c ∈ l, c.isDigit = true) (a b : Nat) :
    ∀ c ∈ List.replicate a '0' ++ (l ++ List.replicate b '0'), c.isDigit = true := by
  intro c hc
  rcases List.mem_append.mp hc with hc | hc
  · rw [List.eq_of_mem_replicate hc]
    rfl
  rcases List.mem_append.mp hc with hc | hc
  · exact h c hc
  · rw [List.eq_of_mem_replicate hc]
    rfl

theorem read_unsignedChars (x : Decimal) (hne : x.digits ≠ []) :
    readUnsigned (unsignedChars x.digits x.point) = (x.digits, x.point) := by
  have hstrip := strip_zeros hne x.head_ne x.last_ne
  have hdigits := x.isDigit
  have hzeros := digits_append_zeros hdigits
  generalize x.digits = digits at hne hstrip hdigits hzeros
  generalize x.point = n
  rw [unsignedChars]
  split
  · rename_i hrange
    split
    · rename_i hwhole
      have hall : ∀ c ∈ digits ++ List.replicate (n - digits.length).toNat '0',
          c.isDigit = true := hzeros 0 _
      have hread := hstrip 0 (n - digits.length).toNat n
      rw [List.replicate_zero, List.nil_append] at hread
      have hlength : ((digits ++ List.replicate (n - digits.length).toNat '0').length : Int) + 0 =
          n := by
        rw [List.length_append, List.length_replicate]
        omega
      rw [readUnsigned_absent (not_mem_of_digits hall rfl),
        readMantissa_whole (not_mem_of_digits hall rfl), hlength, hread]
      simp
    · rename_i hlong
      split
      · rename_i hpos
        have htake : ∀ c ∈ digits.take n.toNat, c.isDigit = true := fun c hc =>
          hdigits c (List.mem_of_mem_take hc)
        have hnone : 'e' ∉ digits.take n.toNat ++ '.' :: digits.drop n.toNat := by
          intro hmem
          rcases List.mem_append.mp hmem with hmem | hmem
          · exact not_mem_of_digits htake rfl hmem
          · rcases List.mem_cons.mp hmem with hmem | hmem
            · cases hmem
            · exact not_mem_of_digits hdigits rfl (List.mem_of_mem_drop hmem)
        have hread := hstrip 0 0 n
        rw [List.replicate_zero, List.nil_append, List.append_nil] at hread
        have hlength : ((digits.take n.toNat).length : Int) + 0 = n := by
          rw [List.length_take]
          omega
        rw [readUnsigned_absent hnone, readMantissa_point (not_mem_of_digits htake rfl),
          List.take_append_drop, hlength, hread]
        simp
      · rename_i hsmall
        have hnone : 'e' ∉ ['0'] ++ '.' :: (List.replicate (-n).toNat '0' ++ digits) := by
          intro hmem
          rcases List.mem_append.mp hmem with hmem | hmem
          · cases List.mem_singleton.mp hmem
          · rcases List.mem_cons.mp hmem with hmem | hmem
            · cases hmem
            · have hall := hzeros (-n).toNat 0
              rw [List.replicate_zero, List.append_nil] at hall
              exact not_mem_of_digits hall rfl hmem
        have hread := hstrip ((-n).toNat + 1) 0 1
        rw [List.replicate_zero, List.append_nil, List.replicate_succ, List.cons_append] at hread
        rw [readUnsigned_absent hnone, readMantissa_point (by decide)]
        refine Eq.trans hread (Prod.ext rfl ?_)
        show (1 : Int) - (((-n).toNat + 1 : Nat) : Int) = n
        omega
  · -- Exponential notation: the point stands behind the first digit.
    have hread := hstrip 0 0 n
    rw [List.replicate_zero, List.nil_append, List.append_nil] at hread
    have hpoint : ((1 : Nat) : Int) + (n - 1) = n := by omega
    cases digits with
    | nil => exact absurd rfl hne
    | cons d rest =>
      have hd : ∀ c ∈ [d], c.isDigit = true := fun c hc => by
        rw [List.mem_singleton.mp hc]
        exact hdigits d List.mem_cons_self
      cases rest with
      | nil =>
        rw [scientificChars, readUnsigned_exponent (not_mem_of_digits hd rfl),
          readMantissa_whole (not_mem_of_digits hd rfl), readExponent_chars, List.length_singleton,
          hpoint, hread]
        simp
      | cons d' rest =>
        have hnone : 'e' ∉ d :: '.' :: d' :: rest := by
          intro hmem
          rcases List.mem_cons.mp hmem with hmem | hmem
          · rw [← hmem] at hd
            exact not_mem_of_digits hd rfl List.mem_cons_self
          · rcases List.mem_cons.mp hmem with hmem | hmem
            · cases hmem
            · exact not_mem_of_digits hdigits rfl (List.mem_cons_of_mem d hmem)
        have hmantissa := readMantissa_point (b := d' :: rest) (not_mem_of_digits hd rfl) (n - 1)
        rw [List.length_singleton, hpoint] at hmantissa
        show readUnsigned (d :: '.' :: d' :: rest ++ 'e' :: exponentChars (n - 1)) = _
        rw [readUnsigned_exponent hnone, readExponent_chars]
        refine hmantissa.trans (hread.trans ?_)
        simp

/-! ## One text, one number -/

/-- The characters of a number. -/
def isNumberChar (c : Char) : Bool := c.isDigit || ['-', '+', '.', 'e'].contains c

theorem isNumberChar_of_digit {c : Char} (h : c.isDigit = true) : isNumberChar c = true := by
  rw [isNumberChar, h, Bool.true_or]

theorem isNumberChar_exponent (e : Int) : ∀ c ∈ exponentChars e, isNumberChar c = true := by
  intro c hc
  rcases List.mem_cons.mp hc with rfl | hc
  · split
    · decide
    · decide
  · exact isNumberChar_of_digit (Scan.isDigit_of_mem_toString hc)

theorem isNumberChar_scientific {digits : List Char} (h : ∀ c ∈ digits, c.isDigit = true)
    (n : Int) : ∀ c ∈ scientificChars digits n, isNumberChar c = true := by
  have hexponent := isNumberChar_exponent (n - 1)
  intro c hc
  match digits with
  | [] => cases hc
  | [d] =>
    rcases List.mem_cons.mp hc with rfl | hc
    · exact isNumberChar_of_digit (h c List.mem_cons_self)
    · rcases List.mem_cons.mp hc with rfl | hc
      · decide
      · exact hexponent c hc
  | d :: d' :: rest =>
    rcases List.mem_append.mp hc with hc | hc
    · rcases List.mem_cons.mp hc with rfl | hc
      · exact isNumberChar_of_digit (h c List.mem_cons_self)
      · rcases List.mem_cons.mp hc with rfl | hc
        · decide
        · exact isNumberChar_of_digit (h c (List.mem_cons_of_mem d hc))
    · rcases List.mem_cons.mp hc with rfl | hc
      · decide
      · exact hexponent c hc

theorem isNumberChar_unsigned {digits : List Char} (h : ∀ c ∈ digits, c.isDigit = true)
    (n : Int) : ∀ c ∈ unsignedChars digits n, isNumberChar c = true := by
  intro c hc
  rw [unsignedChars] at hc
  split at hc
  · split at hc
    · exact isNumberChar_of_digit (digits_append_zeros h 0 _ c hc)
    · split at hc
      · rcases List.mem_append.mp hc with hc | hc
        · exact isNumberChar_of_digit (h c (List.mem_of_mem_take hc))
        · rcases List.mem_cons.mp hc with rfl | hc
          · decide
          · exact isNumberChar_of_digit (h c (List.mem_of_mem_drop hc))
      · rcases List.mem_cons.mp hc with rfl | hc
        · decide
        · rcases List.mem_cons.mp hc with rfl | hc
          · decide
          · have hall := digits_append_zeros h (-n).toNat 0
            rw [List.replicate_zero, List.append_nil] at hall
            exact isNumberChar_of_digit (hall c hc)
  · exact isNumberChar_scientific h n c hc

theorem isNumberChar_chars (x : Decimal) : ∀ c ∈ x.chars, isNumberChar c = true := by
  intro c hc
  rw [chars] at hc
  split at hc
  · rw [List.mem_singleton.mp hc]
    decide
  split at hc
  · rcases List.mem_cons.mp hc with rfl | hc
    · decide
    · exact isNumberChar_unsigned x.isDigit x.point c hc
  · exact isNumberChar_unsigned x.isDigit x.point c hc

theorem not_mem_text (x : Decimal) {c : Char} (h : isNumberChar c = false) :
    c ∉ x.text.toList := by
  rw [text, String.toList_ofList]
  intro hmem
  rw [isNumberChar_chars x c hmem] at h
  cases h

/-- A number without a sign does not begin with one. -/
theorem unsignedChars_ne {digits : List Char} (hne : digits ≠ [])
    (h : ∀ c ∈ digits, c.isDigit = true) (n : Int) (l : List Char) :
    unsignedChars digits n ≠ '-' :: l := by
  obtain ⟨d, rest, rfl⟩ := List.exists_cons_of_ne_nil hne
  have hd : d ≠ '-' := by
    rintro rfl
    exact absurd (h '-' List.mem_cons_self) (by decide)
  intro heq
  rw [unsignedChars] at heq
  split at heq
  · split at heq
    · exact hd (List.cons.inj heq).1
    · split at heq
      · rename_i hpos
        obtain ⟨k, hk⟩ : ∃ k, n.toNat = k + 1 := ⟨n.toNat - 1, by omega⟩
        rw [hk] at heq
        exact hd (List.cons.inj heq).1
      · cases heq
  · cases rest with
    | nil => exact hd (List.cons.inj heq).1
    | cons _ _ => exact hd (List.cons.inj heq).1

/-- What a text is read as: the sign, the digits and the place of the point. -/
def read : List Char → Bool × List Char × Int
  | '-' :: l => (true, readUnsigned l)
  | l => (false, readUnsigned l)

theorem read_chars (x : Decimal) : read x.chars = (x.negative, x.digits, x.point) := by
  rw [chars]
  split
  · rename_i hzero
    obtain ⟨hsign, hpoint⟩ := x.zero hzero
    rw [hsign, hzero, hpoint]
    decide
  · rename_i hne
    have hread := read_unsignedChars x hne
    split
    · rename_i hsign
      rw [hsign, read, hread]
    · rename_i hsign
      rw [Bool.eq_false_iff.mpr hsign, read, hread]
      exact fun l => unsignedChars_ne hne x.isDigit x.point l

theorem text_injective : Function.Injective text := by
  intro a b h
  have hchars : a.chars = b.chars := by
    have hlists := congrArg String.toList h
    rwa [text, text, String.toList_ofList, String.toList_ofList] at hlists
  have hread := congrArg read hchars
  rw [read_chars, read_chars] at hread
  obtain ⟨hsign, hrest⟩ := Prod.ext_iff.mp hread
  obtain ⟨hdigits, hpoint⟩ := Prod.ext_iff.mp hrest
  exact ext hsign hdigits hpoint

end Decimal
end Linkora

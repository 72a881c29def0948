import Mathlib.Data.List.Infix
import Mathlib.Data.String.Basic

/-!
# Texts as bytes, as UTF-16 and as decimals

A JavaScript string is a list of UTF-16 code units, by which strings are compared, and
`TextEncoder` writes it in UTF-8.  Lean's strings are lists of characters; both forms tell
them apart.
-/

namespace Linkora
namespace Text

/-- `new TextEncoder().encode(s)` -/
def utf8 (s : String) : List UInt8 := s.toUTF8.data.toList

theorem utf8_injective : Function.Injective utf8 := by
  intro a b h
  have hdata : a.toUTF8.data = b.toUTF8.data := Array.toList_inj.mp h
  exact String.toByteArray_inj.mp (ByteArray.ext hdata)

theorem utf8_ofList (l : List Char) : utf8 (String.ofList l) = l.flatMap String.utf8EncodeChar := by
  show l.utf8Encode.data.toList = _
  rw [List.utf8Encode]
  simp

theorem utf8_append (a b : String) : utf8 (a ++ b) = utf8 a ++ utf8 b := by
  rw [← String.ofList_toList (s := a), ← String.ofList_toList (s := b), ← String.ofList_append,
    utf8_ofList, utf8_ofList, utf8_ofList, List.flatMap_append]

/-- A character that is written in ASCII bytes is its byte. -/
theorem utf8EncodeChar_of_ascii {c : Char} (h : (String.utf8EncodeChar c).all (· < 128) = true) :
    (String.utf8EncodeChar c).map (fun b => Char.ofNat b.toNat) = [c] := by
  have hle : c.val.toNat ≤ 127 := by
    by_contra hgt
    have hbyte : ∀ n, 128 ≤ n → n < 256 → decide (UInt8.ofNat n < 128) = false := by
      intro n hn hlt
      rw [decide_eq_false_iff_not, UInt8.lt_iff_toNat_lt, UInt8.toNat_ofNat', Nat.mod_eq_of_lt hlt]
      exact Nat.not_lt.mpr hn
    rw [String.utf8EncodeChar, if_neg hgt] at h
    split at h
    · rw [List.all_cons, hbyte _ (by omega) (by omega)] at h
      cases h
    · split at h <;> rw [List.all_cons, hbyte _ (by omega) (by omega)] at h <;> cases h
  rw [String.utf8EncodeChar, if_pos hle, List.map_singleton, UInt8.toNat_ofNat',
    Nat.mod_eq_of_lt (show c.val.toNat < 2 ^ 8 by omega)]
  exact congrArg (fun d => [d]) (Char.ofNat_toNat c)

/-- The characters of a text that is all ASCII are its bytes. -/
theorem toList_of_ascii {s : String} (h : (utf8 s).all (· < 128) = true) :
    s.toList = (utf8 s).map fun b => Char.ofNat b.toNat := by
  obtain ⟨l, rfl⟩ : ∃ l, s = String.ofList l := ⟨s.toList, String.ofList_toList.symm⟩
  rw [utf8_ofList] at h ⊢
  rw [String.toList_ofList]
  induction l with
  | nil => rfl
  | cons c rest ih =>
    rw [List.flatMap_cons, List.all_append, Bool.and_eq_true] at h
    rw [List.flatMap_cons, List.map_append, ← ih h.2, utf8EncodeChar_of_ascii h.1]
    rfl

/-- The text that the bytes are, if they are well-formed UTF-8. -/
def fromUtf8 (bytes : List UInt8) : Option String := String.fromUTF8? ⟨bytes.toArray⟩

theorem fromUtf8_utf8 (s : String) : fromUtf8 (utf8 s) = some s := by
  have hbytes : (⟨(utf8 s).toArray⟩ : ByteArray) = s.toUTF8 := by
    rw [utf8]
  rw [fromUtf8, hbytes, String.fromUTF8?, String.toUTF8_eq_toByteArray, dif_pos s.isValidUTF8]
  rfl

theorem utf8_of_fromUtf8 {bytes : List UInt8} {s : String} (h : fromUtf8 bytes = some s) :
    utf8 s = bytes := by
  rw [fromUtf8, String.fromUTF8?] at h
  split at h
  · rw [← Option.some.inj h]
    rfl
  · cases h

/-- The bytes of an ASCII text. -/
def asciiBytes (l : List Char) : List UInt8 := l.map fun c => UInt8.ofNat c.toNat

theorem utf8EncodeChar_ascii {c : Char} (hc : c.toNat < 128) :
    String.utf8EncodeChar c = [UInt8.ofNat c.toNat] := by
  have hle : c.val.toNat ≤ 0x7f := Nat.lt_succ_iff.mp hc
  rw [String.utf8EncodeChar, if_pos hle]
  rfl

/-- A character that is not ASCII has no byte that is. -/
theorem not_ascii_of_mem_utf8EncodeChar {c : Char} (hc : 128 ≤ c.toNat) {b : UInt8}
    (hb : b ∈ String.utf8EncodeChar c) : 128 ≤ b.toNat := by
  have hbyte : ∀ n, 128 ≤ n → n < 256 → b = UInt8.ofNat n → 128 ≤ b.toNat := by
    intro n hn hlt heq
    rw [heq, UInt8.toNat_ofNat', Nat.mod_eq_of_lt hlt]
    exact hn
  have hgt : ¬c.val.toNat ≤ 0x7f := Nat.not_le.mpr hc
  rw [String.utf8EncodeChar, if_neg hgt] at hb
  split at hb
  · simp only [List.mem_cons, List.not_mem_nil, or_false] at hb
    rcases hb with hb | hb
    · exact hbyte _ (by omega) (by omega) hb
    · exact hbyte _ (by omega) (by omega) hb
  split at hb
  · simp only [List.mem_cons, List.not_mem_nil, or_false] at hb
    rcases hb with hb | hb | hb
    · exact hbyte _ (by omega) (by omega) hb
    · exact hbyte _ (by omega) (by omega) hb
    · exact hbyte _ (by omega) (by omega) hb
  · simp only [List.mem_cons, List.not_mem_nil, or_false] at hb
    rcases hb with hb | hb | hb | hb
    · exact hbyte _ (by omega) (by omega) hb
    · exact hbyte _ (by omega) (by omega) hb
    · exact hbyte _ (by omega) (by omega) hb
    · exact hbyte _ (by omega) (by omega) hb

theorem toNat_ofNat_ascii {c : Char} (hc : c.toNat < 128) :
    (UInt8.ofNat c.toNat).toNat = c.toNat := by
  rw [UInt8.toNat_ofNat', Nat.mod_eq_of_lt (by omega)]

theorem utf8_ascii {l : List Char} (hl : ∀ c ∈ l, c.toNat < 128) :
    utf8 (String.ofList l) = asciiBytes l := by
  rw [utf8_ofList]
  induction l with
  | nil => rfl
  | cons c rest ih =>
    rw [List.flatMap_cons, utf8EncodeChar_ascii (hl c List.mem_cons_self),
      ih fun d hd => hl d (List.mem_cons_of_mem c hd)]
    rfl

theorem not_mem_asciiBytes {l : List Char} (hl : ∀ c ∈ l, c.toNat < 128) {d : Char}
    (hd : 128 ≤ d.toNat) {b : UInt8} (hb : b ∈ String.utf8EncodeChar d) : b ∉ asciiBytes l := by
  intro hmem
  obtain ⟨c, hc, rfl⟩ := List.mem_map.mp hmem
  have hlow := not_ascii_of_mem_utf8EncodeChar hd hb
  rw [toNat_ofNat_ascii (hl c hc)] at hlow
  exact absurd (hl c hc) (by omega)

/-- In UTF-8 an ASCII text is found only where it stands. -/
theorem prefix_of_utf8 {l m : List Char} (hl : ∀ c ∈ l, c.toNat < 128)
    (h : asciiBytes l <+: m.flatMap String.utf8EncodeChar) : l <+: m := by
  induction l generalizing m with
  | nil => exact List.nil_prefix
  | cons c l ih =>
    have hc := hl c List.mem_cons_self
    cases m with
    | nil => cases List.prefix_nil.mp h
    | cons d m =>
      rw [List.flatMap_cons] at h
      by_cases hd : d.toNat < 128
      · rw [utf8EncodeChar_ascii hd] at h
        obtain ⟨hbyte, hrest⟩ := List.cons_prefix_cons.mp h
        have hnat := congrArg UInt8.toNat hbyte
        rw [toNat_ofNat_ascii hc, toNat_ofNat_ascii hd] at hnat
        rw [Char.toNat_inj.mp hnat]
        exact List.cons_prefix_cons.mpr
          ⟨rfl, ih (fun e he => hl e (List.mem_cons_of_mem c he)) hrest⟩
      · cases hbytes : String.utf8EncodeChar d with
        | nil => exact absurd hbytes String.utf8EncodeChar_ne_nil
        | cons b bs =>
          rw [hbytes] at h
          have hb : b ∈ String.utf8EncodeChar d := by
            rw [hbytes]
            exact List.mem_cons_self
          refine absurd ?_ (not_mem_asciiBytes hl (Nat.not_lt.mp hd) hb)
          rw [← (List.cons_prefix_cons.mp h).1]
          exact List.mem_cons_self

theorem infix_of_infix_append {α : Type} {k bs r : List α} (hk : k ≠ []) (h : ∀ b ∈ bs, b ∉ k)
    (hinside : k <:+: bs ++ r) : k <:+: r := by
  induction bs with
  | nil => exact hinside
  | cons b bs ih =>
    rcases List.infix_cons_iff.mp hinside with hstart | hlater
    · cases k with
      | nil => exact absurd rfl hk
      | cons x k =>
        exact absurd ((List.cons_prefix_cons.mp hstart).1 ▸ List.mem_cons_self)
          (h b List.mem_cons_self)
    · exact ih (fun c hc => h c (List.mem_cons_of_mem b hc)) hlater

theorem infix_of_utf8 {l : List Char} {s : String} (hl : ∀ c ∈ l, c.toNat < 128)
    (h : asciiBytes l <:+: utf8 s) : l <:+: s.toList := by
  obtain ⟨m, rfl⟩ : ∃ m, s = String.ofList m := ⟨s.toList, String.ofList_toList.symm⟩
  rw [utf8_ofList] at h
  rw [String.toList_ofList]
  by_cases hne : l = []
  · rw [hne]
    exact List.nil_infix
  induction m with
  | nil =>
    exact absurd (List.map_eq_nil_iff.mp (List.infix_nil.mp h)) hne
  | cons d m ih =>
    by_cases hd : d.toNat < 128
    · rw [List.flatMap_cons, utf8EncodeChar_ascii hd] at h
      rcases List.infix_cons_iff.mp h with hstart | hlater
      · refine (prefix_of_utf8 hl ?_).isInfix
        rw [List.flatMap_cons, utf8EncodeChar_ascii hd]
        exact hstart
      · exact (ih hlater).trans (List.suffix_cons d m).isInfix
    · rw [List.flatMap_cons] at h
      refine (ih (infix_of_infix_append (fun hnil => hne (List.map_eq_nil_iff.mp hnil))
        (fun b hb => not_mem_asciiBytes hl (Nat.not_lt.mp hd) hb) h)).trans
        (List.suffix_cons d m).isInfix

theorem utf8_within {l : List Char} {s : String} (hl : ∀ c ∈ l, c.toNat < 128)
    (h : l <:+: s.toList) : asciiBytes l <:+: utf8 s := by
  obtain ⟨a, b, hab⟩ := h
  have hs : s = String.ofList a ++ String.ofList l ++ String.ofList b := by
    rw [← String.ofList_append, ← String.ofList_append, hab, String.ofList_toList]
  rw [hs, utf8_append, utf8_append, utf8_ascii hl]
  exact ⟨_, _, rfl⟩

/-- A byte of ASCII stands in a text only for its character. -/
theorem mem_of_mem_utf8 {c : Char} (hc : c.toNat < 128) {s : String}
    (h : UInt8.ofNat c.toNat ∈ utf8 s) : c ∈ s.toList := by
  have hinside : asciiBytes [c] <:+: utf8 s := by
    obtain ⟨a, b, hab⟩ := List.append_of_mem h
    exact ⟨a, b, by rw [hab, List.append_assoc]; rfl⟩
  have hl : ∀ d ∈ [c], d.toNat < 128 := by
    intro d hd
    rw [List.mem_singleton.mp hd]
    exact hc
  exact (infix_of_utf8 hl hinside).subset List.mem_cons_self

/-- What is checked of each character of a list. -/
theorem forall_chars {p : Char → Prop} [DecidablePred p] {l : List Char}
    (h : (l.all fun c => decide (p c)) = true) : ∀ c ∈ l, p c := fun c hc =>
  of_decide_eq_true (List.all_eq_true.mp h c hc)

/-! ## UTF-16 -/

/-- The code units of a character: its number, or a high and a low surrogate. -/
def units (c : Char) : List Nat :=
  if c.toNat < 0x10000 then [c.toNat]
  else [0xd800 + (c.toNat - 0x10000) / 0x400, 0xdc00 + (c.toNat - 0x10000) % 0x400]

def utf16 (s : String) : List Nat := s.toList.flatMap units

theorem toNat_bounds (c : Char) :
    c.toNat < 0xd800 ∨ 0xdfff < c.toNat ∧ c.toNat < 0x110000 := c.valid

/-- A character can be read off the front of the units. -/
theorem units_append_inj {c d : Char} {l l' : List Nat} (h : units c ++ l = units d ++ l') :
    c = d ∧ l = l' := by
  have hc := toNat_bounds c
  have hd := toNat_bounds d
  suffices hsame : c.toNat = d.toNat ∧ l = l' from
    ⟨Char.ext (UInt32.toNat_inj.mp hsame.1), hsame.2⟩
  unfold units at h
  split at h
  · split at h
    · obtain ⟨hhead, htail⟩ := List.cons.inj h
      exact ⟨hhead, htail⟩
    · -- No character is numbered as a surrogate.
      obtain ⟨hhead, -⟩ := List.cons.inj h
      omega
  · split at h
    · obtain ⟨hhead, -⟩ := List.cons.inj h
      omega
    · obtain ⟨hhigh, hrest⟩ := List.cons.inj h
      obtain ⟨hlow, htail⟩ := List.cons.inj hrest
      exact ⟨by omega, htail⟩

theorem flatMap_units_inj {l l' : List Char} (h : l.flatMap units = l'.flatMap units) : l = l' := by
  have hcons : ∀ c : Char, units c ≠ [] := by
    intro c
    unfold units
    split <;> exact List.cons_ne_nil _ _
  induction l generalizing l' with
  | nil =>
    cases l' with
    | nil => rfl
    | cons d ds =>
      rw [List.flatMap_nil, List.flatMap_cons] at h
      exact absurd (List.append_eq_nil_iff.mp h.symm).1 (hcons d)
  | cons c cs ih =>
    cases l' with
    | nil =>
      rw [List.flatMap_nil, List.flatMap_cons] at h
      exact absurd (List.append_eq_nil_iff.mp h).1 (hcons c)
    | cons d ds =>
      rw [List.flatMap_cons, List.flatMap_cons] at h
      obtain ⟨hc, hcs⟩ := units_append_inj h
      rw [hc, ih hcs]

theorem utf16_injective : Function.Injective utf16 := by
  intro a b h
  exact String.toList_inj.mp (flatMap_units_inj h)

/-- `a < b` of JavaScript strings. -/
def before (a b : String) : Bool := decide (utf16 a < utf16 b)

/-- Two strings of which neither is before the other are equal. -/
theorem eq_of_not_before {a b : String} (hab : before a b = false) (hba : before b a = false) :
    a = b := by
  have hab' : utf16 b ≤ utf16 a := not_lt.mp (of_decide_eq_false hab)
  have hba' : utf16 a ≤ utf16 b := not_lt.mp (of_decide_eq_false hba)
  exact utf16_injective (le_antisymm hba' hab')

theorem before_asymm {a b : String} (h : before a b = true) : before b a = false :=
  decide_eq_false (lt_asymm (of_decide_eq_true h))

/-! ## Hexadecimal and decimal -/

def hexDigit (n : Nat) : Char := Char.ofNat (if n < 10 then 48 + n else 87 + n)

theorem hexDigit_inj : ∀ n < 16, ∀ m < 16, hexDigit n = hexDigit m → n = m := by decide

/-- `buffer.toString('hex')` -/
def hex (bytes : List UInt8) : String :=
  String.ofList (bytes.flatMap fun b => [hexDigit (b.toNat / 16), hexDigit (b.toNat % 16)])

theorem hex_injective : Function.Injective hex := by
  intro a b h
  replace h := String.ofList_injective h
  induction a generalizing b with
  | nil =>
    cases b with
    | nil => rfl
    | cons y ys => cases h
  | cons x xs ih =>
    cases b with
    | nil => cases h
    | cons y ys =>
      obtain ⟨hhigh, hrest⟩ := List.cons.inj h
      obtain ⟨hlow, htail⟩ := List.cons.inj hrest
      have hx := x.toNat_lt
      have hy := y.toNat_lt
      have hdiv := hexDigit_inj (x.toNat / 16) (by omega) (y.toNat / 16) (by omega) hhigh
      have hmod := hexDigit_inj (x.toNat % 16) (by omega) (y.toNat % 16) (by omega) hlow
      have hxy : x = y := UInt8.toNat_inj.mp (by omega)
      rw [hxy, ih htail]

/-- The value of a hexadecimal digit of either case. -/
def hexValue (c : Char) : Option Nat :=
  if '0' ≤ c ∧ c ≤ '9' then some (c.toNat - 48)
  else if 'a' ≤ c ∧ c ≤ 'f' then some (c.toNat - 87)
  else if 'A' ≤ c ∧ c ≤ 'F' then some (c.toNat - 55)
  else none

/-- `Buffer.from(s, 'hex')`, which stops at the first pair that is not of two digits. -/
def fromHexChars : List Char → List UInt8
  | c :: d :: rest =>
    match hexValue c, hexValue d with
    | some high, some low => UInt8.ofNat (16 * high + low) :: fromHexChars rest
    | _, _ => []
  | _ => []

def fromHex (s : String) : List UInt8 := fromHexChars s.toList

theorem fromHex_of_ascii {s : String} (h : (utf8 s).all (· < 128) = true) :
    fromHex s = fromHexChars ((utf8 s).map fun b => Char.ofNat b.toNat) := by
  rw [fromHex, toList_of_ascii h]

/-! ## Base64 -/

/-- The value of a digit of either alphabet. -/
def base64Value (c : Char) : Option Nat :=
  if 'A' ≤ c ∧ c ≤ 'Z' then some (c.toNat - 65)
  else if 'a' ≤ c ∧ c ≤ 'z' then some (c.toNat - 71)
  else if '0' ≤ c ∧ c ≤ '9' then some (c.toNat + 4)
  else if c = '+' ∨ c = '-' then some 62
  else if c = '/' ∨ c = '_' then some 63
  else none

/-- Four digits are three bytes; a last group of two or three digits is one byte less. -/
def packSextets : List Nat → List UInt8
  | a :: b :: c :: d :: rest =>
    UInt8.ofNat (4 * a + b / 16) :: UInt8.ofNat (16 * b + c / 4) :: UInt8.ofNat (64 * c + d) ::
      packSextets rest
  | [a, b, c] => [UInt8.ofNat (4 * a + b / 16), UInt8.ofNat (16 * b + c / 4)]
  | [a, b] => [UInt8.ofNat (4 * a + b / 16)]
  | _ => []

/-- `Buffer.from(s, 'base64')`, which ends at the padding and leaves out what is not a digit. -/
def fromBase64 (s : String) : List UInt8 :=
  packSextets ((s.toList.takeWhile (· ≠ '=')).filterMap base64Value)

def base64Digit (n : Nat) : Char :=
  Char.ofNat (if n < 26 then 65 + n else if n < 52 then 71 + n else if n < 62 then n - 4
    else if n = 62 then 43 else 47)

/-- `buffer.toString('base64')` -/
def toBase64Chars : List UInt8 → List Char
  | a :: b :: c :: rest =>
    base64Digit (a.toNat / 4) :: base64Digit (a.toNat % 4 * 16 + b.toNat / 16) ::
      base64Digit (b.toNat % 16 * 4 + c.toNat / 64) :: base64Digit (c.toNat % 64) ::
      toBase64Chars rest
  | [a, b] => [base64Digit (a.toNat / 4), base64Digit (a.toNat % 4 * 16 + b.toNat / 16),
      base64Digit (b.toNat % 16 * 4), '=']
  | [a] => [base64Digit (a.toNat / 4), base64Digit (a.toNat % 4 * 16), '=', '=']
  | [] => []

def toBase64 (bytes : List UInt8) : String := String.ofList (toBase64Chars bytes)

/-- `s.includes(part)` -/
def includes (s part : String) : Bool := decide (part.toList <:+: s.toList)

/-- `s.split(c)` -/
def split (c : Char) (s : String) : List String := (s.toList.splitOn c).map String.ofList

theorem split_of_ascii {c : Char} {s : String} (h : (utf8 s).all (· < 128) = true) :
    split c s = (((utf8 s).map fun b => Char.ofNat b.toNat).splitOn c).map String.ofList := by
  rw [split, toList_of_ascii h]

/-- `s.startsWith(start)` -/
def startsWith (s start : String) : Bool := decide (start.toList <+: s.toList)

/-- A text is cut where a character stands for the first time in one way only. -/
theorem append_cons_inj {c : Char} {l l' m m' : List Char} (hl : c ∉ l) (hl' : c ∉ l')
    (h : l ++ c :: m = l' ++ c :: m') : l = l' ∧ m = m' := by
  induction l generalizing l' with
  | nil =>
    cases l' with
    | nil => exact ⟨rfl, (List.cons.inj h).2⟩
    | cons d rest => exact absurd ((List.cons.inj h).1 ▸ List.mem_cons_self) hl'
  | cons b rest ih =>
    cases l' with
    | nil => exact absurd ((List.cons.inj h).1 ▸ List.mem_cons_self) hl
    | cons d rest' =>
      obtain ⟨hhead, htail⟩ := List.cons.inj h
      obtain ⟨hrest, hm⟩ := ih (fun hmem => hl (List.mem_cons_of_mem b hmem))
        (fun hmem => hl' (List.mem_cons_of_mem d hmem)) htail
      exact ⟨by rw [hhead, hrest], hm⟩

/-- The same at the last time. -/
theorem append_cons_inj_last {c : Char} {l l' m m' : List Char} (hm : c ∉ m) (hm' : c ∉ m')
    (h : l ++ c :: m = l' ++ c :: m') : l = l' ∧ m = m' := by
  have hreverse : m.reverse ++ c :: l.reverse = m'.reverse ++ c :: l'.reverse := by
    have hback := congrArg List.reverse h
    simpa using hback
  obtain ⟨hmm, hll⟩ := append_cons_inj (mt List.mem_reverse.mp hm) (mt List.mem_reverse.mp hm')
    hreverse
  exact ⟨List.reverse_injective hll, List.reverse_injective hmm⟩

theorem toString_nat_injective : Function.Injective (toString : Nat → String) := by
  intro a b h
  rw [Nat.toString_eq_ofList_toDigits, Nat.toString_eq_ofList_toDigits] at h
  have hdigits := congrArg (Nat.ofDigitChars 10 · 0) (String.ofList_injective h)
  simpa using hdigits

/-- A decimal does not start with a sign. -/
theorem toString_nat_ne_neg (a b : Nat) : toString a ≠ "-" ++ toString b := by
  intro h
  have hmem : '-' ∈ (toString a).toList := by
    rw [h, String.toList_append]
    exact List.mem_append_left _ (by decide)
  rw [Nat.toString_eq_ofList_toDigits, String.toList_ofList] at hmem
  have hdigit := Nat.isDigit_of_mem_toDigits (by omega) (by omega) hmem
  cases hdigit

theorem not_mem_toString_int {c : Char} (hdigit : c.isDigit = false) (hsign : c ≠ '-') (n : Int) :
    c ∉ (toString n).toList := by
  have hnat : ∀ m : Nat, c ∉ (toString m).toList := by
    intro m hmem
    rw [Nat.toString_eq_ofList_toDigits, String.toList_ofList] at hmem
    rw [Nat.isDigit_of_mem_toDigits (by omega) (by omega) hmem] at hdigit
    cases hdigit
  cases n with
  | ofNat m => exact hnat m
  | negSucc m =>
    have htext : toString (Int.negSucc m) = "-" ++ toString (m + 1) := rfl
    rw [htext, String.toList_append]
    intro hmem
    rcases List.mem_append.mp hmem with hmem | hmem
    · exact hsign (by simpa using hmem)
    · exact hnat (m + 1) hmem

theorem toString_int_injective : Function.Injective (toString : Int → String) := by
  have hneg : ∀ n : Nat, toString (Int.negSucc n) = "-" ++ toString (n + 1) := fun _ => rfl
  intro a b h
  cases a with
  | ofNat m =>
    cases b with
    | ofNat n => rw [toString_nat_injective (h : toString m = toString n)]
    | negSucc n =>
      rw [hneg] at h
      exact absurd h (toString_nat_ne_neg m (n + 1))
  | negSucc m =>
    cases b with
    | ofNat n =>
      rw [hneg] at h
      exact absurd h.symm (toString_nat_ne_neg n (m + 1))
    | negSucc n =>
      rw [hneg, hneg] at h
      have hsucc := toString_nat_injective (String.append_right_inj _ |>.mp h)
      rw [Nat.succ.inj hsucc]

end Text
end Linkora

import Linkora.Lib.Double
import Linkora.Lib.Scan

/-!
# JSON

`JSON.parse`, as a recursive descent.  Strings are their UTF-16 code units, since an escape
may be half of a character, and numbers are rounded.  Every level of a value takes a bracket,
so that the length of the text bounds the depth.
-/

namespace Linkora
namespace Json

inductive Value where
  | null
  | bool (b : Bool)
  | number (x : Number)
  | string (units : List Nat)
  | array (items : List Value)
  | object (members : List (List Nat × Value))

/-- A property of an object, which the last member of that name has set. -/
def property (members : List (List Nat × Value)) (name : String) : Option Value :=
  (members.reverse.find? fun m => m.1 = Text.utf16 name).map Prod.snd

def isSpace (c : Char) : Bool := c = ' ' || c = '\t' || c = '\n' || c = '\r'

def dropSpace (l : List Char) : List Char := l.dropWhile isSpace

/-! ## Numbers -/

def readDigits (l : List Char) : Option (List Char × List Char) :=
  if l.takeWhile Char.isDigit = [] then none
  else some (l.takeWhile Char.isDigit, l.dropWhile Char.isDigit)

def readFraction (l : List Char) : Option (List Char × List Char) :=
  if l.head? = some '.' then readDigits l.tail else some ([], l)

def readExponent (l : List Char) : Option (Int × List Char) :=
  if l.head? = some 'e' ∨ l.head? = some 'E' then do
    let signed := Scan.readSign l.tail
    let (digits, l) ← readDigits signed.2
    let e : Int := Nat.ofDigitChars 10 digits 0
    return (if signed.1 = true then -e else e, l)
  else some (0, l)

/-- A zero in front of another digit ends the number, and no text goes on so. -/
def readUnsigned (l : List Char) : Option (Rat × List Char) := do
  let (whole, l) ← readDigits l
  if whole.head? = some '0' ∧ whole.length ≠ 1 then none
  else
    let (fraction, l) ← readFraction l
    let (e, l) ← readExponent l
    return (Nat.ofDigitChars 10 (whole ++ fraction) 0 * 10 ^ (e - fraction.length), l)

def readNumber (l : List Char) : Option (Number × List Char) :=
  if l.head? = some '-' then
    (readUnsigned l.tail).map fun r => (Number.ofRat (-r.1), r.2)
  else (readUnsigned l).map fun r => (Number.ofRat r.1, r.2)

/-! ## Strings -/

def unescape (c : Char) : Option Nat :=
  if c = '"' ∨ c = '\\' ∨ c = '/' then some c.toNat
  else if c = 'b' then some 8
  else if c = 'f' then some 12
  else if c = 'n' then some 10
  else if c = 'r' then some 13
  else if c = 't' then some 9
  else none

def hexUnit (a b c d : Char) : Option Nat := do
  let a ← Text.hexValue a
  let b ← Text.hexValue b
  let c ← Text.hexValue c
  let d ← Text.hexValue d
  return ((a * 16 + b) * 16 + c) * 16 + d

/-- What follows a quotation mark. -/
def readString : List Char → Option (List Nat × List Char)
  | [] => none
  | '"' :: rest => some ([], rest)
  | '\\' :: 'u' :: a :: b :: c :: d :: rest => do
    let unit ← hexUnit a b c d
    let (units, l) ← readString rest
    return (unit :: units, l)
  | '\\' :: c :: rest => do
    let unit ← unescape c
    let (units, l) ← readString rest
    return (unit :: units, l)
  | c :: rest =>
    if c.toNat < 0x20 then none
    else do
      let (units, l) ← readString rest
      return (Text.units c ++ units, l)

/-! ## Values -/

section Descent

variable {α : Type}

/-- The items in front of a closing bracket, of which there is one at least. -/
def readItems (item : List Char → Option (α × List Char)) (close : Char) :
    Nat → List Char → Option (List α × List Char)
  | 0, _ => none
  | fuel + 1, l => do
    let (a, l) ← item l
    match dropSpace l with
    | [] => none
    | c :: rest =>
      if c = ',' then do
        let (as, l) ← readItems item close fuel rest
        return (a :: as, l)
      else if c = close then return ([a], rest)
      else none

def readBracket (item : List Char → Option (α × List Char)) (close : Char) (fuel : Nat)
    (l : List Char) : Option (List α × List Char) :=
  if (dropSpace l).head? = some close then some ([], (dropSpace l).tail)
  else readItems item close fuel l

end Descent

def readMember (value : List Char → Option (Value × List Char)) (l : List Char) :
    Option ((List Nat × Value) × List Char) :=
  if (dropSpace l).head? = some '"' then do
    let (name, l) ← readString (dropSpace l).tail
    if (dropSpace l).head? = some ':' then do
      let (v, l) ← value (dropSpace l).tail
      return ((name, v), l)
    else none
  else none

def readLiteral (l : List Char) : Option (Value × List Char) :=
  if "null".toList <+: l then some (.null, l.drop 4)
  else if "true".toList <+: l then some (.bool true, l.drop 4)
  else if "false".toList <+: l then some (.bool false, l.drop 5)
  else none

def readValue : Nat → List Char → Option (Value × List Char)
  | 0, _ => none
  | fuel + 1, l =>
    match dropSpace l with
    | [] => none
    | c :: rest =>
      if c = '{' then
        (readBracket (readMember (readValue fuel)) '}' fuel rest).map fun r => (.object r.1, r.2)
      else if c = '[' then
        (readBracket (readValue fuel) ']' fuel rest).map fun r => (.array r.1, r.2)
      else if c = '"' then (readString rest).map fun r => (.string r.1, r.2)
      else if c = '-' ∨ c.isDigit = true then
        (readNumber (c :: rest)).map fun r => (.number r.1, r.2)
      else readLiteral (c :: rest)

/-- `JSON.parse(s)`, which throws where there is no value. -/
def parse (l : List Char) : Option Value := do
  let (v, rest) ← readValue (l.length + 1) l
  if dropSpace rest = [] then return v else none

/-! ## The length of the text bounds the depth -/

section Depth

variable {α : Type}

/-- What is read is not nothing. -/
def Shrinks (item : List Char → Option (α × List Char)) : Prop :=
  ∀ {l a r}, item l = some (a, r) → r.length < l.length

theorem length_dropSpace_le (l : List Char) : (dropSpace l).length ≤ l.length :=
  List.length_dropWhile_le _ l

theorem length_tail_lt {l : List Char} {c : Char} (h : l.head? = some c) :
    l.tail.length < l.length := by
  cases l with
  | nil => cases h
  | cons d rest => exact Nat.lt_succ_self _

theorem readDigits_shrinks : Shrinks readDigits := by
  intro l d r h
  rw [readDigits] at h
  split at h
  · cases h
  · rename_i hne
    obtain ⟨rfl, rfl⟩ := Prod.mk.inj (Option.some.inj h)
    have hlength := congrArg List.length
      (List.takeWhile_append_dropWhile (p := Char.isDigit) (l := l))
    rw [List.length_append] at hlength
    have hpos := List.length_pos_iff.mpr hne
    omega

theorem length_readFraction_le {l d r : List Char} (h : readFraction l = some (d, r)) :
    r.length ≤ l.length := by
  rw [readFraction] at h
  split at h
  · rename_i hhead
    exact (Nat.lt_trans (readDigits_shrinks h) (length_tail_lt hhead)).le
  · obtain ⟨-, rfl⟩ := Prod.mk.inj (Option.some.inj h)
    exact Nat.le_refl _

theorem length_readSign_le (l : List Char) : (Scan.readSign l).2.length ≤ l.length := by
  rw [Scan.readSign.eq_def]
  split
  · exact Nat.le_succ _
  · exact Nat.le_succ _
  · exact Nat.le_refl _

theorem length_readExponent_le {l r : List Char} {e : Int} (h : readExponent l = some (e, r)) :
    r.length ≤ l.length := by
  rw [readExponent] at h
  split at h
  · obtain ⟨⟨digits, r'⟩, hdigits, h⟩ := Option.bind_eq_some_iff.mp h
    obtain ⟨-, rfl⟩ := Prod.mk.inj (Option.some.inj h)
    have hshrink := readDigits_shrinks hdigits
    have hsign := length_readSign_le l.tail
    rw [List.length_tail] at hsign
    omega
  · obtain ⟨-, rfl⟩ := Prod.mk.inj (Option.some.inj h)
    exact Nat.le_refl _

theorem readUnsigned_shrinks : Shrinks readUnsigned := by
  intro l q r h
  obtain ⟨⟨whole, l1⟩, hwhole, h⟩ := Option.bind_eq_some_iff.mp h
  dsimp only at h
  split at h
  · cases h
  · obtain ⟨⟨fraction, l2⟩, hfraction, h⟩ := Option.bind_eq_some_iff.mp h
    obtain ⟨⟨e, l3⟩, hexponent, h⟩ := Option.bind_eq_some_iff.mp h
    obtain ⟨-, rfl⟩ := Prod.mk.inj (Option.some.inj h)
    have hone : l1.length < l.length := readDigits_shrinks hwhole
    have htwo : l2.length ≤ l1.length := length_readFraction_le hfraction
    have hthree : l3.length ≤ l2.length := length_readExponent_le hexponent
    show l3.length < l.length
    omega

theorem readNumber_shrinks : Shrinks readNumber := by
  intro l x r h
  rw [readNumber] at h
  split at h
  · rename_i hhead
    obtain ⟨⟨q, r'⟩, hread, heq⟩ := Option.map_eq_some_iff.mp h
    obtain ⟨-, rfl⟩ := Prod.mk.inj heq
    exact Nat.lt_trans (readUnsigned_shrinks hread) (length_tail_lt hhead)
  · obtain ⟨⟨q, r'⟩, hread, heq⟩ := Option.map_eq_some_iff.mp h
    obtain ⟨-, rfl⟩ := Prod.mk.inj heq
    exact readUnsigned_shrinks hread

theorem readString_shrinks : Shrinks readString := by
  intro l
  induction l using readString.induct with
  | case1 =>
    intro u r h
    cases h
  | case2 rest =>
    intro u r h
    obtain ⟨-, rfl⟩ := Prod.mk.inj (Option.some.inj h)
    exact Nat.lt_succ_self _
  | case3 a b c d rest ih =>
    intro u r h
    rw [readString] at h
    obtain ⟨unit, -, h⟩ := Option.bind_eq_some_iff.mp h
    obtain ⟨⟨units, l⟩, hread, h⟩ := Option.bind_eq_some_iff.mp h
    obtain ⟨-, rfl⟩ := Prod.mk.inj (Option.some.inj h)
    have hlt := ih hread
    simp only [List.length_cons]
    omega
  | case4 c rest hne ih =>
    intro u r h
    rw [readString] at h
    · obtain ⟨unit, -, h⟩ := Option.bind_eq_some_iff.mp h
      obtain ⟨⟨units, l⟩, hread, h⟩ := Option.bind_eq_some_iff.mp h
      obtain ⟨-, rfl⟩ := Prod.mk.inj (Option.some.inj h)
      have hlt := ih hread
      simp only [List.length_cons]
      omega
    · exact hne
  | case5 c rest hquote hunit hescape hcontrol =>
    intro u r h
    rw [readString] at h
    · rw [if_pos hcontrol] at h
      cases h
    · exact hquote
    · exact hunit
    · exact hescape
  | case6 c rest hquote hunit hescape hcontrol ih =>
    intro u r h
    rw [readString] at h
    · rw [if_neg hcontrol] at h
      obtain ⟨⟨units, l⟩, hread, h⟩ := Option.bind_eq_some_iff.mp h
      obtain ⟨-, rfl⟩ := Prod.mk.inj (Option.some.inj h)
      exact Nat.lt_succ_of_lt (ih hread)
    · exact hquote
    · exact hunit
    · exact hescape

theorem readItems_shrinks {item : List Char → Option (α × List Char)} (hitem : Shrinks item)
    (close : Char) (fuel : Nat) : Shrinks (readItems item close fuel) := by
  induction fuel with
  | zero =>
    intro l as r h
    cases h
  | succ fuel ih =>
    intro l as r h
    rw [readItems] at h
    obtain ⟨⟨a, l1⟩, ha, h⟩ := Option.bind_eq_some_iff.mp h
    have hone := hitem ha
    have hspace := length_dropSpace_le l1
    dsimp only at h
    split at h
    · cases h
    · rename_i c rest hrest
      rw [hrest, List.length_cons] at hspace
      split at h
      · obtain ⟨⟨as', l2⟩, has, h⟩ := Option.bind_eq_some_iff.mp h
        obtain ⟨-, rfl⟩ := Prod.mk.inj (Option.some.inj h)
        have hmore := ih has
        show l2.length < l.length
        omega
      · split at h
        · obtain ⟨-, rfl⟩ := Prod.mk.inj (Option.some.inj h)
          omega
        · cases h

theorem readBracket_shrinks {item : List Char → Option (α × List Char)} (hitem : Shrinks item)
    (close : Char) (fuel : Nat) : Shrinks (readBracket item close fuel) := by
  intro l as r h
  rw [readBracket] at h
  split at h
  · rename_i hhead
    obtain ⟨-, rfl⟩ := Prod.mk.inj (Option.some.inj h)
    exact Nat.lt_of_lt_of_le (length_tail_lt hhead) (length_dropSpace_le l)
  · exact readItems_shrinks hitem close fuel h

theorem readMember_shrinks {value : List Char → Option (Value × List Char)}
    (hvalue : Shrinks value) : Shrinks (readMember value) := by
  intro l m r h
  rw [readMember] at h
  split at h
  · rename_i hquote
    obtain ⟨⟨name, l1⟩, hname, h⟩ := Option.bind_eq_some_iff.mp h
    dsimp only at h
    split at h
    · rename_i hcolon
      obtain ⟨⟨v, l2⟩, hv, h⟩ := Option.bind_eq_some_iff.mp h
      obtain ⟨-, rfl⟩ := Prod.mk.inj (Option.some.inj h)
      have hone := length_tail_lt hquote
      have htwo := readString_shrinks hname
      have hthree := length_tail_lt hcolon
      have hfour := hvalue hv
      have hspace := length_dropSpace_le l
      have hspace' := length_dropSpace_le l1
      show l2.length < l.length
      omega
    · cases h
  · cases h

theorem readLiteral_shrinks : Shrinks readLiteral := by
  intro l v r h
  have hdrop : ∀ word : List Char, ∀ k, 0 < k → k = word.length → word <+: l →
      (l.drop k).length < l.length := by
    intro word k hk hlength hword
    have hle := hword.length_le
    rw [List.length_drop]
    omega
  rw [readLiteral] at h
  split at h
  · rename_i hword
    obtain ⟨-, rfl⟩ := Prod.mk.inj (Option.some.inj h)
    exact hdrop _ 4 (by omega) rfl hword
  split at h
  · rename_i hword
    obtain ⟨-, rfl⟩ := Prod.mk.inj (Option.some.inj h)
    exact hdrop _ 4 (by omega) rfl hword
  split at h
  · rename_i hword
    obtain ⟨-, rfl⟩ := Prod.mk.inj (Option.some.inj h)
    exact hdrop _ 5 (by omega) rfl hword
  · cases h

theorem readValue_shrinks (fuel : Nat) : Shrinks (readValue fuel) := by
  induction fuel with
  | zero =>
    intro l v r h
    cases h
  | succ fuel ih =>
    intro l v r h
    have hspace := length_dropSpace_le l
    rw [readValue] at h
    split at h
    · cases h
    rename_i c rest hrest
    rw [hrest, List.length_cons] at hspace
    have hmap : ∀ {β : Type} {read : List Char → Option (β × List Char)} {f : β → Value}
        {l' : List Char}, Shrinks read → l'.length ≤ rest.length + 1 →
        (read l').map (fun x => (f x.1, x.2)) = some (v, r) → r.length < l.length := by
      intro β read f l' hread hle hsome
      obtain ⟨⟨b, r'⟩, hb, heq⟩ := Option.map_eq_some_iff.mp hsome
      obtain ⟨-, rfl⟩ := Prod.mk.inj heq
      have hlt := hread hb
      show r'.length < l.length
      omega
    split at h
    · exact hmap (readBracket_shrinks (readMember_shrinks ih) _ fuel) (Nat.le_succ _) h
    split at h
    · exact hmap (readBracket_shrinks ih _ fuel) (Nat.le_succ _) h
    split at h
    · exact hmap readString_shrinks (Nat.le_succ _) h
    split at h
    · exact hmap readNumber_shrinks (Nat.le_refl _) h
    · exact Nat.lt_of_lt_of_le (readLiteral_shrinks h) hspace

variable {item item' : List Char → Option (α × List Char)} {n : Nat}

theorem readItems_congr (hitem : Shrinks item) (heq : ∀ l, l.length < n → item l = item' l)
    (close : Char) {fuel fuel' : Nat} {l : List Char} (hn : l.length < n)
    (hfuel : l.length < fuel) (hfuel' : l.length < fuel') :
    readItems item close fuel l = readItems item' close fuel' l := by
  induction fuel generalizing fuel' l with
  | zero => exact absurd hfuel (Nat.not_lt_zero _)
  | succ fuel ih =>
    obtain ⟨k, rfl⟩ : ∃ k, fuel' = k + 1 := ⟨fuel' - 1, by omega⟩
    rw [readItems, readItems, ← heq l hn]
    cases ha : item l with
    | none => rfl
    | some r =>
      obtain ⟨a, l1⟩ := r
      have hshrink : l1.length < l.length := hitem ha
      have hspace := length_dropSpace_le l1
      simp only [Option.bind_eq_bind, Option.bind_some]
      cases hrest : dropSpace l1 with
      | nil => rfl
      | cons c rest =>
        rw [hrest, List.length_cons] at hspace
        have hmore : readItems item close fuel rest = readItems item' close k rest :=
          ih (by omega) (by omega) (by omega)
        dsimp only
        rw [hmore]

theorem readBracket_congr (hitem : Shrinks item) (heq : ∀ l, l.length < n → item l = item' l)
    (close : Char) {fuel fuel' : Nat} {l : List Char} (hn : l.length < n)
    (hfuel : l.length < fuel) (hfuel' : l.length < fuel') :
    readBracket item close fuel l = readBracket item' close fuel' l := by
  rw [readBracket, readBracket, readItems_congr hitem heq close hn hfuel hfuel']

theorem readMember_congr {value value' : List Char → Option (Value × List Char)}
    (heq : ∀ l, l.length < n → value l = value' l) {l : List Char} (hn : l.length < n) :
    readMember value l = readMember value' l := by
  rw [readMember, readMember]
  split
  · rename_i hquote
    cases hname : readString (dropSpace l).tail with
    | none => rfl
    | some r =>
      obtain ⟨name, l1⟩ := r
      have hone := length_tail_lt hquote
      have htwo : l1.length < (dropSpace l).tail.length := readString_shrinks hname
      have hspace := length_dropSpace_le l
      have hspace' := length_dropSpace_le l1
      simp only [Option.bind_eq_bind, Option.bind_some]
      rw [heq (dropSpace l1).tail (by rw [List.length_tail]; omega)]
  · rfl

/-- More steps than the text is long change nothing. -/
theorem readValue_fuel {fuel fuel' : Nat} {l : List Char} (hfuel : l.length < fuel)
    (hfuel' : l.length < fuel') : readValue fuel l = readValue fuel' l := by
  induction fuel generalizing fuel' l with
  | zero => exact absurd hfuel (Nat.not_lt_zero _)
  | succ fuel ih =>
    obtain ⟨k, rfl⟩ : ∃ k, fuel' = k + 1 := ⟨fuel' - 1, by omega⟩
    have hspace := length_dropSpace_le l
    have hshorter : ∀ l', l'.length < l.length → readValue fuel l' = readValue k l' := by
      intro l' hlt
      exact ih (by omega) (by omega)
    rw [readValue, readValue]
    cases hrest : dropSpace l with
    | nil => rfl
    | cons c rest =>
      rw [hrest, List.length_cons] at hspace
      have hmembers : readBracket (readMember (readValue fuel)) '\x7d' fuel rest =
          readBracket (readMember (readValue k)) '\x7d' k rest :=
        readBracket_congr (readMember_shrinks (readValue_shrinks fuel))
          (fun l' hl' => readMember_congr hshorter hl') _ (by omega) (by omega) (by omega)
      have hitems : readBracket (readValue fuel) ']' fuel rest =
          readBracket (readValue k) ']' k rest :=
        readBracket_congr (readValue_shrinks fuel) hshorter _ (by omega) (by omega) (by omega)
      dsimp only
      rw [hmembers, hitems]

theorem parse_fuel {l : List Char} {fuel : Nat} (hfuel : l.length < fuel) :
    parse l = (readValue fuel l).bind fun r => if dropSpace r.2 = [] then some r.1 else none := by
  rw [parse, readValue_fuel (Nat.lt_succ_self _) hfuel]
  rfl

end Depth

/-! ## What is written is read -/

theorem head_toString {n : Nat} (hn : 0 < n) : (toString n).toList.head? ≠ some '0' := by
  rw [Nat.toString_eq_ofList_toDigits, String.toList_ofList]
  induction n using Nat.strongRecOn with
  | ind n ih =>
    by_cases hlt : n < 10
    · rw [Nat.toDigits_of_lt_base hlt]
      have hdigit : ∀ n < 10, 0 < n → [n.digitChar].head? ≠ some '0' := by decide
      exact hdigit n hlt hn
    · rw [Nat.toDigits_of_base_le (by decide) (Nat.le_of_not_lt hlt),
        List.head?_append_of_ne_nil _ Nat.toDigits_ne_nil]
      exact ih (n / 10) (by omega) (by omega)

/-- A number that is written without sign, fraction and exponent. -/
theorem readNumber_toString (n : Nat) {c : Char} (hc : c.isDigit = false)
    (hnone : c ≠ '.' ∧ c ≠ 'e' ∧ c ≠ 'E') (rest : List Char) :
    readNumber ((toString n).toList ++ c :: rest) = some (Number.ofRat n, c :: rest) := by
  have hdigits : ∀ d ∈ (toString n).toList, d.isDigit = true := fun d =>
    Scan.isDigit_of_mem_toString
  have hne := Scan.toString_toList_ne n
  have hvalue : Nat.ofDigitChars 10 (toString n).toList 0 = n := by
    rw [Nat.toString_eq_ofList_toDigits, String.toList_ofList]
    simp
  have hzero : ¬((toString n).toList.head? = some '0' ∧ (toString n).toList.length ≠ 1) := by
    rintro ⟨hhead, hlength⟩
    rcases Nat.eq_zero_or_pos n with rfl | hpos
    · exact hlength rfl
    · exact head_toString hpos hhead
  generalize (toString n).toList = l at hdigits hne hvalue hzero
  have hread : readDigits (l ++ c :: rest) = some (l, c :: rest) := by
    have htake : (l ++ c :: rest).takeWhile Char.isDigit = l := by
      rw [List.takeWhile_append_of_pos hdigits,
        List.takeWhile_cons_of_neg (by rw [hc]; exact Bool.false_ne_true), List.append_nil]
    have hdrop : (l ++ c :: rest).dropWhile Char.isDigit = c :: rest := by
      rw [List.dropWhile_append_of_pos hdigits,
        List.dropWhile_cons_of_neg (by rw [hc]; exact Bool.false_ne_true)]
    rw [readDigits, htake, hdrop, if_neg hne]
  have hunsigned : readUnsigned (l ++ c :: rest) = some ((n : Rat), c :: rest) := by
    have hfraction : readFraction (c :: rest) = some ([], c :: rest) := by
      rw [readFraction, if_neg (by simpa using hnone.1)]
    have hexponent : readExponent (c :: rest) = some (0, c :: rest) := by
      rw [readExponent, if_neg (by simpa using hnone.2)]
    simp only [readUnsigned, hread, Option.bind_eq_bind, Option.bind_some]
    rw [if_neg hzero]
    simp only [hfraction, hexponent, Option.bind_some, List.append_nil, hvalue]
    simp
  have hsign : (l ++ c :: rest).head? ≠ some '-' := by
    rw [List.head?_append_of_ne_nil _ hne]
    intro hhead
    exact absurd (hdigits _ (List.mem_of_mem_head? hhead)) (by decide)
  rw [readNumber, if_neg hsign, hunsigned]
  rfl

theorem dropSpace_cons {c : Char} (h : isSpace c = false) (rest : List Char) :
    dropSpace (c :: rest) = c :: rest :=
  List.dropWhile_cons_of_neg (by rw [h]; exact Bool.false_ne_true)

theorem digit_marks {c : Char} (h : c.isDigit = true) :
    isSpace c = false ∧ c ≠ '\x7b' ∧ c ≠ '[' ∧ c ≠ '"' := by
  have hne : ∀ d : Char, d.isDigit = false → c ≠ d := fun d hd heq => by
    rw [heq, hd] at h
    cases h
  refine ⟨?_, hne _ (by decide), hne _ (by decide), hne _ (by decide)⟩
  simp [isSpace, hne ' ' (by decide), hne '\t' (by decide), hne '\n' (by decide),
    hne '\r' (by decide)]

theorem readValue_toString (fuel n : Nat) {c : Char} (hc : c.isDigit = false)
    (hnone : c ≠ '.' ∧ c ≠ 'e' ∧ c ≠ 'E') (rest : List Char) :
    readValue (fuel + 1) ((toString n).toList ++ c :: rest) =
      some (.number (Number.ofRat n), c :: rest) := by
  have hnumber := readNumber_toString n hc hnone rest
  obtain ⟨d, l, hl⟩ := List.exists_cons_of_ne_nil (Scan.toString_toList_ne n)
  have hd : d.isDigit = true := Scan.isDigit_of_mem_toString (by rw [hl]; exact List.mem_cons_self)
  obtain ⟨hspace, hbrace, hbracket, hquote⟩ := digit_marks hd
  rw [hl, List.cons_append] at hnumber ⊢
  rw [readValue, dropSpace_cons hspace]
  simp only [hbrace, hbracket, hquote, hd, hnumber, if_false, or_true, if_true, Option.map_some]

/-- A member whose value is such a number. -/
theorem readMember_toString (fuel n : Nat) {name : List Char} {units : List Nat}
    (hname : ∀ l, readString (name ++ '"' :: l) = some (units, l)) {c : Char}
    (hc : c.isDigit = false) (hnone : c ≠ '.' ∧ c ≠ 'e' ∧ c ≠ 'E') (rest : List Char) :
    readMember (readValue (fuel + 1))
        ('"' :: (name ++ '"' :: ':' :: ((toString n).toList ++ c :: rest))) =
      some ((units, .number (Number.ofRat n)), c :: rest) := by
  have hcolon : dropSpace (':' :: ((toString n).toList ++ c :: rest)) =
      ':' :: ((toString n).toList ++ c :: rest) := dropSpace_cons rfl _
  rw [readMember, dropSpace_cons rfl, List.head?_cons, if_pos rfl, List.tail_cons, hname]
  simp only [Option.bind_eq_bind, Option.bind_some]
  rw [hcolon, List.head?_cons, if_pos rfl, List.tail_cons, readValue_toString fuel n hc hnone]
  rfl

end Json
end Linkora

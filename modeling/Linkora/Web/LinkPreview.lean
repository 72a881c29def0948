import Mathlib
import Linkora.Lib.Hosts

/-!
# Link previews

`shouldFetchPreview` keeps the preview of a link from reaching internal addresses: it looks at
the host name that `new URL` makes of the link, for IPv4 addresses by their parts and for IPv6
addresses by the beginning of their text.
-/

namespace Linkora
namespace Web

open Hosts

/-! ## The checks -/

/-- `/^0x[0-9a-f]+$/i` -/
def isHexForm : List Char → Bool
  | '0' :: 'x' :: rest | '0' :: 'X' :: rest => rest != [] && rest.all (Scan.inBase 16)
  | _ => false

/-- `/^0[0-7]*$/` -/
def isOctalForm : List Char → Bool
  | '0' :: rest => rest.all (Scan.inBase 8)
  | _ => false

/-- `/^\d+$/` -/
def isDecimalForm (l : List Char) : Bool := l != [] && l.all Char.isDigit

/-- The test of a packed address, whose octal form has a digit more. -/
def isPacked (l : List Char) : Bool :=
  isHexForm l || (isOctalForm l && decide (1 < l.length)) || isDecimalForm l

/-- The test of a part of a dotted one. -/
def isPart (l : List Char) : Bool := isHexForm l || isOctalForm l || isDecimalForm l

def dotted (parts : List Nat) : String := ".".intercalate (parts.map toString)

/-- A packed address as a number; `parseInt` in base 8 stops at the `X` of `0X`. -/
def packedNumber (l : List Char) : Option Nat :=
  match l with
  | '0' :: 'x' :: rest => some (Scan.digitsValue 16 rest)
  | '0' :: _ => Scan.parseRadix 8 l
  | _ => some (Scan.digitsValue 10 l)

def octet (l : List Char) : Option Nat :=
  match l with
  | '0' :: 'x' :: rest | '0' :: 'X' :: rest => Scan.parseRadix 16 rest
  | '0' :: _ :: _ => Scan.parseRadix 8 l
  | _ => Scan.parseRadix 10 l

/-- The zeros of a short form stand before its last part. -/
def padOctets (octets : List Nat) : List Nat :=
  octets.dropLast ++ List.replicate (4 - octets.length) 0 ++ octets.getLast?.toList

def stripDot (l : List Char) : List Char := if l.getLast? = some '.' then l.dropLast else l

def normaliseIPv4 (hostname : String) : Option String :=
  let h := stripDot hostname.toList
  if isPacked h = true then
    match packedNumber h with
    | none => none
    | some n =>
      if 0xffffffff < n then none
      else some (dotted [n / 2 ^ 24 % 256, n / 2 ^ 16 % 256, n / 2 ^ 8 % 256, n % 256])
  else
    let parts := h.splitOn '.'
    if parts.length < 1 ∨ 4 < parts.length then none
    else if parts.all isPart = false then none
    else
      match parts.mapM octet with
      | none => none
      | some octets =>
        if octets.any (255 < ·) = true then none else some (dotted (padOctets octets))

/-- `Number(s)` of decimal digits. -/
def numberOf (s : String) : Option Nat :=
  if s = "" then some 0
  else if s.toList.all Char.isDigit = true then some (Scan.digitsValue 10 s.toList)
  else none

/-- `low <= n && n <= high`, which fails for `NaN`. -/
def within (low high : Nat) (n : Option Nat) : Bool := n.any fun n => low ≤ n && n ≤ high

def isPrivateIPv4 (dotted : String) : Bool :=
  match (Text.split '.' dotted).map numberOf with
  | a :: b :: rest =>
    let c := rest.headD none
    a == some 0 || a == some 10 || a == some 127 || (a == some 169 && b == some 254) ||
      (a == some 172 && within 16 31 b) || (a == some 192 && b == some 168) ||
      (a == some 198 && (b == some 18 || b == some 19)) ||
      (a == some 203 && b == some 0 && c == some 113) || (a == some 100 && within 64 127 b) ||
      (a == some 192 && b == some 0 && c == some 0) ||
      (a == some 192 && b == some 0 && c == some 2) ||
      (a == some 198 && b == some 51 && c == some 100) ||
      (a == some 233 && b == some 252 && c == some 0) || a.any (224 ≤ ·) ||
      dotted == "255.255.255.255"
  | _ => false

/-- Without the brackets that the parser adds. -/
def stripBrackets (l : List Char) : List Char :=
  if l.head? = some '[' ∧ l.getLast? = some ']' then l.tail.dropLast else l

/-- The tests of the text of an IPv6 address. -/
def isPrivateIPv6 (ipv6 : List Char) : Bool :=
  ["::1".toList, "::".toList, "0:0:0:0:0:0:0:1".toList].contains ipv6 ||
    [['f', 'c'], ['f', 'd'], ['f', 'e', '8', '0']].any fun start =>
      start.isPrefixOf (ipv6.map Char.toLower)

def isPrivateHost (hostname : String) : Bool :=
  if hostname = "localhost" ∨ hostname = "0.0.0.0" then true
  else if isPrivateIPv6 (stripBrackets hostname.toList) = true then true
  else
    match normaliseIPv4 hostname with
    | some normalised => isPrivateIPv4 normalised
    | none => false

/-- With what `new URL` makes of a text; `none` if it throws. -/
def shouldFetchPreview (newURL : String → Option Url) (url : String) : Bool :=
  match newURL url with
  | none => false
  | some parsed =>
    if isWeb parsed.protocol = false then false
    else if isPrivateHost parsed.hostname = true then false
    else true

/-! ## What the checks are for -/

/-- The ranges of addresses that are not reached over the internet. -/
def internalBlocks : List (Ipv4 × Nat) :=
  [(⟨0, 0, 0, 0⟩, 8), (⟨10, 0, 0, 0⟩, 8), (⟨127, 0, 0, 0⟩, 8), (⟨169, 254, 0, 0⟩, 16),
    (⟨172, 16, 0, 0⟩, 12), (⟨192, 168, 0, 0⟩, 16), (⟨198, 18, 0, 0⟩, 15),
    (⟨203, 0, 113, 0⟩, 24), (⟨100, 64, 0, 0⟩, 10), (⟨192, 0, 0, 0⟩, 24), (⟨192, 0, 2, 0⟩, 24),
    (⟨198, 51, 100, 0⟩, 24), (⟨233, 252, 0, 0⟩, 24), (⟨224, 0, 0, 0⟩, 4), (⟨240, 0, 0, 0⟩, 4)]

def Internal4 (x : Ipv4) : Prop := ∃ block ∈ internalBlocks, x.InBlock block

/-- The IPv4 address in the last two pieces of a mapped one. -/
def embedded (g h : Nat) : Ipv4 :=
  ⟨Fin.ofNat 256 (g / 256), Fin.ofNat 256 g, Fin.ofNat 256 (h / 256), Fin.ofNat 256 h⟩

/-- Loopback, unspecified, `fc00::/7`, `fe80::/10`, or mapped from an internal address. -/
inductive Internal6 (x : Ipv6) : Prop where
  | loopback (h : x.pieces = [0, 0, 0, 0, 0, 0, 0, 1])
  | unspecified (h : x.pieces = [0, 0, 0, 0, 0, 0, 0, 0])
  | uniqueLocal (p : Nat) (h : x.pieces.head? = some p) (hp : p / 2 ^ 9 = 0xfc00 / 2 ^ 9)
  | linkLocal (p : Nat) (h : x.pieces.head? = some p) (hp : p / 2 ^ 6 = 0xfe80 / 2 ^ 6)
  | mapped (g k : Nat) (h : x.pieces = [0, 0, 0, 0, 0, 0xffff, g, k])
      (hinternal : Internal4 (embedded g k))

/-- The preview of a link to an address is fetched only if the address is not internal, and
that of a link to a name other than `localhost` is fetched. -/
def Guarded (newURL : String → Option Url) (url : String) : Prop :=
  ∀ parsed, newURL url = some parsed → isWeb parsed.protocol = true →
    match parsed.host with
    | .ipv4 x => shouldFetchPreview newURL url = true → ¬Internal4 x
    | .ipv6 x => shouldFetchPreview newURL url = true → ¬Internal6 x
    | .domain d => d.text ≠ "localhost" → shouldFetchPreview newURL url = true
    | .other _ => True

/-- The hosts that the checks are right about. -/
def Understood : Host → Prop
  | .ipv4 _ => True
  | .ipv6 x => (∀ p, x.pieces.head? = some p → ¬(0xfe81 ≤ p ∧ p ≤ 0xfebf)) ∧
    ∀ g k, x.pieces = [0, 0, 0, 0, 0, 0xffff, g, k] → ¬Internal4 (embedded g k)
  | .domain d => ¬(['f', 'c'] <+: d.text.toList ∨ ['f', 'd'] <+: d.text.toList ∨
      ['f', 'e', '8', '0'] <+: d.text.toList)
  | .other _ => True

/-! ## Names are not IPv4 addresses -/

theorem isDigit_of_inBase_eight {c : Char} (h : Scan.inBase 8 c = true) : c.isDigit = true := by
  rw [Scan.inBase, Text.hexValue] at h
  by_cases hdigit : '0' ≤ c ∧ c ≤ '9'
  · exact Bool.and_eq_true_iff.mpr ⟨decide_eq_true hdigit.1, decide_eq_true hdigit.2⟩
  rw [if_neg hdigit] at h
  by_cases hlower : 'a' ≤ c ∧ c ≤ 'f'
  · rw [if_pos hlower] at h
    have hle : 97 ≤ c.toNat := hlower.1
    have hlt := of_decide_eq_true h
    omega
  rw [if_neg hlower] at h
  by_cases hupper : 'A' ≤ c ∧ c ≤ 'F'
  · rw [if_pos hupper] at h
    have hle : 65 ≤ c.toNat := hupper.1
    have hlt := of_decide_eq_true h
    omega
  · rw [if_neg hupper] at h
    cases h

theorem isHexForm_cases {l : List Char} (h : isHexForm l = true) :
    ∃ x rest, l = '0' :: x :: rest ∧ (x = 'x' ∨ x = 'X') ∧
      rest.all (Scan.inBase 16) = true := by
  rw [isHexForm.eq_def] at h
  split at h
  · rename_i rest
    exact ⟨'x', rest, rfl, .inl rfl, (Bool.and_eq_true_iff.mp h).2⟩
  · rename_i rest
    exact ⟨'X', rest, rfl, .inr rfl, (Bool.and_eq_true_iff.mp h).2⟩
  · cases h

/-- A part is a number of the standard. -/
theorem number_of_isPart {l : List Char} (h : isPart l = true) :
    l ≠ [] ∧ (l.all Char.isDigit = true ∨ isIpv4Number l = true) := by
  rw [isPart, Bool.or_eq_true, Bool.or_eq_true] at h
  rcases h with (hhex | hoctal) | hdecimal
  · obtain ⟨x, rest, rfl, rfl | rfl, hrest⟩ := isHexForm_cases hhex
    · exact ⟨List.cons_ne_nil _ _, .inr hrest⟩
    · exact ⟨List.cons_ne_nil _ _, .inr hrest⟩
  · rw [isOctalForm.eq_def] at hoctal
    split at hoctal
    · rename_i rest
      refine ⟨List.cons_ne_nil _ _, .inl ?_⟩
      rw [List.all_cons]
      refine Bool.and_eq_true_iff.mpr ⟨by decide, List.all_eq_true.mpr fun c hc => ?_⟩
      exact isDigit_of_inBase_eight (List.all_eq_true.mp hoctal c hc)
    · cases hoctal
  · obtain ⟨hne, hall⟩ := Bool.and_eq_true_iff.mp hdecimal
    exact ⟨bne_iff_ne.mp hne, .inl hall⟩

theorem dot_not_mem_of_isPart {l : List Char} (h : isPart l = true) : '.' ∉ l := by
  rw [isPart, Bool.or_eq_true, Bool.or_eq_true] at h
  rcases h with (hhex | hoctal) | hdecimal
  · obtain ⟨x, rest, rfl, hx, hrest⟩ := isHexForm_cases hhex
    simp only [List.mem_cons]
    rintro (hdot | rfl | hdot)
    · cases hdot
    · rcases hx with hx | hx
      · cases hx
      · cases hx
    · cases List.all_eq_true.mp hrest _ hdot
  · rw [isOctalForm.eq_def] at hoctal
    split at hoctal
    · rintro (_ | ⟨_, hdot⟩)
      cases List.all_eq_true.mp hoctal _ hdot
    · cases hoctal
  · intro hdot
    cases List.all_eq_true.mp (Bool.and_eq_true_iff.mp hdecimal).2 _ hdot

theorem isPart_of_isPacked {l : List Char} (h : isPacked l = true) : isPart l = true := by
  rw [isPacked, Bool.or_eq_true, Bool.or_eq_true, Bool.and_eq_true] at h
  rw [isPart, Bool.or_eq_true, Bool.or_eq_true]
  exact h.imp_left (Or.imp_right And.left)

/-- One part that is not a number is enough for a name. -/
theorem normaliseIPv4_eq_none {hostname : String} {part : List Char}
    (hmem : part ∈ (stripDot hostname.toList).splitOn '.') (hpart : isPart part = false) :
    normaliseIPv4 hostname = none := by
  simp only [normaliseIPv4]
  have hpacked : ¬isPacked (stripDot hostname.toList) = true := by
    intro h
    have hall := isPart_of_isPacked h
    rw [List.splitOn_eq_singleton (dot_not_mem_of_isPart hall), List.mem_singleton] at hmem
    rw [hmem, hall] at hpart
    cases hpart
  have hparts : ((stripDot hostname.toList).splitOn '.').all isPart = false := by
    rw [Bool.eq_false_iff]
    intro h
    rw [List.all_eq_true.mp h part hmem] at hpart
    cases hpart
  rw [if_neg hpacked, if_pos hparts, ite_self]

/-- The last part of a name is the last one that the standard looks at. -/
theorem normaliseIPv4_domain (d : Domain) : normaliseIPv4 d.text = none := by
  have hlast : ∃ part, ((stripDot d.text.toList).splitOn '.').getLast? = some part :=
    ⟨_, List.getLast?_eq_some_getLast (List.splitOn_ne_nil _ _)⟩
  obtain ⟨part, hpart⟩ := hlast
  refine normaliseIPv4_eq_none (List.mem_of_getLast? hpart) (Bool.eq_false_iff.mpr fun h => ?_)
  obtain ⟨hne, hnumber⟩ := number_of_isPart h
  have hnot := d.notNumber
  rw [stripDot] at hpart
  have hnamed : (let parts := d.text.toList.splitOn '.'
      if parts.getLast? = some [] then parts.dropLast else parts).getLast? = some part := by
    split at hpart
    · rename_i hdot
      have hlist : d.text.toList = d.text.toList.dropLast ++ '.' :: [] :=
        (List.dropLast_append_getLast? _ hdot).symm
      have hsplit : d.text.toList.splitOn '.' = d.text.toList.dropLast.splitOn '.' ++ [[]] := by
        conv_lhs => rw [hlist, List.splitOn_append_cons_self]
        rfl
      simp only [hsplit, List.getLast?_concat, List.dropLast_concat, if_true]
      exact hpart
    · simp only [hpart, Option.some.injEq, if_neg hne]
  rw [endsInANumber] at hnot
  simp only at hnamed hnot
  rw [hnamed] at hnot
  simp only [Bool.or_eq_false_iff, Bool.and_eq_false_iff, bne_eq_false_iff_eq] at hnot
  rcases hnumber with hdigits | hstandard
  · rcases hnot.1 with hnil | hsome
    · exact hne hnil
    · rw [hdigits] at hsome
      cases hsome
  · rw [hstandard] at hnot
    cases hnot.2

/-! ## IPv4 addresses -/

theorem octet_of_head {l : List Char} (h : l.head? ≠ some '0') :
    octet l = Scan.parseRadix 10 l := by
  unfold octet
  split
  · exact absurd rfl h
  · exact absurd rfl h
  · exact absurd rfl h
  · rfl

theorem octet_toString (n : Nat) : octet (toString n).toList = some n := by
  by_cases hn : n = 0
  · rw [hn]
    rfl
  · rw [octet_of_head (Scan.head_toString (by omega)), Scan.parseRadix_toString]

theorem isDecimalForm_toString (n : Nat) : isDecimalForm (toString n).toList = true := by
  refine Bool.and_eq_true_iff.mpr ⟨bne_iff_ne.mpr (Scan.toString_toList_ne n), ?_⟩
  exact List.all_eq_true.mpr fun c hc => Scan.isDigit_of_mem_toString hc

theorem numberOf_toString (n : Nat) : numberOf (toString n) = some n := by
  have hne : toString n ≠ "" := fun h => Scan.toString_toList_ne n (by rw [h, String.toList_empty])
  rw [numberOf, if_neg hne, if_pos, Scan.digitsValue_toString]
  exact List.all_eq_true.mpr fun c hc => Scan.isDigit_of_mem_toString hc

variable (x : Ipv4)

theorem stripDot_text : stripDot x.text.toList = x.text.toList := by
  rw [stripDot, if_neg]
  intro hlast
  have hlist : x.text.toList = ((toString x.a.val).toList ++ '.' :: ((toString x.b.val).toList ++
      '.' :: ((toString x.c.val).toList ++ ['.']))) ++ (toString x.d.val).toList := by
    simp [x.text_toList]
  rw [hlist, List.getLast?_append_of_ne_nil _ (Scan.toString_toList_ne _)] at hlast
  exact Scan.not_mem_toString rfl (List.mem_of_getLast? hlast)

theorem isPacked_text : isPacked x.text.toList = false := by
  rw [Bool.eq_false_iff]
  intro h
  apply dot_not_mem_of_isPart (isPart_of_isPacked h)
  rw [x.text_toList]
  exact List.mem_append_right _ List.mem_cons_self

theorem normaliseIPv4_text : normaliseIPv4 x.text = some x.text := by
  have hpart : ∀ n, isPart (toString (n : Nat)).toList = true := by
    intro n
    rw [isPart, isDecimalForm_toString, Bool.or_true]
  have hle : ∀ n : Fin 256, decide (255 < n.val) = false := by
    intro n
    exact decide_eq_false (by omega)
  simp only [normaliseIPv4, stripDot_text, isPacked_text, Ipv4.splitOn_text]
  rw [if_neg Bool.false_ne_true, if_neg (by simp), if_neg]
  swap
  · simp only [List.all_cons, hpart, List.all_nil, Bool.and_true, Bool.true_eq_false,
      not_false_eq_true]
  simp only [List.mapM_cons, List.mapM_nil, octet_toString]
  show (if [x.a.val, x.b.val, x.c.val, x.d.val].any (255 < ·) = true then none
    else some (dotted (padOctets [x.a.val, x.b.val, x.c.val, x.d.val]))) = some x.text
  rw [if_neg (by simp [List.any_cons, hle])]
  rfl

/-- The comparisons of the parts are those of the first bits. -/
theorem a_of_text_eq (y : Ipv4) (h : x.text = y.text) : x.a = y.a := by
  have hsplit := congrArg (Text.split '.') h
  rw [x.split_text, y.split_text] at hsplit
  exact Fin.ext (Text.toString_nat_injective (List.cons.inj hsplit).1)

theorem isPrivateIPv4_iff : isPrivateIPv4 x.text = true ↔ Internal4 x := by
  have hbroadcast : x.text = "255.255.255.255" → 224 ≤ x.a.val := by
    intro h
    have ha := a_of_text_eq x ⟨255, 255, 255, 255⟩ h
    rw [ha]
    decide
  have hinternal : Internal4 x ↔ x.a = 0 ∨ x.a = 10 ∨ x.a = 127 ∨ (x.a = 169 ∧ x.b = 254) ∨
      (x.a = 172 ∧ x.b.val / 16 = 1) ∨ (x.a = 192 ∧ x.b = 168) ∨ (x.a = 198 ∧ x.b.val / 2 = 9) ∨
      (x.a = 203 ∧ x.b = 0 ∧ x.c = 113) ∨ (x.a = 100 ∧ x.b.val / 64 = 1) ∨
      (x.a = 192 ∧ x.b = 0 ∧ x.c = 0) ∨ (x.a = 192 ∧ x.b = 0 ∧ x.c = 2) ∨
      (x.a = 198 ∧ x.b = 51 ∧ x.c = 100) ∨ (x.a = 233 ∧ x.b = 252 ∧ x.c = 0) ∨
      x.a.val / 16 = 14 ∨ x.a.val / 16 = 15 := by
    simp only [Internal4, internalBlocks, List.mem_cons, List.not_mem_nil, or_false,
      exists_eq_or_imp, exists_eq_left, Ipv4.inBlock_four, Ipv4.inBlock_eight, Ipv4.inBlock_ten,
      Ipv4.inBlock_twelve, Ipv4.inBlock_fifteen, Ipv4.inBlock_sixteen, Ipv4.inBlock_twentyFour]
    all_goals rfl
  rw [hinternal, isPrivateIPv4, x.split_text]
  simp only [List.map_cons, List.map_nil, numberOf_toString, List.headD_cons, within,
    Option.any_some, Bool.or_eq_true, Bool.and_eq_true, beq_iff_eq, decide_eq_true_eq,
    Option.some.injEq]
  have htwelve : 16 ≤ x.b.val ∧ x.b.val ≤ 31 ↔ x.b.val / 16 = 1 := by omega
  have hfifteen : x.b.val = 18 ∨ x.b.val = 19 ↔ x.b.val / 2 = 9 := by omega
  have hten : 64 ≤ x.b.val ∧ x.b.val ≤ 127 ↔ x.b.val / 64 = 1 := by omega
  have hfour : 224 ≤ x.a.val ∨ x.text = "255.255.255.255" ↔
      x.a.val / 16 = 14 ∨ x.a.val / 16 = 15 := by
    rw [or_iff_left_of_imp hbroadcast]
    omega
  have hlt := x.a.isLt
  simp only [htwelve, hfifteen, hten, or_assoc, and_assoc, hfour, Fin.ext_iff]
  rfl

/-! ## The tests of texts -/

theorem toLower_of_not_upper {c : Char} (h : c.isUpper = false) : c.toLower = c := by
  rw [Char.toLower, dif_neg]
  intro hboth
  exact of_decide_eq_false h hboth

theorem map_toLower_of_not_upper {l : List Char} (h : ∀ c ∈ l, c.isUpper = false) :
    l.map Char.toLower = l := by
  conv_rhs => rw [← List.map_id l]
  exact List.map_congr_left fun c hc => toLower_of_not_upper (h c hc)

theorem isPrivateIPv6_iff {l : List Char} : isPrivateIPv6 l = true ↔
    (l = "::1".toList ∨ l = "::".toList ∨ l = "0:0:0:0:0:0:0:1".toList) ∨
      ['f', 'c'] <+: l.map Char.toLower ∨ ['f', 'd'] <+: l.map Char.toLower ∨
        ['f', 'e', '8', '0'] <+: l.map Char.toLower := by
  simp only [isPrivateIPv6, Bool.or_eq_true, List.contains_iff_mem, List.mem_cons,
    List.not_mem_nil, or_false, List.any_cons, List.any_nil, Bool.or_false,
    List.isPrefixOf_iff_prefix]

/-- A text without colons, the letter `f` or upper case passes. -/
theorem isPrivateIPv6_of_plain {l : List Char} (hcolon : ':' ∉ l) (hf : 'f' ∉ l)
    (hupper : ∀ c ∈ l, c.isUpper = false) : isPrivateIPv6 l = false := by
  rw [Bool.eq_false_iff]
  intro h
  rw [isPrivateIPv6_iff, map_toLower_of_not_upper hupper] at h
  rcases h with (rfl | rfl | rfl) | h | h | h
  · exact hcolon (by decide)
  · exact hcolon (by decide)
  · exact hcolon (by decide)
  · exact hf (h.subset List.mem_cons_self)
  · exact hf (h.subset List.mem_cons_self)
  · exact hf (h.subset List.mem_cons_self)

theorem stripBrackets_of_not_mem {l : List Char} (h : '[' ∉ l) : stripBrackets l = l := by
  rw [stripBrackets, if_neg]
  rintro ⟨hhead, -⟩
  exact h (List.mem_of_head? hhead)

theorem stripBrackets_brackets (l : List Char) : stripBrackets ('[' :: (l ++ [']'])) = l := by
  rw [stripBrackets, if_pos]
  · rw [List.tail_cons, List.dropLast_concat]
  · exact ⟨rfl, by rw [← List.cons_append, List.getLast?_concat]⟩

/-! ## The hosts -/

theorem isUpper_of_digit {c : Char} (h : c.isDigit = true ∨ c = '.') : c.isUpper = false := by
  rcases h with h | rfl
  · have hle := (Scan.digit_cases h).2
    refine decide_eq_false fun hupper => ?_
    have hge : 65 ≤ c.toNat := hupper.1
    omega
  · rfl

theorem isPrivateHost_ipv4 (x : Ipv4) : isPrivateHost x.text = true ↔ Internal4 x := by
  have hpass : isPrivateIPv6 (stripBrackets x.text.toList) = false := by
    rw [stripBrackets_of_not_mem (x.not_mem_text rfl (by decide))]
    exact isPrivateIPv6_of_plain (x.not_mem_text rfl (by decide))
      (x.not_mem_text rfl (by decide)) fun c hc => isUpper_of_digit (x.mem_text hc)
  rw [isPrivateHost, hpass, normaliseIPv4_text, if_neg Bool.false_ne_true]
  split
  · rename_i heq
    rw [← isPrivateIPv4_iff]
    rcases heq with heq | heq
    · have hl : 'l' ∈ x.text.toList := by
        rw [heq]
        decide
      exact absurd hl (x.not_mem_text rfl (by decide))
    · rw [heq]
      decide
  · exact isPrivateIPv4_iff x

/-- For an IPv6 address only the tests of its text count. -/
theorem isPrivateHost_ipv6 (x : Ipv6) :
    isPrivateHost (Host.ipv6 x).text = isPrivateIPv6 (serialize x.pieces) := by
  have hlist : (Host.ipv6 x).text.toList = '[' :: (serialize x.pieces ++ [']']) :=
    String.toList_ofList
  have hname : ¬((Host.ipv6 x).text = "localhost" ∨ (Host.ipv6 x).text = "0.0.0.0") := by
    rintro (heq | heq)
    · rw [heq] at hlist
      cases (List.cons.inj hlist).1
    · rw [heq] at hlist
      cases (List.cons.inj hlist).1
  have hnone : normaliseIPv4 (Host.ipv6 x).text = none := by
    obtain ⟨part, more, hsplit⟩ := List.exists_cons_of_ne_nil
      (List.splitOn_ne_nil '.' (serialize x.pieces ++ [']']))
    refine @normaliseIPv4_eq_none _ ('[' :: part) ?_ rfl
    rw [hlist, stripDot, if_neg]
    · rw [List.splitOn_cons_eq_if_modifyHead, if_neg (by decide), hsplit]
      exact List.mem_cons_self
    · rw [← List.cons_append, List.getLast?_concat]
      decide
  rw [isPrivateHost, if_neg hname, hlist, stripBrackets_brackets, hnone]
  split
  · rename_i h
    rw [h]
  · rename_i h
    rw [Bool.not_eq_true] at h
    rw [h]

theorem isPrivateHost_domain (d : Domain) : isPrivateHost d.text = true ↔
    d.text = "localhost" ∨ ¬Understood (.domain d) := by
  have hchar : ∀ c, isDomainChar c = false → c ∉ d.text.toList := by
    intro c hc hmem
    rw [d.allowed c hmem] at hc
    cases hc
  have hupper : ∀ c ∈ d.text.toList, c.isUpper = false := by
    intro c hc
    have hallowed := d.allowed c hc
    rw [isDomainChar, Bool.and_eq_true, Bool.and_eq_true] at hallowed
    exact Bool.not_eq_eq_eq_not.mp hallowed.1.2
  have hzero : d.text ≠ "0.0.0.0" := by
    intro heq
    have hnot := d.notNumber
    rw [heq] at hnot
    revert hnot
    decide
  have hcolon := hchar ':' (by decide)
  have hsix : isPrivateIPv6 (stripBrackets d.text.toList) = true ↔
      ¬Understood (.domain d) := by
    rw [stripBrackets_of_not_mem (hchar '[' (by decide)), isPrivateIPv6_iff,
      map_toLower_of_not_upper hupper, Understood, not_not, or_iff_right]
    rintro (heq | heq | heq)
    · exact hcolon (by rw [heq]; decide)
    · exact hcolon (by rw [heq]; decide)
    · exact hcolon (by rw [heq]; decide)
  rw [isPrivateHost, normaliseIPv4_domain, ← hsix]
  simp only [hzero, or_false]
  split
  · simp_all
  · split
    · simp_all
    · simp_all

/-- The text of the first piece decides for the ranges of addresses that it tells apart. -/
theorem hexPiece_uniqueLocal (k : Fin 512) :
    ((hexPiece (0xfc00 + k)).map Char.toLower).take 2 = ['f', 'c'] ∨
      ((hexPiece (0xfc00 + k)).map Char.toLower).take 2 = ['f', 'd'] := by
  revert k
  decide +kernel

theorem hexPiece_linkLocal (k : Fin 64) :
    (hexPiece (0xfe80 + k)).length = 4 ∧
      ((hexPiece (0xfe80 + k)).map Char.toLower).take 2 = ['f', 'e'] ∧
      ((hexPiece (0xfe80 + k)).map Char.toLower = ['f', 'e', '8', '0'] ↔ k.val = 0) := by
  revert k
  decide +kernel

/-- An address with a first piece other than zero is not a mapped one, and its text begins with
that piece. -/
theorem serialize_of_head {x : Ipv6} {p : Nat} (h : x.pieces.head? = some p) (hp : p ≠ 0) :
    (∃ tail, serialize x.pieces = hexPiece p ++ ':' :: tail) ∧
      (Understood (.ipv6 x) ↔ ¬(0xfe81 ≤ p ∧ p ≤ 0xfebf)) := by
  have hlength := x.length_eq
  match hpieces : x.pieces with
  | [] => rw [hpieces] at h; cases h
  | [_] => rw [hpieces] at hlength; cases hlength
  | p' :: q :: rest =>
    obtain rfl : p' = p := by
      rw [hpieces] at h
      exact Option.some.inj h
    refine ⟨serialize_of_ne hp rest, ?_⟩
    simp only [Understood, hpieces, List.head?_cons, Option.some.injEq, forall_eq']
    refine and_iff_left fun g k heq => ?_
    exact absurd (List.cons.inj heq).1 hp

theorem isPrivateIPv6_of_take {l : List Char}
    (h : (l.map Char.toLower).take 2 = ['f', 'c'] ∨ (l.map Char.toLower).take 2 = ['f', 'd'])
    (tail : List Char) : isPrivateIPv6 (l ++ tail) = true := by
  have hstarts : (l.map Char.toLower).take 2 <+: (l ++ tail).map Char.toLower := by
    rw [List.map_append]
    exact (List.take_prefix 2 _).trans (List.prefix_append _ _)
  rw [isPrivateIPv6_iff]
  rcases h with h | h
  · rw [h] at hstarts
    exact .inr (.inl hstarts)
  · rw [h] at hstarts
    exact .inr (.inr (.inl hstarts))

/-- Among the texts that begin with a link-local piece, only the one of `fe80` is refused. -/
theorem isPrivateIPv6_of_linkLocal {l : List Char} (hlength : l.length = 4)
    (h : (l.map Char.toLower).take 2 = ['f', 'e']) (tail : List Char) :
    isPrivateIPv6 (l ++ tail) = true ↔ l.map Char.toLower = ['f', 'e', '8', '0'] := by
  have htwo : ((l ++ tail).map Char.toLower).take 2 = ['f', 'e'] := by
    rw [List.map_append, List.take_append_of_le_length (by rw [List.length_map]; omega), h]
  have hfour : ((l ++ tail).map Char.toLower).take 4 = l.map Char.toLower := by
    rw [List.map_append, List.take_left' (by rw [List.length_map]; exact hlength)]
  rw [isPrivateIPv6_iff]
  constructor
  · rintro ((heq | heq | heq) | hc | hd | he)
    · rw [heq] at htwo
      cases htwo
    · rw [heq] at htwo
      cases htwo
    · rw [heq] at htwo
      cases htwo
    · rw [List.prefix_iff_eq_take] at hc
      cases hc.trans htwo
    · rw [List.prefix_iff_eq_take] at hd
      cases hd.trans htwo
    · rw [List.prefix_iff_eq_take] at he
      exact (he.trans hfour).symm
  · intro heq
    refine .inr (.inr (.inr ?_))
    rw [List.prefix_iff_eq_take]
    exact (hfour.trans heq).symm

/-- Where an internal address is let through, the checks do not understand it. -/
theorem isPrivateIPv6_internal {x : Ipv6} (h : Internal6 x) :
    isPrivateIPv6 (serialize x.pieces) = true ↔ Understood (.ipv6 x) := by
  cases h with
  | loopback h =>
    have hrefused : isPrivateIPv6 (serialize x.pieces) = true := by
      rw [h]
      decide
    rw [iff_true_left hrefused]
    simp [Understood, h]
  | unspecified h =>
    have hrefused : isPrivateIPv6 (serialize x.pieces) = true := by
      rw [h]
      decide
    rw [iff_true_left hrefused]
    simp [Understood, h]
  | uniqueLocal p h hp =>
    obtain ⟨k, rfl⟩ : ∃ k : Fin 512, p = 0xfc00 + k := ⟨⟨p - 0xfc00, by omega⟩, by simp; omega⟩
    obtain ⟨⟨tail, htext⟩, hunderstood⟩ := serialize_of_head h (by omega)
    rw [hunderstood, htext, iff_true_left (isPrivateIPv6_of_take (hexPiece_uniqueLocal k) _)]
    omega
  | linkLocal p h hp =>
    obtain ⟨k, rfl⟩ : ∃ k : Fin 64, p = 0xfe80 + k := ⟨⟨p - 0xfe80, by omega⟩, by simp; omega⟩
    obtain ⟨⟨tail, htext⟩, hunderstood⟩ := serialize_of_head h (by omega)
    obtain ⟨hlength, htake, hzero⟩ := hexPiece_linkLocal k
    rw [hunderstood, htext, isPrivateIPv6_of_linkLocal hlength htake, hzero]
    omega
  | mapped g k h hinternal =>
    have hpass : ¬isPrivateIPv6 (serialize x.pieces) = true := by
      rw [h, serialize_mapped, isPrivateIPv6_iff]
      rintro ((heq | heq | heq) | heq | heq | heq)
      · cases heq
      · cases heq
      · cases heq
      · cases (List.cons_prefix_cons.mp heq).1
      · cases (List.cons_prefix_cons.mp heq).1
      · cases (List.cons_prefix_cons.mp heq).1
    rw [iff_false_left hpass]
    exact fun hunderstood => hunderstood.2 g k h hinternal

theorem understood_of_not_internal {x : Ipv6} (h : ¬Internal6 x) : Understood (.ipv6 x) := by
  refine ⟨fun p hp hrange => h (.linkLocal p hp ?_), fun g k heq hinternal => ?_⟩
  · omega
  · exact h (.mapped g k heq hinternal)

theorem shouldFetchPreview_eq {newURL : String → Option Url} {url : String} {parsed : Url}
    (hparsed : newURL url = some parsed) (hweb : isWeb parsed.protocol = true) :
    shouldFetchPreview newURL url = !isPrivateHost parsed.hostname := by
  rw [shouldFetchPreview, hparsed]
  simp only [hweb, Bool.true_eq_false, if_false]
  by_cases hprivate : isPrivateHost parsed.hostname = true
  · rw [if_pos hprivate, hprivate]
    rfl
  · rw [if_neg hprivate, Bool.eq_false_iff.mpr hprivate]
    rfl

/-- For every parser and every link: the preview is guarded just if the host is not one of the
addresses that are let through and not one of the names that are taken for an address. -/
theorem guarded_iff (newURL : String → Option Url) (url : String) :
    Guarded newURL url ↔
      ∀ parsed, newURL url = some parsed → isWeb parsed.protocol = true →
        Understood parsed.host := by
  refine forall_congr' fun parsed => forall_congr' fun hparsed => forall_congr' fun hweb => ?_
  have hfetch : shouldFetchPreview newURL url = !isPrivateHost parsed.host.text :=
    shouldFetchPreview_eq hparsed hweb
  cases hhost : parsed.host with
  | ipv4 x =>
    rw [hhost] at hfetch
    simp only [Understood, iff_true, hfetch]
    intro hpass hinternal
    rw [show (Host.ipv4 x).text = x.text from rfl, (isPrivateHost_ipv4 x).mpr hinternal] at hpass
    cases hpass
  | ipv6 x =>
    rw [hhost, isPrivateHost_ipv6] at hfetch
    simp only [hfetch]
    by_cases hinternal : Internal6 x
    · rw [← isPrivateIPv6_internal hinternal]
      simp [hinternal]
    · simp [hinternal, understood_of_not_internal hinternal]
  | domain d =>
    rw [hhost] at hfetch
    have hprivate := isPrivateHost_domain d
    simp only [hfetch, Bool.not_eq_true']
    constructor
    · intro h
      by_contra hnot
      have hlocal : d.text = "localhost" := by
        by_contra hne
        rw [show isPrivateHost (Host.domain d).text = true from hprivate.mpr (.inr hnot)] at h
        cases h hne
      refine hnot ?_
      simp only [Understood, hlocal]
      decide
    · intro hunderstood hne
      rw [Bool.eq_false_iff]
      intro hrefused
      rcases hprivate.mp hrefused with hlocal | hnot
      · exact hne hlocal
      · exact hnot hunderstood
  | other s => exact Iff.rfl

/-- `http://[::ffff:127.0.0.1]/` -/
def mappedLoopback : Url where
  protocol := "http:"
  host := .ipv6 ⟨[0, 0, 0, 0, 0, 0xffff, 0x7f00, 1], rfl, by decide⟩
  special _ s := by exact Host.noConfusion

def mappedLink : String := "http://[::ffff:127.0.0.1]/"

/-- The loopback address is fetched if it is written as a mapped one. -/
theorem mapped_loopback_fetched :
    (mappedLoopback.hostname = "[::ffff:7f00:1]" ∧
      shouldFetchPreview (fun url => if url = mappedLink then some mappedLoopback else none)
        mappedLink = true) ∧
    ¬∀ newURL url, Guarded newURL url := by
  have hfetched : shouldFetchPreview
      (fun url => if url = mappedLink then some mappedLoopback else none) mappedLink = true := by
    decide +kernel
  refine ⟨⟨by decide, hfetched⟩, fun h => ?_⟩
  have hguarded := h (fun url => if url = mappedLink then some mappedLoopback else none)
    mappedLink mappedLoopback (if_pos rfl) rfl
  refine hguarded hfetched (.mapped 0x7f00 1 rfl ⟨(⟨127, 0, 0, 0⟩, 8), ?_, ?_⟩)
  · simp [internalBlocks]
  · exact (Ipv4.inBlock_eight _ _).mpr rfl

end Web
end Linkora

import Linkora.Lib.Text

/-!
# Base64 and UTF-8, as a browser reads them

`atob` is stricter than Node's `Buffer`: it refuses what is no digit.  Either gives back the
bytes that were written.  `TextDecoder` puts U+FFFD in the place of what is no UTF-8, and it
drops a byte order mark at the beginning.
-/

namespace Linkora
namespace Text

/-! ## Base64 -/

def isAsciiSpace (c : Char) : Bool := [9, 10, 12, 13, 32].contains c.toNat

/-- A digit of the standard alphabet. -/
def isBase64Digit (c : Char) : Bool := (base64Value c).isSome && c ≠ '-' && c ≠ '_'

/-- Without the one or two padding characters at the end of whole groups. -/
def dropPadding (l : List Char) : List Char :=
  if l.length % 4 = 0 ∧ l.getLast? = some '=' then
    if l.dropLast.getLast? = some '=' then l.dropLast.dropLast else l.dropLast
  else l

/-- The bytes of `atob(s)`, which may throw. -/
def atob (s : String) : Option (List UInt8) :=
  let l := dropPadding (s.toList.filter fun c => !isAsciiSpace c)
  if l.length % 4 ≠ 1 ∧ l.all isBase64Digit = true then some (packSextets (l.filterMap base64Value))
  else none

/-- The values of the digits that are written. -/
def sextets : List UInt8 → List Nat
  | a :: b :: c :: rest => a.toNat / 4 :: (a.toNat % 4 * 16 + b.toNat / 16) ::
      (b.toNat % 16 * 4 + c.toNat / 64) :: c.toNat % 64 :: sextets rest
  | [a, b] => [a.toNat / 4, a.toNat % 4 * 16 + b.toNat / 16, b.toNat % 16 * 4]
  | [a] => [a.toNat / 4, a.toNat % 4 * 16]
  | [] => []

/-- The number of padding characters. -/
def pads (bytes : List UInt8) : Nat := (3 - bytes.length % 3) % 3

theorem toBase64Chars_eq (bytes : List UInt8) :
    toBase64Chars bytes =
      (sextets bytes).map base64Digit ++ List.replicate (pads bytes) '=' := by
  induction bytes using sextets.induct with
  | case1 a b c rest ih =>
    have hpads : pads (a :: b :: c :: rest) = pads rest := by
      simp only [pads, List.length_cons]
      omega
    rw [toBase64Chars, ih, hpads]
    rfl
  | case2 a b => rfl
  | case3 a => rfl
  | case4 => rfl

theorem sextets_lt (bytes : List UInt8) : ∀ n ∈ sextets bytes, n < 64 := by
  induction bytes using sextets.induct with
  | case1 a b c rest ih =>
    have ha := a.toNat_lt
    have hb := b.toNat_lt
    have hc := c.toNat_lt
    simp only [sextets, List.forall_mem_cons]
    exact ⟨by omega, by omega, by omega, by omega, ih⟩
  | case2 a b =>
    have ha := a.toNat_lt
    have hb := b.toNat_lt
    simp [sextets]
    omega
  | case3 a =>
    have ha := a.toNat_lt
    simp [sextets]
    omega
  | case4 => simp [sextets]

theorem ofNat_eq_of_mod {n : Nat} {b : UInt8} (h : n % 256 = b.toNat) : UInt8.ofNat n = b := by
  apply UInt8.toNat_inj.mp
  rw [UInt8.toNat_ofNat', ← h]

theorem packSextets_sextets (bytes : List UInt8) : packSextets (sextets bytes) = bytes := by
  have hfirst : ∀ (a : UInt8) (m : Nat), m < 16 →
      UInt8.ofNat (4 * (a.toNat / 4) + (a.toNat % 4 * 16 + m) / 16) = a := by
    intro a m hm
    apply ofNat_eq_of_mod
    have ha := a.toNat_lt
    omega
  have hsecond : ∀ (a b : UInt8) (m : Nat), m < 4 →
      UInt8.ofNat (16 * (a.toNat % 4 * 16 + b.toNat / 16) + (b.toNat % 16 * 4 + m) / 4) = b := by
    intro a b m hm
    apply ofNat_eq_of_mod
    have hb := b.toNat_lt
    omega
  have hthird : ∀ b c : UInt8,
      UInt8.ofNat (64 * (b.toNat % 16 * 4 + c.toNat / 64) + c.toNat % 64) = c := by
    intro b c
    apply ofNat_eq_of_mod
    have hc := c.toNat_lt
    omega
  induction bytes using sextets.induct with
  | case1 a b c rest ih =>
    have hb := b.toNat_lt
    have hc := c.toNat_lt
    rw [sextets, packSextets, hfirst a _ (by omega), hsecond a b _ (by omega), hthird, ih]
  | case2 a b =>
    have hb := b.toNat_lt
    have hlast := hsecond a b 0 (by omega)
    rw [Nat.add_zero] at hlast
    rw [sextets, packSextets, hfirst a _ (by omega), hlast]
  | case3 a =>
    have hlast := hfirst a 0 (by omega)
    rw [Nat.add_zero] at hlast
    rw [sextets, packSextets, hlast]
  | case4 => rfl

theorem length_sextets (bytes : List UInt8) :
    ((sextets bytes).length + pads bytes) % 4 = 0 ∧ (sextets bytes).length % 4 ≠ 1 := by
  induction bytes using sextets.induct with
  | case1 a b c rest ih =>
    simp only [pads, sextets, List.length_cons] at ih ⊢
    omega
  | case2 a b => simp [sextets, pads]
  | case3 a => simp [sextets, pads]
  | case4 => simp [sextets, pads]

theorem base64Digit_cases : ∀ n < 64, base64Value (base64Digit n) = some n ∧
    isBase64Digit (base64Digit n) = true ∧ isAsciiSpace (base64Digit n) = false ∧
    base64Digit n ≠ '=' := by
  decide

section Written

variable {l : List Nat} (h : ∀ n ∈ l, n < 64)
include h

theorem filterMap_digits : (l.map base64Digit).filterMap base64Value = l := by
  rw [List.filterMap_map]
  have hsome : l.filterMap (base64Value ∘ base64Digit) = l.filterMap some :=
    List.filterMap_congr fun n hn => (base64Digit_cases n (h n hn)).1
  rw [hsome, List.filterMap_some]

theorem of_mem_digits {c : Char} (hc : c ∈ l.map base64Digit) :
    isBase64Digit c = true ∧ isAsciiSpace c = false ∧ c ≠ '=' := by
  obtain ⟨n, hn, rfl⟩ := List.mem_map.mp hc
  exact (base64Digit_cases n (h n hn)).2

theorem dropPadding_digits {k : Nat} (hk : k < 3) (hlength : (l.length + k) % 4 = 0) :
    dropPadding (l.map base64Digit ++ List.replicate k '=') = l.map base64Digit := by
  have hlast : (l.map base64Digit).getLast? ≠ some '=' := by
    intro heq
    exact (of_mem_digits h (List.mem_of_getLast? heq)).2.2 rfl
  have hwhole : (l.map base64Digit ++ List.replicate k '=').length % 4 = 0 := by
    rw [List.length_append, List.length_map, List.length_replicate, hlength]
  rw [dropPadding]
  match k, hk with
  | 0, _ =>
    rw [List.replicate_zero, List.append_nil, if_neg fun hboth => hlast hboth.2]
  | 1, _ =>
    have hone : List.replicate 1 '=' = ['='] := rfl
    rw [if_pos ⟨hwhole, by simp⟩, hone, List.dropLast_concat, if_neg hlast]
  | 2, _ =>
    have htwo : l.map base64Digit ++ List.replicate 2 '=' =
        (l.map base64Digit ++ ['=']) ++ ['='] := by simp
    rw [if_pos ⟨hwhole, by simp⟩, htwo, List.dropLast_concat, if_pos (by simp),
      List.dropLast_concat]

end Written

theorem atob_toBase64 (bytes : List UInt8) : atob (toBase64 bytes) = some bytes := by
  have hlt := sextets_lt bytes
  have hpads : pads bytes < 3 := Nat.mod_lt _ (by decide)
  obtain ⟨hwhole, hlength⟩ := length_sextets bytes
  have hspace : (toBase64 bytes).toList.filter (fun c => !isAsciiSpace c) =
      (sextets bytes).map base64Digit ++ List.replicate (pads bytes) '=' := by
    rw [toBase64, String.toList_ofList, toBase64Chars_eq]
    refine List.filter_eq_self.mpr fun c hc => ?_
    rcases List.mem_append.mp hc with hc | hc
    · rw [(of_mem_digits hlt hc).2.1]
      rfl
    · rw [List.eq_of_mem_replicate hc]
      decide
  have hdigits : ((sextets bytes).map base64Digit).all isBase64Digit = true :=
    List.all_eq_true.mpr fun c hc => (of_mem_digits hlt hc).1
  simp only [atob]
  rw [hspace, dropPadding_digits hlt hpads hwhole, if_pos ⟨by rwa [List.length_map], hdigits⟩,
    filterMap_digits hlt, packSextets_sextets]

theorem fromBase64_toBase64 (bytes : List UInt8) : fromBase64 (toBase64 bytes) = bytes := by
  have hlt := sextets_lt bytes
  have htake : (toBase64 bytes).toList.takeWhile (· ≠ '=') = (sextets bytes).map base64Digit := by
    rw [toBase64, String.toList_ofList, toBase64Chars_eq, List.takeWhile_append_of_pos]
    · cases pads bytes with
      | zero => simp
      | succ k => simp [List.replicate_succ]
    · exact fun c hc => decide_eq_true (of_mem_digits hlt hc).2.2
  rw [fromBase64, htake, filterMap_digits hlt, packSextets_sextets]

/-! ## UTF-8 -/

/-- The beginning of a character of several bytes: the bits so far, the bytes that are missing,
and the bounds of the next one. -/
structure Pending where
  point : Nat
  needed : Nat
  lower : Nat
  upper : Nat

/-- A byte that does not continue a character. -/
def decodeLead (b : Nat) : List Char × Option Pending :=
  if b < 0x80 then ([Char.ofNat b], none)
  else if 0xc2 ≤ b ∧ b ≤ 0xdf then ([], some ⟨b % 0x20, 1, 0x80, 0xbf⟩)
  else if 0xe0 ≤ b ∧ b ≤ 0xef then
    ([], some ⟨b % 0x10, 2, if b = 0xe0 then 0xa0 else 0x80, if b = 0xed then 0x9f else 0xbf⟩)
  else if 0xf0 ≤ b ∧ b ≤ 0xf4 then
    ([], some ⟨b % 0x08, 3, if b = 0xf0 then 0x90 else 0x80, if b = 0xf4 then 0x8f else 0xbf⟩)
  else (['\uFFFD'], none)

def decodeByte : Option Pending → Nat → List Char × Option Pending
  | none, b => decodeLead b
  | some p, b =>
    if p.lower ≤ b ∧ b ≤ p.upper then
      let point := p.point * 64 + b % 64
      if p.needed = 1 then ([Char.ofNat point], none)
      else ([], some ⟨point, p.needed - 1, 0x80, 0xbf⟩)
    else ('\uFFFD' :: (decodeLead b).1, (decodeLead b).2)

def decodeFrom : Option Pending → List UInt8 → List Char
  | none, [] => []
  | some _, [] => ['\uFFFD']
  | p, b :: rest =>
    let r := decodeByte p b.toNat
    r.1 ++ decodeFrom r.2 rest

/-- `new TextDecoder().decode(bytes)` -/
def decodeUtf8 (bytes : List UInt8) : List Char :=
  let l := decodeFrom none bytes
  if l.head? = some '\uFEFF' then l.tail else l

theorem decodeFrom_ascii {l : List Char} (hl : ∀ c ∈ l, c.toNat < 128) :
    decodeFrom none (asciiBytes l) = l := by
  induction l with
  | nil => rfl
  | cons c rest ih =>
    have hc := hl c List.mem_cons_self
    have hbyte : decodeByte none (UInt8.ofNat c.toNat).toNat = ([c], none) := by
      rw [toNat_ofNat_ascii hc, decodeByte, decodeLead, if_pos hc]
      exact congrArg (fun d => ([d], none)) (Char.ofNat_toNat c)
    show (decodeByte none (UInt8.ofNat c.toNat).toNat).1 ++
      decodeFrom (decodeByte none (UInt8.ofNat c.toNat).toNat).2 (asciiBytes rest) = c :: rest
    rw [hbyte]
    show [c] ++ decodeFrom none (asciiBytes rest) = c :: rest
    rw [ih fun d hd => hl d (List.mem_cons_of_mem c hd)]
    rfl

theorem decodeUtf8_ascii {l : List Char} (hl : ∀ c ∈ l, c.toNat < 128) :
    decodeUtf8 (asciiBytes l) = l := by
  have hhead : l.head? ≠ some '\uFEFF' := by
    intro heq
    exact absurd (hl _ (List.mem_of_mem_head? heq)) (by decide)
  simp only [decodeUtf8]
  rw [decodeFrom_ascii hl, if_neg hhead]

end Text
end Linkora

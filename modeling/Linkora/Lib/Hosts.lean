import Mathlib
import Linkora.Lib.Scan

/-!
# Hosts of URLs

The hosts that the URL standard has, and how it writes them: IPv4 addresses in dotted decimal,
IPv6 addresses in lower-case hexadecimal with the first longest run of zeros left out.
-/

namespace Linkora
namespace Hosts

/-! ## IPv4 -/

/-- The parts of an address wrap around at 256. -/
instance neZeroParts : NeZero 256 := ⟨by decide⟩

/-- An IPv4 address by its four parts. -/
structure Ipv4 where
  a : Fin 256
  b : Fin 256
  c : Fin 256
  d : Fin 256

namespace Ipv4

def text (x : Ipv4) : String :=
  toString x.a.val ++ "." ++ toString x.b.val ++ "." ++ toString x.c.val ++ "." ++
    toString x.d.val

def number (x : Ipv4) : Nat := ((x.a * 256 + x.b) * 256 + x.c) * 256 + x.d

/-- The address has the first bits of the one that a block is written with. -/
def InBlock (x : Ipv4) (block : Ipv4 × Nat) : Prop :=
  x.number / 2 ^ (32 - block.2) = block.1.number / 2 ^ (32 - block.2)

variable (x : Ipv4)

theorem text_toList : x.text.toList = (toString x.a.val).toList ++ '.' ::
    ((toString x.b.val).toList ++ '.' :: ((toString x.c.val).toList ++ '.' ::
      (toString x.d.val).toList)) := by
  simp [text]

/-- Only digits and dots. -/
theorem mem_text {c : Char} (h : c ∈ x.text.toList) : c.isDigit = true ∨ c = '.' := by
  rw [text_toList] at h
  simp only [List.mem_append, List.mem_cons] at h
  rcases h with h | rfl | h | rfl | h | rfl | h
  · exact Or.inl (Scan.isDigit_of_mem_toString h)
  · exact Or.inr rfl
  · exact Or.inl (Scan.isDigit_of_mem_toString h)
  · exact Or.inr rfl
  · exact Or.inl (Scan.isDigit_of_mem_toString h)
  · exact Or.inr rfl
  · exact Or.inl (Scan.isDigit_of_mem_toString h)

theorem not_mem_text {c : Char} (hdigit : c.isDigit = false) (hdot : c ≠ '.') :
    c ∉ x.text.toList := by
  intro hmem
  rcases x.mem_text hmem with h | h
  · rw [h] at hdigit
    cases hdigit
  · exact hdot h

theorem text_ne : x.text ≠ "" := by
  intro h
  have hlist := congrArg String.toList h
  rw [text_toList] at hlist
  simp at hlist

theorem splitOn_text : x.text.toList.splitOn '.' =
    [(toString x.a.val).toList, (toString x.b.val).toList, (toString x.c.val).toList,
      (toString x.d.val).toList] := by
  rw [text_toList, List.splitOn_append_cons_self_of_not_mem (Scan.not_mem_toString rfl),
    List.splitOn_append_cons_self_of_not_mem (Scan.not_mem_toString rfl),
    List.splitOn_append_cons_self_of_not_mem (Scan.not_mem_toString rfl),
    List.splitOn_eq_singleton (Scan.not_mem_toString rfl)]

theorem split_text : Text.split '.' x.text =
    [toString x.a.val, toString x.b.val, toString x.c.val, toString x.d.val] := by
  rw [Text.split, splitOn_text]
  simp only [List.map_cons, List.map_nil, String.ofList_toList]

/-! The first bits of an address are those of its parts. -/

section Blocks

variable (y : Ipv4)

theorem inBlock_four : x.InBlock (y, 4) ↔ x.a.val / 16 = y.a.val / 16 := by
  simp only [InBlock, number]
  omega

theorem inBlock_eight : x.InBlock (y, 8) ↔ x.a = y.a := by
  simp only [InBlock, number]
  omega

theorem inBlock_ten : x.InBlock (y, 10) ↔ x.a = y.a ∧ x.b.val / 64 = y.b.val / 64 := by
  simp only [InBlock, number]
  omega

theorem inBlock_twelve : x.InBlock (y, 12) ↔ x.a = y.a ∧ x.b.val / 16 = y.b.val / 16 := by
  simp only [InBlock, number]
  omega

theorem inBlock_fifteen : x.InBlock (y, 15) ↔ x.a = y.a ∧ x.b.val / 2 = y.b.val / 2 := by
  simp only [InBlock, number]
  omega

theorem inBlock_sixteen : x.InBlock (y, 16) ↔ x.a = y.a ∧ x.b = y.b := by
  simp only [InBlock, number]
  omega

theorem inBlock_twentyFour : x.InBlock (y, 24) ↔ x.a = y.a ∧ x.b = y.b ∧ x.c = y.c := by
  simp only [InBlock, number]
  omega

end Blocks

end Ipv4

/-! ## IPv6 -/

/-- An IPv6 address by its eight pieces. -/
structure Ipv6 where
  pieces : List Nat
  length_eq : pieces.length = 8
  lt : ∀ p ∈ pieces, p < 65536

/-- How many zeros a list begins with. -/
def zeroRun : List Nat → Nat
  | 0 :: rest => zeroRun rest + 1
  | _ => 0

/-- The place and the length of the first of the longest runs of more than one zero. -/
def compressAt : List Nat → Option (Nat × Nat)
  | [] => none
  | p :: rest =>
    let here := zeroRun (p :: rest)
    match compressAt rest with
    | none => if 1 < here then some (0, here) else none
    | some (i, n) => if n ≤ here then some (0, here) else some (i + 1, n)

def hexPiece (p : Nat) : List Char := Nat.toDigits 16 p

/-- The pieces with a colon between each two. -/
def joinPieces (l : List Nat) : List Char := List.intercalate [':'] (l.map hexPiece)

def serialize (pieces : List Nat) : List Char :=
  match compressAt pieces with
  | none => joinPieces pieces
  | some (i, n) => joinPieces (pieces.take i) ++ [':', ':'] ++ joinPieces (pieces.drop (i + n))

theorem joinPieces_cons (p q : Nat) (rest : List Nat) :
    joinPieces (p :: q :: rest) = hexPiece p ++ ':' :: joinPieces (q :: rest) := by
  simp [joinPieces, List.intercalate]

theorem zeroRun_of_ne {p : Nat} (h : p ≠ 0) (rest : List Nat) : zeroRun (p :: rest) = 0 := by
  cases p with
  | zero => exact absurd rfl h
  | succ p => rfl

theorem one_lt_of_compressAt {l : List Nat} {i n : Nat} (h : compressAt l = some (i, n)) :
    1 < n := by
  induction l generalizing i n with
  | nil => cases h
  | cons p rest ih =>
    rw [compressAt] at h
    cases hrest : compressAt rest with
    | none =>
      rw [hrest] at h
      simp only at h
      split at h
      · rename_i hlong
        cases h
        exact hlong
      · cases h
    | some found =>
      have hfound : 1 < found.2 := ih hrest
      rw [hrest] at h
      simp only at h
      split at h
      · rename_i hlonger
        cases h
        omega
      · cases h
        exact hfound

/-- A text whose first piece is not zero begins with that piece. -/
theorem serialize_of_ne {p q : Nat} (hp : p ≠ 0) (rest : List Nat) :
    ∃ tail, serialize (p :: q :: rest) = hexPiece p ++ ':' :: tail := by
  rw [serialize, compressAt]
  simp only [zeroRun_of_ne hp]
  cases hrest : compressAt (q :: rest) with
  | none => exact ⟨_, joinPieces_cons p q rest⟩
  | some found =>
    obtain ⟨i, n⟩ := found
    have hlong := one_lt_of_compressAt hrest
    simp only
    rw [if_neg (by omega)]
    simp only [List.take_succ_cons]
    cases hfirst : (q :: rest).take i with
    | nil =>
      rw [show joinPieces [p] = hexPiece p by simp [joinPieces, List.intercalate],
        List.append_assoc, List.cons_append]
      exact ⟨_, rfl⟩
    | cons r more =>
      rw [joinPieces_cons, List.append_assoc, List.append_assoc, List.cons_append]
      exact ⟨_, rfl⟩

theorem serialize_mapped (g h : Nat) :
    serialize [0, 0, 0, 0, 0, 0xffff, g, h] =
      "::ffff:".toList ++ (hexPiece g ++ ':' :: hexPiece h) := by
  have htail : compressAt [0xffff, g, h] = none ∨ compressAt [0xffff, g, h] = some (1, 2) := by
    by_cases hg : g = 0
    · by_cases hh : h = 0
      · subst hg hh
        exact .inr rfl
      · subst hg
        simp [compressAt, zeroRun, zeroRun_of_ne hh]
    · by_cases hh : h = 0
      · subst hh
        simp [compressAt, zeroRun, zeroRun_of_ne hg]
      · simp [compressAt, zeroRun, zeroRun_of_ne hg, zeroRun_of_ne hh]
  have hruns : compressAt [0, 0, 0, 0, 0, 0xffff, g, h] = some (0, 5) := by
    rw [compressAt, compressAt, compressAt, compressAt, compressAt]
    rcases htail with htail | htail
    · rw [htail]
      rfl
    · rw [htail]
      rfl
  rw [serialize, hruns]
  show joinPieces [] ++ [':', ':'] ++ joinPieces [0xffff, g, h] = _
  have hlast : joinPieces [h] = hexPiece h := by simp [joinPieces, List.intercalate]
  have hmark : hexPiece 0xffff = "ffff".toList := by decide
  rw [joinPieces_cons, joinPieces_cons, hlast, hmark]
  rfl

/-! ## Names -/

/-- What the standard reads as a part of an IPv4 address. -/
def isIpv4Number : List Char → Bool
  | '0' :: 'x' :: rest | '0' :: 'X' :: rest => rest.all (Scan.inBase 16)
  | '0' :: c :: rest => (c :: rest).all (Scan.inBase 8)
  | [] => false
  | l => l.all Char.isDigit

/-- A host that ends in a number is an IPv4 address, or none at all. -/
def endsInANumber (s : String) : Bool :=
  let parts := s.toList.splitOn '.'
  let named := if parts.getLast? = some [] then parts.dropLast else parts
  match named.getLast? with
  | none => false
  | some last => (last != [] && last.all Char.isDigit) || isIpv4Number last

/-- ASCII but for upper case, white space, controls and the code points that hosts may not
have. -/
def isDomainChar (c : Char) : Bool :=
  decide (33 ≤ c.toNat) && decide (c.toNat ≤ 126) && !c.isUpper &&
    !(['#', '%', '/', ':', '<', '>', '?', '@', '[', '\\', ']', '^', '|'].contains c)

/-- A DNS name as the standard writes it. -/
structure Domain where
  text : String
  allowed : ∀ c ∈ text.toList, isDomainChar c = true
  notNumber : endsInANumber text = false

/-- The host of a URL; those of other schemes than the special ones may have any text. -/
inductive Host where
  | ipv4 (x : Ipv4)
  | ipv6 (x : Ipv6)
  | domain (d : Domain)
  | other (s : String)

def Host.text : Host → String
  | .ipv4 x => x.text
  | .ipv6 x => String.ofList ('[' :: (serialize x.pieces ++ [']']))
  | .domain d => d.text
  | .other s => s

/-- The schemes of the web. -/
def isWeb (protocol : String) : Bool := ["http:", "https:"].contains protocol

/-- What `new URL` returns. -/
structure Url where
  protocol : String
  host : Host
  special : isWeb protocol = true → ∀ s, host ≠ .other s

def Url.hostname (url : Url) : String := url.host.text

end Hosts
end Linkora

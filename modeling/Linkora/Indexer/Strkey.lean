import Linkora.Contract.Types

/-!
# The text of an address

An account or a contract is written as a version byte, its 32 bytes and a checksum of both, in
base 32.  The text has a fixed length, and different addresses have different texts.
-/

namespace Linkora
namespace Indexer

open Contract (Address)

/-- The last `k` digits of `n`, the most significant first. -/
def baseDigits (base : Nat) : Nat → Nat → List Nat
  | 0, _ => []
  | k + 1, n => baseDigits base k (n / base) ++ [n % base]

theorem length_baseDigits (base k n : Nat) : (baseDigits base k n).length = k := by
  induction k generalizing n with
  | zero => rfl
  | succ k ih => rw [baseDigits, List.length_append, ih, List.length_singleton]

theorem baseDigits_lt {base : Nat} (hbase : 0 < base) (k n : Nat) :
    ∀ d ∈ baseDigits base k n, d < base := by
  induction k generalizing n with
  | zero => exact fun d hd => absurd hd List.not_mem_nil
  | succ k ih =>
    intro d hd
    rcases List.mem_append.mp hd with hd | hd
    · exact ih (n / base) d hd
    · rw [List.mem_singleton.mp hd]
      exact Nat.mod_lt n hbase

/-- Numbers of at most `k` digits are told apart by them. -/
theorem baseDigits_inj {base k n m : Nat} (hn : n < base ^ k) (hm : m < base ^ k)
    (h : baseDigits base k n = baseDigits base k m) : n = m := by
  induction k generalizing n m with
  | zero =>
    rw [pow_zero] at hn hm
    omega
  | succ k ih =>
    obtain ⟨hhigh, hlow⟩ := List.append_inj' h rfl
    rw [pow_succ] at hn hm
    have hdiv : n / base = m / base :=
      ih (Nat.div_lt_of_lt_mul (by rwa [Nat.mul_comm]))
        (Nat.div_lt_of_lt_mul (by rwa [Nat.mul_comm])) hhigh
    have hmod : n % base = m % base := List.head_eq_of_cons_eq hlow
    rw [← Nat.div_add_mod n base, ← Nat.div_add_mod m base, hdiv, hmod]

/-- `A` to `Z`, then `2` to `7`. -/
def base32Char (d : Nat) : Char := Char.ofNat (if d < 26 then 65 + d else 24 + d)

theorem toNat_base32Char : ∀ d < 32,
    (base32Char d).toNat = if d < 26 then 65 + d else 24 + d := by decide

theorem base32Char_inj (d : Nat) (hd : d < 32) (e : Nat) (he : e < 32)
    (h : base32Char d = base32Char e) : d = e := by
  have hnat := congrArg Char.toNat h
  rw [toNat_base32Char d hd, toNat_base32Char e he] at hnat
  split at hnat <;> split at hnat <;> omega

theorem map_base32Char_inj {l l' : List Nat} (hl : ∀ d ∈ l, d < 32) (hl' : ∀ d ∈ l', d < 32)
    (h : l.map base32Char = l'.map base32Char) : l = l' := by
  induction l generalizing l' with
  | nil =>
    cases l' with
    | nil => rfl
    | cons e l' => cases h
  | cons d l ih =>
    cases l' with
    | nil => cases h
    | cons e l' =>
      obtain ⟨hd, htail⟩ := List.cons.inj h
      rw [base32Char_inj d (hl d List.mem_cons_self) e (hl' e List.mem_cons_self) hd,
        ih (fun x hx => hl x (List.mem_cons_of_mem d hx))
          (fun x hx => hl' x (List.mem_cons_of_mem e hx)) htail]

/-- One bit of CRC-16 with the polynomial `0x1021`. -/
def crcBit (crc : Nat) : Nat :=
  if 32768 ≤ crc then (crc * 2 % 65536) ^^^ 0x1021 else crc * 2

def crc16 (bytes : List Nat) : Nat :=
  bytes.foldl (fun crc byte =>
    (List.range 8).foldl (fun crc _ => crcBit crc) (crc ^^^ byte * 256)) 0

/-- The version byte and the 32 bytes, as one number. -/
def Address.number : Address → Nat
  | .account key => 48 * 2 ^ 256 + key.toNat
  | .contract id => 16 * 2 ^ 256 + id.toNat

/-- The checksum, its low byte first. -/
def checksum (a : Address) : Nat :=
  let crc := crc16 (baseDigits 256 33 (Address.number a))
  crc % 256 * 256 + crc / 256 % 256

def strkeyNumber (a : Address) : Nat := Address.number a * 65536 + checksum a

def strkey (a : Address) : String :=
  String.ofList ((baseDigits 32 56 (strkeyNumber a)).map base32Char)

theorem number_lt (a : Address) : Address.number a < 49 * 2 ^ 256 := by
  cases a with
  | account key =>
    have hlt := key.isLt
    show 48 * 2 ^ 256 + key.toNat < 49 * 2 ^ 256
    omega
  | contract id =>
    have hlt := id.isLt
    show 16 * 2 ^ 256 + id.toNat < 49 * 2 ^ 256
    omega

theorem number_injective : Function.Injective Address.number := by
  intro a b h
  cases a with
  | account key =>
    cases b with
    | account key' =>
      have h : 48 * 2 ^ 256 + key.toNat = 48 * 2 ^ 256 + key'.toNat := h
      rw [BitVec.eq_of_toNat_eq (Nat.add_left_cancel h)]
    | contract id =>
      have hlt := id.isLt
      have h : 48 * 2 ^ 256 + key.toNat = 16 * 2 ^ 256 + id.toNat := h
      omega
  | contract id =>
    cases b with
    | account key =>
      have hlt := id.isLt
      have h : 16 * 2 ^ 256 + id.toNat = 48 * 2 ^ 256 + key.toNat := h
      omega
    | contract id' =>
      have h : 16 * 2 ^ 256 + id.toNat = 16 * 2 ^ 256 + id'.toNat := h
      rw [BitVec.eq_of_toNat_eq (Nat.add_left_cancel h)]

theorem checksum_lt (a : Address) : checksum a < 65536 := by
  show crc16 _ % 256 * 256 + crc16 _ / 256 % 256 < 65536
  omega

theorem strkeyNumber_div (a : Address) : strkeyNumber a / 65536 = Address.number a := by
  have hlt := checksum_lt a
  rw [strkeyNumber]
  omega

theorem strkeyNumber_lt (a : Address) : strkeyNumber a < 32 ^ 56 := by
  have hnumber := number_lt a
  have hchecksum := checksum_lt a
  rw [strkeyNumber]
  omega

theorem strkey_injective : Function.Injective strkey := by
  intro a b h
  have hchars := String.ofList_inj.mp h
  have hdigits := map_base32Char_inj (baseDigits_lt (by decide) 56 (strkeyNumber a))
    (baseDigits_lt (by decide) 56 (strkeyNumber b)) hchars
  have hnumber := baseDigits_inj (strkeyNumber_lt a) (strkeyNumber_lt b) hdigits
  apply number_injective
  rw [← strkeyNumber_div a, ← strkeyNumber_div b, hnumber]

example : strkey (.account 1) =
    "GAAAAAAAAAAAAAAAAAAAAAAAAAAAAAAAAAAAAAAAAAAAAAAAAAAAC6PV" := by decide +kernel

theorem strkey_ne_empty (a : Address) : strkey a ≠ "" := by
  intro h
  have hlength := congrArg String.length h
  rw [strkey, String.length_ofList, List.length_map, length_baseDigits] at hlength
  cases hlength

end Indexer
end Linkora

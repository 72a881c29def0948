import Linkora.Indexer.StateRoot

/-!
# The exclusive or of texts

The accumulators are kept as texts of 64 hexadecimal digits, which `xorHex` combines in chunks of
eight.  On the texts of two digests it gives the text of their exclusive or.
-/

namespace Linkora
namespace Indexer

/-- The value of a digit as `hexDigit` writes it. -/
def hexValue (c : Char) : Nat := if c.toNat < 58 then c.toNat - 48 else c.toNat - 87

/-- `parseInt(chunk, 16)`. -/
def parseHex (digits : List Char) : Nat := digits.foldl (fun n c => 16 * n + hexValue c) 0

/-- `value.toString(16).padStart(8, "0")`. -/
def hexChunk (value : Nat) : List Char :=
  let digits := Nat.toDigits 16 value
  List.replicate (8 - digits.length) '0' ++ digits

/-- `s.slice(8 * i, 8 * i + 8)`. -/
def chunkAt (s : String) (i : Nat) : List Char := (s.toList.drop (8 * i)).take 8

def xorHex (a b : String) : String :=
  String.ofList ((List.range 8).flatMap fun i =>
    hexChunk (parseHex (chunkAt a i) ^^^ parseHex (chunkAt b i)))

/-- `ZERO_HASH`. -/
def zeroHash : String := String.ofList (List.replicate 64 '0')

/-! ## Digits -/

/-- The `k` lowest hexadecimal digits, the highest first. -/
def digits (k x : Nat) : List Char :=
  (List.range k).map fun i => hexDigit (x / 16 ^ (k - 1 - i) % 16)

theorem hexDigits_eq (d : Digest) : hexDigits d = digits (8 * 8) d.toNat := rfl

@[simp] theorem length_digits (k x : Nat) : (digits k x).length = k := by
  simp [digits]

theorem digits_succ (k x : Nat) : digits (k + 1) x = digits k (x / 16) ++ [hexDigit (x % 16)] := by
  rw [digits, List.range_succ, List.map_append, digits]
  congr 1
  · apply List.map_congr_left
    intro i hi
    have hlt : i < k := List.mem_range.mp hi
    have hpow : (16 : Nat) ^ (k + 1 - 1 - i) = 16 * 16 ^ (k - 1 - i) := by
      rw [← Nat.pow_succ']
      congr 1
      omega
    rw [hpow, Nat.div_div_eq_div_mul]
  · have hexp : k + 1 - 1 - k = 0 := by omega
    rw [List.map_singleton, hexp, Nat.pow_zero, Nat.div_one]

theorem digits_add (k m x : Nat) : digits (k + m) x = digits k (x / 16 ^ m) ++ digits m x := by
  induction m generalizing x with
  | zero => simp [digits]
  | succ m ih =>
    have hdiv : x / 16 / 16 ^ m = x / 16 ^ (m + 1) := by
      rw [Nat.div_div_eq_div_mul, Nat.pow_succ']
    rw [← Nat.add_assoc, digits_succ, ih, digits_succ, hdiv, List.append_assoc]

theorem digits_mod (k x : Nat) : digits k (x % 16 ^ k) = digits k x := by
  induction k generalizing x with
  | zero => rfl
  | succ k ih =>
    have hhigh : x % 16 ^ (k + 1) / 16 = x / 16 % 16 ^ k := by
      rw [Nat.pow_succ']
      exact Nat.mod_mul_right_div_self x 16 (16 ^ k)
    have hlow : x % 16 ^ (k + 1) % 16 = x % 16 := by
      rw [Nat.pow_succ']
      exact Nat.mod_mul_right_mod x 16 (16 ^ k)
    rw [digits_succ, hhigh, hlow, ih, ← digits_succ]

theorem hexValue_hexDigit {n : Nat} (h : n < 16) : hexValue (hexDigit n) = n := by
  have hall : ∀ n < 16, hexValue (hexDigit n) = n := by decide
  exact hall n h

theorem hexDigit_eq_digitChar {n : Nat} (h : n < 16) : hexDigit n = n.digitChar := by
  have hall : ∀ n < 16, hexDigit n = n.digitChar := by decide
  exact hall n h

theorem parseHex_digits (k x : Nat) : parseHex (digits k x) = x % 16 ^ k := by
  induction k generalizing x with
  | zero => rw [Nat.pow_zero, Nat.mod_one]; rfl
  | succ k ih =>
    have hfold : parseHex (digits (k + 1) x) =
        16 * parseHex (digits k (x / 16)) + hexValue (hexDigit (x % 16)) := by
      rw [digits_succ, parseHex, List.foldl_append]
      rfl
    rw [hfold, ih, hexValue_hexDigit (Nat.mod_lt x (by omega)), Nat.pow_succ', Nat.mod_mul]
    omega

/-- A number that fits is written with its digits behind zeros. -/
theorem padded_toDigits {k n : Nat} (hk : 0 < k) (h : n < 16 ^ k) :
    List.replicate (k - (Nat.toDigits 16 n).length) '0' ++ Nat.toDigits 16 n = digits k n := by
  induction k generalizing n with
  | zero => omega
  | succ k ih =>
    by_cases hsmall : n < 16
    · have hzeros : ∀ m, digits m 0 = List.replicate m '0' := by
        intro m
        induction m with
        | zero => rfl
        | succ m ih =>
          rw [digits_succ, Nat.zero_div, ih, List.replicate_succ']
          rfl
      rw [Nat.toDigits_of_lt_base hsmall, digits_succ, Nat.div_eq_of_lt hsmall, hzeros,
        Nat.mod_eq_of_lt hsmall, hexDigit_eq_digitChar hsmall]
      rfl
    · have hbase : 16 ≤ n := by omega
      have hpos : 0 < k := by
        by_contra hzero
        have hk0 : k = 0 := by omega
        rw [hk0] at h
        omega
      have hquot : n / 16 < 16 ^ k := by
        rw [Nat.pow_succ] at h
        omega
      have hlast : n % 16 < 16 := Nat.mod_lt n (by omega)
      rw [Nat.toDigits_of_base_le (by omega) hbase, List.length_append, List.length_singleton,
        show k + 1 - ((Nat.toDigits 16 (n / 16)).length + 1) =
          k - (Nat.toDigits 16 (n / 16)).length by omega,
        ← List.append_assoc, ih hpos hquot, digits_succ, hexDigit_eq_digitChar hlast]

theorem hexChunk_eq {n : Nat} (h : n < 16 ^ 8) : hexChunk n = digits 8 n :=
  padded_toDigits (by omega) h

/-! ## Chunks -/

theorem chunk_digits {n i x : Nat} (h : i < n) :
    ((digits (8 * n) x).drop (8 * i)).take 8 = digits 8 (x / 16 ^ (8 * (n - 1 - i))) := by
  have hsplit : 8 * n = 8 * i + (8 + 8 * (n - 1 - i)) := by omega
  rw [hsplit, digits_add, List.drop_left' (length_digits _ _), digits_add,
    List.take_left' (length_digits _ _)]

theorem digits_eq_chunks (n x : Nat) : digits (8 * n) x =
    (List.range n).flatMap fun i => digits 8 (x / 16 ^ (8 * (n - 1 - i))) := by
  induction n generalizing x with
  | zero => rfl
  | succ n ih =>
    rw [show 8 * (n + 1) = 8 * n + 8 by omega, digits_add, ih, List.range_succ,
      List.flatMap_append, List.flatMap_singleton]
    congr 1
    · apply List.flatMap_congr
      intro i hi
      have hlt : i < n := List.mem_range.mp hi
      rw [Nat.div_div_eq_div_mul, ← Nat.pow_add,
        show 8 + 8 * (n - 1 - i) = 8 * (n + 1 - 1 - i) by omega]
    · rw [show 8 * (n + 1 - 1 - n) = 0 by omega, Nat.pow_zero, Nat.div_one]

theorem chunkAt_toHex (d : Digest) {i : Nat} (h : i < 8) :
    parseHex (chunkAt (toHex d) i) = d.toNat / 16 ^ (8 * (8 - 1 - i)) % 16 ^ 8 := by
  have hchunk : chunkAt (toHex d) i = digits 8 (d.toNat / 16 ^ (8 * (8 - 1 - i))) := by
    rw [chunkAt, toHex, String.toList_ofList, hexDigits_eq]
    exact chunk_digits h
  rw [hchunk, parseHex_digits]

/-- `xorHex` is the exclusive or of the digests that the texts stand for. -/
theorem xorHex_toHex (a b : Digest) : xorHex (toHex a) (toHex b) = toHex (a ^^^ b) := by
  have htext : toHex (a ^^^ b) = String.ofList ((List.range 8).flatMap fun i =>
      digits 8 ((a.toNat ^^^ b.toNat) / 16 ^ (8 * (8 - 1 - i)))) := by
    rw [toHex, hexDigits_eq, BitVec.toNat_xor, digits_eq_chunks]
  rw [htext, xorHex]
  apply congrArg String.ofList
  apply List.flatMap_congr
  intro i hi
  have hlt : i < 8 := List.mem_range.mp hi
  have hchunk : (16 : Nat) ^ 8 = 2 ^ 32 := by decide
  have hshift : (16 : Nat) ^ (8 * (8 - 1 - i)) = 2 ^ (4 * (8 * (8 - 1 - i))) := by
    rw [Nat.pow_mul 2 4]
  have hxor : a.toNat / 16 ^ (8 * (8 - 1 - i)) % 16 ^ 8 ^^^
      b.toNat / 16 ^ (8 * (8 - 1 - i)) % 16 ^ 8 =
      (a.toNat ^^^ b.toNat) / 16 ^ (8 * (8 - 1 - i)) % 16 ^ 8 := by
    rw [hchunk, hshift, Nat.xor_div_two_pow, Nat.xor_mod_two_pow]
  rw [chunkAt_toHex a hlt, chunkAt_toHex b hlt, hxor,
    hexChunk_eq (Nat.mod_lt _ (Nat.pow_pos (by omega))), digits_mod]

theorem hexDigits_zero : hexDigits 0 = List.replicate 64 '0' := by decide

theorem toHex_zero : toHex 0 = zeroHash := by
  have htext : toHex 0 = String.ofList (hexDigits 0) := rfl
  have hzero : zeroHash = String.ofList (List.replicate 64 '0') := rfl
  rw [htext, hzero, hexDigits_zero]

/-- The loops that fold texts and the folds of digests go together. -/
theorem foldl_xorHex (hashes : List Digest) (d : Digest) :
    (hashes.map toHex).foldl xorHex (toHex d) =
      toHex (hashes.foldl (fun acc h => acc ^^^ h) d) := by
  induction hashes generalizing d with
  | nil => rfl
  | cons h rest ih =>
    show (rest.map toHex).foldl xorHex (xorHex (toHex d) (toHex h)) = _
    rw [xorHex_toHex]
    exact ih (d ^^^ h)

end Indexer
end Linkora

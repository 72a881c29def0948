import Mathlib.Data.BitVec

/-!
# SHA-256

The hash function of FIPS 180-4 on lists of bytes.  Words are natural numbers below
`2 ^ 32`, so that a digest of a concrete message can be computed in the kernel.
-/

namespace Linkora

/-- No two of the inputs share an output.  This is what can be asked of a hash function,
whose outputs are fewer than its inputs. -/
def CollisionFree {α β : Type} (f : α → β) (inputs : List α) : Prop :=
  ∀ a ∈ inputs, ∀ b ∈ inputs, f a = f b → a = b

instance {α β : Type} [DecidableEq α] [DecidableEq β] (f : α → β) (inputs : List α) :
    Decidable (CollisionFree f inputs) :=
  inferInstanceAs (Decidable (∀ a ∈ inputs, ∀ b ∈ inputs, f a = f b → a = b))

namespace Sha256

def add32 (x y : Nat) : Nat := (x + y) % 2 ^ 32

def rotr (n x : Nat) : Nat := x >>> n ||| (x <<< (32 - n)) % 2 ^ 32

def bigSigma0 (x : Nat) : Nat := rotr 2 x ^^^ rotr 13 x ^^^ rotr 22 x
def bigSigma1 (x : Nat) : Nat := rotr 6 x ^^^ rotr 11 x ^^^ rotr 25 x
def smallSigma0 (x : Nat) : Nat := rotr 7 x ^^^ rotr 18 x ^^^ (x >>> 3)
def smallSigma1 (x : Nat) : Nat := rotr 17 x ^^^ rotr 19 x ^^^ (x >>> 10)

/-- Choose by the bits of `x`. -/
def ch (x y z : Nat) : Nat := (x &&& y) ^^^ ((2 ^ 32 - 1 - x) &&& z)

def maj (x y z : Nat) : Nat := (x &&& y) ^^^ (x &&& z) ^^^ (y &&& z)

/-- The first 32 bits of the fractional parts of the cube roots of the first 64 primes. -/
def roundConstants : List Nat :=
  [0x428a2f98, 0x71374491, 0xb5c0fbcf, 0xe9b5dba5, 0x3956c25b, 0x59f111f1, 0x923f82a4, 0xab1c5ed5,
    0xd807aa98, 0x12835b01, 0x243185be, 0x550c7dc3, 0x72be5d74, 0x80deb1fe, 0x9bdc06a7, 0xc19bf174,
    0xe49b69c1, 0xefbe4786, 0x0fc19dc6, 0x240ca1cc, 0x2de92c6f, 0x4a7484aa, 0x5cb0a9dc, 0x76f988da,
    0x983e5152, 0xa831c66d, 0xb00327c8, 0xbf597fc7, 0xc6e00bf3, 0xd5a79147, 0x06ca6351, 0x14292967,
    0x27b70a85, 0x2e1b2138, 0x4d2c6dfc, 0x53380d13, 0x650a7354, 0x766a0abb, 0x81c2c92e, 0x92722c85,
    0xa2bfe8a1, 0xa81a664b, 0xc24b8b70, 0xc76c51a3, 0xd192e819, 0xd6990624, 0xf40e3585, 0x106aa070,
    0x19a4c116, 0x1e376c08, 0x2748774c, 0x34b0bcb5, 0x391c0cb3, 0x4ed8aa4a, 0x5b9cca4f, 0x682e6ff3,
    0x748f82ee, 0x78a5636f, 0x84c87814, 0x8cc70208, 0x90befffa, 0xa4506ceb, 0xbef9a3f7, 0xc67178f2]

/-- The eight words that a digest is made of. -/
structure Words where
  a : Nat
  b : Nat
  c : Nat
  d : Nat
  e : Nat
  f : Nat
  g : Nat
  h : Nat

/-- The first 32 bits of the fractional parts of the square roots of the first 8 primes. -/
def initialWords : Words :=
  ⟨0x6a09e667, 0xbb67ae85, 0x3c6ef372, 0xa54ff53a, 0x510e527f, 0x9b05688c, 0x1f83d9ab, 0x5be0cd19⟩

def round (s : Words) (k w : Nat) : Words :=
  let t₁ := add32 (add32 s.h (bigSigma1 s.e)) (add32 (ch s.e s.f s.g) (add32 k w))
  let t₂ := add32 (bigSigma0 s.a) (maj s.a s.b s.c)
  ⟨add32 t₁ t₂, s.a, s.b, s.c, add32 s.d t₁, s.e, s.f, s.g⟩

/-- Sixteen consecutive words of the message schedule, oldest first. -/
def extend (window : List Nat) : Nat :=
  add32 (add32 (smallSigma1 (window.getD 14 0)) (window.getD 9 0))
    (add32 (smallSigma0 (window.getD 1 0)) (window.getD 0 0))

/-- Run the rounds that are left, the schedule one word ahead of them. -/
def rounds : List Nat → List Nat → Words → Words
  | [], _, s => s
  | k :: ks, window, s =>
    rounds ks (window.tail ++ [extend window]) (round s k (window.getD 0 0))

def Words.plus (s t : Words) : Words :=
  ⟨add32 s.a t.a, add32 s.b t.b, add32 s.c t.c, add32 s.d t.d, add32 s.e t.e, add32 s.f t.f,
    add32 s.g t.g, add32 s.h t.h⟩

def compress (s : Words) (block : List Nat) : Words := s.plus (rounds roundConstants block s)

/-- A one bit, zeros up to the last eight bytes of a block, and the length in bits. -/
def padded (message : List UInt8) : List Nat :=
  let n := message.length
  message.map UInt8.toNat ++ 0x80 :: List.replicate ((119 - n % 64) % 64) 0 ++
    (List.range 8).map fun i => (8 * n) >>> (8 * (7 - i)) % 256

def toWords : List Nat → List Nat
  | a :: b :: c :: d :: rest => (((a * 256 + b) * 256 + c) * 256 + d) :: toWords rest
  | _ => []

/-- Compress block after block; every block takes sixteen words. -/
def absorb : Nat → List Nat → Words → Words
  | 0, _, s => s
  | n + 1, words, s => absorb n (words.drop 16) (compress s (words.take 16))

def digest (message : List UInt8) : BitVec 256 :=
  let words := toWords (padded message)
  let s := absorb (words.length / 16) words initialWords
  BitVec.ofNat 256 <|
    [s.a, s.b, s.c, s.d, s.e, s.f, s.g, s.h].foldl (fun acc x => acc * 2 ^ 32 + x) 0

/-! ## Evaluation

The kernel evaluates a term when it is needed.  In the rounds as they are below, each word is
evaluated before the next round, and the window is sixteen arguments. -/

/-- `f n`, with `n` evaluated first. -/
def eager {α : Type} (n : Nat) (f : Nat → α) : α := Nat.rec (f 0) (fun m _ => f m.succ) n

@[simp] theorem eager_eq {α : Type} (n : Nat) (f : Nat → α) : eager n f = f n := by
  cases n <;> rfl

def eagerRounds : List Nat → (w₀ w₁ w₂ w₃ w₄ w₅ w₆ w₇ w₈ w₉ w₁₀ w₁₁ w₁₂ w₁₃ w₁₄ w₁₅ : Nat) →
    (a b c d e f g h : Nat) → Words
  | [], _, _, _, _, _, _, _, _, _, _, _, _, _, _, _, _, a, b, c, d, e, f, g, h =>
    ⟨a, b, c, d, e, f, g, h⟩
  | k :: ks, w₀, w₁, w₂, w₃, w₄, w₅, w₆, w₇, w₈, w₉, w₁₀, w₁₁, w₁₂, w₁₃, w₁₄, w₁₅,
      a, b, c, d, e, f, g, h =>
    eager (add32 (add32 (smallSigma1 w₁₄) w₉) (add32 (smallSigma0 w₁) w₀)) fun w₁₆ =>
      eager (add32 (add32 h (bigSigma1 e)) (add32 (ch e f g) (add32 k w₀))) fun t₁ =>
        eager (add32 t₁ (add32 (bigSigma0 a) (maj a b c))) fun a' =>
          eager (add32 d t₁) fun e' =>
            eagerRounds ks w₁ w₂ w₃ w₄ w₅ w₆ w₇ w₈ w₉ w₁₀ w₁₁ w₁₂ w₁₃ w₁₄ w₁₅ w₁₆
              a' a b c e' e f g

theorem rounds_eq_eager (ks : List Nat)
    (w₀ w₁ w₂ w₃ w₄ w₅ w₆ w₇ w₈ w₉ w₁₀ w₁₁ w₁₂ w₁₃ w₁₄ w₁₅ a b c d e f g h : Nat) :
    rounds ks [w₀, w₁, w₂, w₃, w₄, w₅, w₆, w₇, w₈, w₉, w₁₀, w₁₁, w₁₂, w₁₃, w₁₄, w₁₅]
        ⟨a, b, c, d, e, f, g, h⟩ =
      eagerRounds ks w₀ w₁ w₂ w₃ w₄ w₅ w₆ w₇ w₈ w₉ w₁₀ w₁₁ w₁₂ w₁₃ w₁₄ w₁₅
        a b c d e f g h := by
  induction ks generalizing w₀ w₁ w₂ w₃ w₄ w₅ w₆ w₇ w₈ w₉ w₁₀ w₁₁ w₁₂ w₁₃ w₁₄ w₁₅
    a b c d e f g h with
  | nil => rfl
  | cons k ks ih =>
    rw [rounds, eagerRounds, eager_eq, eager_eq, eager_eq, eager_eq, ← ih]
    rfl

def Words.eager (s : Words) (f : (a b c d e f g h : Nat) → Words) : Words :=
  Sha256.eager s.a fun a => Sha256.eager s.b fun b => Sha256.eager s.c fun c =>
    Sha256.eager s.d fun d => Sha256.eager s.e fun e => Sha256.eager s.f fun f' =>
      Sha256.eager s.g fun g => Sha256.eager s.h fun h => f a b c d e f' g h

def eagerCompress (s : Words) : List Nat → Words
  | [w₀, w₁, w₂, w₃, w₄, w₅, w₆, w₇, w₈, w₉, w₁₀, w₁₁, w₁₂, w₁₃, w₁₄, w₁₅] =>
    s.eager fun a b c d e f g h => Words.plus ⟨a, b, c, d, e, f, g, h⟩
      (eagerRounds roundConstants w₀ w₁ w₂ w₃ w₄ w₅ w₆ w₇ w₈ w₉ w₁₀ w₁₁ w₁₂ w₁₃ w₁₄ w₁₅
        a b c d e f g h)
  | block => compress s block

theorem compress_eq_eager (s : Words) (block : List Nat) :
    compress s block = eagerCompress s block := by
  unfold eagerCompress
  split
  · simp only [Words.eager, eager_eq]
    rw [← rounds_eq_eager]
    rfl
  · rfl

def eagerAbsorb : Nat → List Nat → Words → Words
  | 0, _, s => s
  | n + 1, words, s => eagerAbsorb n (words.drop 16) (eagerCompress s (words.take 16))

theorem absorb_eq_eager (n : Nat) (words : List Nat) (s : Words) :
    absorb n words s = eagerAbsorb n words s := by
  induction n generalizing words s with
  | zero => rfl
  | succ n ih => rw [absorb, eagerAbsorb, ih, compress_eq_eager]

/-- `f l`, with the numbers in `l` evaluated first. -/
def eagerAll {α : Type} : List Nat → (List Nat → α) → α
  | [], f => f []
  | n :: l, f => eager n fun n => eagerAll l fun l => f (n :: l)

theorem eagerAll_eq {α : Type} (l : List Nat) (f : List Nat → α) : eagerAll l f = f l := by
  induction l generalizing f with
  | nil => rfl
  | cons n l ih => rw [eagerAll, eager_eq, ih]

/-- The digest, with the words evaluated on the way. -/
def eagerDigest (message : List UInt8) : BitVec 256 :=
  eagerAll (toWords (padded message)) fun words =>
    let s := eagerAbsorb (words.length / 16) words initialWords
    BitVec.ofNat 256 <|
      [s.a, s.b, s.c, s.d, s.e, s.f, s.g, s.h].foldl (fun acc x => acc * 2 ^ 32 + x) 0

theorem digest_eq_eager : digest = eagerDigest := by
  funext message
  rw [digest, eagerDigest, eagerAll_eq, absorb_eq_eager]

/-- The two-block message of the standard's examples, the letters `abcd`, `bcde` up to
`nopq`. -/
example : digest ((List.range 14).flatMap fun i =>
    [UInt8.ofNat (97 + i), UInt8.ofNat (98 + i), UInt8.ofNat (99 + i), UInt8.ofNat (100 + i)]) =
    0x248d6a61d20638b8e5c026930c3e6039a33ce45964ff2167f6ecedd419db06c1 := by
  rw [digest_eq_eager]
  decide +kernel

/-! ## HMAC and HKDF -/

/-- The bytes of a digest, the most significant first. -/
def bytes (d : BitVec 256) : List UInt8 :=
  (List.range 32).map fun i => UInt8.ofNat (d.toNat / 256 ^ (31 - i) % 256)

theorem length_bytes (d : BitVec 256) : (bytes d).length = 32 := by
  rw [bytes, List.length_map, List.length_range]

/-- A digest can be read back from its bytes. -/
theorem bytes_injective : Function.Injective bytes := by
  intro a b h
  have hbyte : ∀ i < 32, a.toNat / 256 ^ i % 256 = b.toNat / 256 ^ i % 256 := by
    intro i hi
    have hget := congrArg (fun l : List UInt8 => l[31 - i]?) h
    have hlt : 31 - i < 32 := by omega
    simp only [bytes, List.getElem?_map, List.getElem?_range hlt, Option.map_some,
      Option.some.injEq, show 31 - (31 - i) = i by omega] at hget
    have hnat := congrArg UInt8.toNat hget
    rwa [UInt8.toNat_ofNat', UInt8.toNat_ofNat', Nat.mod_mod, Nat.mod_mod] at hnat
  apply BitVec.eq_of_getLsbD_eq
  intro k hk
  have hbit : ∀ x : Nat, (x / 256 ^ (k / 8) % 256).testBit (k % 8) = x.testBit k := by
    intro x
    have hsplit : 8 * (k / 8) + k % 8 = k := Nat.div_add_mod k 8
    rw [show (256 : Nat) ^ (k / 8) = 2 ^ (8 * (k / 8)) by rw [Nat.pow_mul],
      show (256 : Nat) = 2 ^ 8 by rfl, Nat.testBit_mod_two_pow, Nat.testBit_div_two_pow,
      Nat.add_comm, hsplit, decide_eq_true (Nat.mod_lt k (by omega)), Bool.true_and]
  rw [← BitVec.testBit_toNat, ← BitVec.testBit_toNat, ← hbit a.toNat, ← hbit b.toNat,
    hbyte (k / 8) (by omega)]

/-- HMAC with a key of at most one block. -/
def hmac (key message : List UInt8) : List UInt8 :=
  let block := key ++ List.replicate (64 - key.length) 0
  bytes (digest (block.map (· ^^^ 0x5c) ++ bytes (digest (block.map (· ^^^ 0x36) ++ message))))

/-- The blocks of the expansion, each over the one before. -/
def expand (key info : List UInt8) : Nat → Nat → List UInt8 → List UInt8
  | 0, _, _ => []
  | n + 1, counter, previous =>
    let block := hmac key (previous ++ info ++ [UInt8.ofNat counter])
    block ++ expand key info n (counter + 1) block

/-- HKDF without salt. -/
def hkdf (ikm info : List UInt8) (length : Nat) : List UInt8 :=
  (expand (hmac (List.replicate 32 0) ikm) info ((length + 31) / 32) 1 []).take length

def eagerHmac (key message : List UInt8) : List UInt8 :=
  let block := key ++ List.replicate (64 - key.length) 0
  bytes (eagerDigest
    (block.map (· ^^^ 0x5c) ++ bytes (eagerDigest (block.map (· ^^^ 0x36) ++ message))))

theorem hmac_eq_eager (key message : List UInt8) : hmac key message = eagerHmac key message := by
  rw [hmac, eagerHmac, digest_eq_eager]

def eagerExpand (key info : List UInt8) : Nat → Nat → List UInt8 → List UInt8
  | 0, _, _ => []
  | n + 1, counter, previous =>
    let block := eagerHmac key (previous ++ info ++ [UInt8.ofNat counter])
    block ++ eagerExpand key info n (counter + 1) block

theorem expand_eq_eager (key info : List UInt8) (n counter : Nat) (previous : List UInt8) :
    expand key info n counter previous = eagerExpand key info n counter previous := by
  induction n generalizing counter previous with
  | zero => rfl
  | succ n ih => rw [expand, eagerExpand, hmac_eq_eager, ih]

/-- HKDF without salt, over the digest that evaluates its words. -/
def eagerHkdf (ikm info : List UInt8) (length : Nat) : List UInt8 :=
  (eagerExpand (eagerHmac (List.replicate 32 0) ikm) info ((length + 31) / 32) 1 []).take length

theorem hkdf_eq_eager : hkdf = eagerHkdf := by
  funext ikm info length
  rw [hkdf, eagerHkdf, expand_eq_eager, hmac_eq_eager]

end Sha256
end Linkora

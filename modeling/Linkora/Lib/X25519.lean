import Mathlib.Algebra.Group.Nat.Defs
import Mathlib.Data.List.Basic

/-!
# X25519

The Diffie-Hellman function of RFC 7748 on lists of 32 bytes, with natural numbers below
the prime for the field elements, so that it can be computed in the kernel.
-/

namespace Linkora
namespace X25519

/-- The prime `2 ^ 255 - 19`. -/
def prime : Nat := 2 ^ 255 - 19

def sub (x y : Nat) : Nat := (x + prime - y) % prime

def mul (x y : Nat) : Nat := x * y % prime

/-- `x ^ e`, of which `n` bits are looked at. -/
def pow (x : Nat) : Nat → Nat → Nat
  | 0, _ => 1
  | n + 1, e =>
    let half := pow x n (e / 2)
    if e % 2 = 1 then mul (mul half half) x else mul half half

/-- A point by its coordinate `X / Z`. -/
structure Point where
  X : Nat
  Z : Nat

def double (P : Point) : Point :=
  let plus := mul (P.X + P.Z) (P.X + P.Z)
  let minus := mul (sub P.X P.Z) (sub P.X P.Z)
  let e := sub plus minus
  ⟨mul plus minus, mul e (plus + 121665 * e)⟩

/-- The sum of two points whose difference has the coordinate `u`. -/
def add (u : Nat) (P Q : Point) : Point :=
  let da := mul (sub Q.X Q.Z) (P.X + P.Z)
  let cb := mul (Q.X + Q.Z) (sub P.X P.Z)
  ⟨mul (da + cb) (da + cb), mul u (mul (sub da cb) (sub da cb))⟩

/-- The ladder: the multiples `k` and `k + 1` of the point, for the highest bits `k`. -/
def ladder (u scalar : Nat) : Nat → Point × Point
  | 0 => (⟨1, 0⟩, ⟨u, 1⟩)
  | n + 1 =>
    let (P, Q) := ladder u (scalar / 2) n
    if scalar % 2 = 1 then (add u P Q, double Q) else (double P, add u P Q)

def ofBytes (bytes : List UInt8) : Nat := bytes.foldr (fun b acc => b.toNat + 256 * acc) 0

def toBytes (n : Nat) : List UInt8 := (List.range 32).map fun i => UInt8.ofNat (n / 256 ^ i)

/-- The low three bits and the highest are cleared and bit 254 is set. -/
def clamp (n : Nat) : Nat := n % 2 ^ 254 / 8 * 8 + 2 ^ 254

def scalarMult (scalar u : List UInt8) : List UInt8 :=
  let (P, _) := ladder (ofBytes u % 2 ^ 255) (clamp (ofBytes scalar)) 255
  toBytes (mul P.X (pow P.Z 255 (prime - 2)))

def basePoint : List UInt8 := 9 :: List.replicate 31 0

def getPublicKey (privateKey : List UInt8) : List UInt8 := scalarMult privateKey basePoint

/-- A result of zeros, which points of small order give, is refused. -/
def getSharedSecret (privateKey publicKey : List UInt8) : Option (List UInt8) :=
  let secret := scalarMult privateKey publicKey
  if secret = List.replicate 32 0 then none else some secret

/-- Once around from the base point. -/
example : scalarMult basePoint basePoint =
    [0x42, 0x2c, 0x8e, 0x7a, 0x62, 0x27, 0xd7, 0xbc, 0xa1, 0x35, 0x0b, 0x3e, 0x2b, 0xb7, 0x27, 0x9f,
      0x78, 0x97, 0xb8, 0x7b, 0xb6, 0x85, 0x4b, 0x78, 0x3c, 0x60, 0xe8, 0x03, 0x11, 0xae, 0x30,
      0x79] := by
  decide +kernel

end X25519
end Linkora

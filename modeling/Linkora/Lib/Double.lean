import Mathlib.Algebra.Order.Floor.Ring
import Mathlib.Data.Int.Log
import Mathlib.Data.Rat.Floor

/-!
# Numbers

The numbers of JavaScript: the binary64 values by the rational that they are, the infinities
and `NaN`.  The sign of zero is left out.  A rational is rounded to the nearest
value, and to the even one of two that are equally near.
-/

namespace Linkora

inductive Number where
  | finite (q : Rat)
  | infinite (negative : Bool)
  | nan
  deriving DecidableEq

namespace Number

/-- `Number.isInteger(x)` -/
def isInteger : Number → Bool
  | finite q => q.den = 1
  | infinite _ | nan => false

/-- The integer that an integer is. -/
def toInt : Number → Int
  | finite q => ⌊q⌋
  | infinite _ | nan => 0

theorem isInteger_natCast (n : Nat) : isInteger (finite n) = true := by
  rw [isInteger, decide_eq_true_eq]
  exact Rat.den_natCast n

theorem toInt_natCast (n : Nat) : toInt (finite n) = n := by
  rw [toInt, Int.floor_natCast]

/-! ## Rounding -/

def roundHalfEven (q : Rat) : Int :=
  let d := q - ⌊q⌋
  if d < 1 / 2 then ⌊q⌋
  else if 1 / 2 < d then ⌊q⌋ + 1
  else if ⌊q⌋ % 2 = 0 then ⌊q⌋
  else ⌊q⌋ + 1

theorem roundHalfEven_intCast (n : Int) : roundHalfEven n = n := by
  have hfloor : ⌊(n : Rat)⌋ = n := Int.floor_intCast n
  simp only [roundHalfEven]
  rw [hfloor, sub_self, if_pos (by norm_num)]

/-- The exponent of the last place: the significand has 53 bits, and the least value that is
not zero is `2 ^ -1074`. -/
def lastPlace (q : Rat) : Int := max (Int.log 2 |q| - 52) (-1074)

def ofRat (q : Rat) : Number :=
  let place : Rat := 2 ^ lastPlace q
  let v : Rat := roundHalfEven (q / place) * place
  if |v| < 2 ^ 1024 then finite v else infinite (decide (q < 0))

/-- A rational that needs no rounding. -/
theorem ofRat_exact {q : Rat} {m : Int} (h : q = m * 2 ^ lastPlace q) (hlt : |q| < 2 ^ 1024) :
    ofRat q = finite q := by
  have hplace : (2 : Rat) ^ lastPlace q ≠ 0 := zpow_ne_zero _ (by norm_num)
  have hdiv : q / 2 ^ lastPlace q = m := (eq_div_of_mul_eq hplace h.symm).symm
  simp only [ofRat]
  rw [hdiv, roundHalfEven_intCast, ← h, if_pos hlt]

theorem lastPlace_natCast (n : Nat) : lastPlace n = (Nat.log 2 n : Int) - 52 := by
  rw [lastPlace, abs_of_nonneg (Nat.cast_nonneg n), Int.log_natCast]
  omega

/-- The safe integers are exact. -/
theorem ofRat_natCast {n : Nat} (hn : n < 2 ^ 53) : ofRat n = finite n := by
  have hlog : Nat.log 2 n ≤ 52 := by
    rcases Nat.eq_zero_or_pos n with rfl | hpos
    · simp
    · exact Nat.lt_succ_iff.mp (Nat.log_lt_of_lt_pow hpos.ne' hn)
  refine ofRat_exact (m := n * 2 ^ (52 - Nat.log 2 n)) ?_ ?_
  · have hcast : (((52 - Nat.log 2 n : Nat) : Int) : Int) + lastPlace n = 0 := by
      rw [lastPlace_natCast]
      omega
    push_cast
    rw [mul_assoc, ← zpow_natCast, ← zpow_add₀ (by norm_num), hcast, zpow_zero, mul_one]
  · rw [abs_of_nonneg (Nat.cast_nonneg n)]
    have hlt : (n : Rat) < 2 ^ 53 := by exact_mod_cast hn
    exact hlt.trans_le (pow_le_pow_right₀ (by norm_num) (by norm_num))

/-- So are the powers of two. -/
theorem ofRat_two_pow {k : Nat} (hk : k < 1024) :
    ofRat ((2 ^ k : Nat) : Rat) = finite (2 ^ k : Nat) := by
  refine ofRat_exact (m := 2 ^ 52) ?_ ?_
  · have hm : ((2 ^ 52 : Int) : Rat) = 2 ^ (52 : Int) := by norm_num
    have hexp : (52 : Int) + ((k : Int) - 52) = k := by omega
    rw [lastPlace_natCast, Nat.log_pow Nat.one_lt_two, hm, ← zpow_add₀ (by norm_num), hexp,
      zpow_natCast, Nat.cast_pow, Nat.cast_ofNat]
  · rw [abs_of_nonneg (Nat.cast_nonneg _)]
    push_cast
    exact pow_lt_pow_right₀ (by norm_num) hk

end Number
end Linkora

import Mathlib.Algebra.GroupWithZero.Nat
import Mathlib.Data.Nat.Log

/-! # Natural numbers as double-precision numbers

A double has 53 significant bits: naturals below `2 ^ 53` are exact, larger ones
are rounded to the nearest double, ties to even.
-/

namespace PizzaChain

def roundToDouble (value : Nat) : Nat :=
  if value < 2 ^ 53 then value
  else
    let unit := 2 ^ (Nat.log 2 value - 52)
    let quotient := value / unit
    let remainder := value % unit
    if 2 * remainder < unit ∨ (2 * remainder = unit ∧ quotient % 2 = 0) then quotient * unit
    else (quotient + 1) * unit

theorem roundToDouble_of_lt {value : Nat} (small : value < 2 ^ 53) :
    roundToDouble value = value :=
  if_pos small

theorem le_roundToDouble {value : Nat} (large : 2 ^ 53 ≤ value) : 2 ^ 53 ≤ roundToDouble value := by
  have bits : 53 ≤ Nat.log 2 value := Nat.le_log_of_pow_le (by omega) large
  have leading : 2 ^ Nat.log 2 value ≤ value := Nat.pow_log_le_self 2 (by omega)
  have split : 2 ^ 52 * 2 ^ (Nat.log 2 value - 52) = 2 ^ Nat.log 2 value := by
    rw [← Nat.pow_add]
    congr 1
    omega
  have quotient : 2 ^ 52 ≤ value / 2 ^ (Nat.log 2 value - 52) := by
    rw [Nat.le_div_iff_mul_le (Nat.two_pow_pos _), split]
    exact leading
  have whole : 2 ^ 53 ≤ value / 2 ^ (Nat.log 2 value - 52) * 2 ^ (Nat.log 2 value - 52) :=
    calc 2 ^ 53 ≤ 2 ^ Nat.log 2 value := Nat.pow_le_pow_right (by omega) bits
      _ = 2 ^ 52 * 2 ^ (Nat.log 2 value - 52) := split.symm
      _ ≤ _ := Nat.mul_le_mul_right _ quotient
  rw [roundToDouble, if_neg (by omega)]
  dsimp only
  split
  · exact whole
  · exact whole.trans (Nat.mul_le_mul_right _ (Nat.le_succ _))

theorem roundToDouble_eq_zero_iff {value : Nat} : roundToDouble value = 0 ↔ value = 0 := by
  rcases Nat.lt_or_ge value (2 ^ 53) with small | large
  · rw [roundToDouble_of_lt small]
  · have rounded := le_roundToDouble large
    constructor <;> intro zero <;> omega

end PizzaChain

import Mathlib.Algebra.Group.Nat.Defs
import Mathlib.Data.Nat.Log

/-!
# Integers as doubles

`toDouble` is the conversion of an unsigned integer to a double: the nearest number with a
significand of 53 bits, and of two that are equally near the one whose significand is even.  The
result is an integer again.

* `toDouble_eq_self_iff` : the integers that are not changed;
* `toDouble_of_lt`, `le_toDouble` : all below `2 ^ 53` are among them, and the others stay above.
-/

namespace Autossh

/-- The bits of the number beyond the 53 of a significand. -/
def excessBits (n : ℕ) : ℕ := n.log2 - 52

/-- `as f64`, rounded to nearest, ties to even. -/
def toDouble (n : ℕ) : ℕ :=
  if 2 * (n % 2 ^ excessBits n) < 2 ^ excessBits n ∨
      (2 * (n % 2 ^ excessBits n) = 2 ^ excessBits n ∧ n / 2 ^ excessBits n % 2 = 0) then
    n / 2 ^ excessBits n * 2 ^ excessBits n
  else (n / 2 ^ excessBits n + 1) * 2 ^ excessBits n

/-- **An integer is a double exactly if its lowest bits are zero.** -/
theorem toDouble_eq_self_iff {n : ℕ} : toDouble n = n ↔ 2 ^ excessBits n ∣ n := by
  have hpos : 0 < 2 ^ excessBits n := Nat.two_pow_pos _
  have hdiv := Nat.div_add_mod n (2 ^ excessBits n)
  have hmod := Nat.mod_lt n hpos
  rw [Nat.dvd_iff_mod_eq_zero]
  unfold toDouble
  constructor
  · intro h
    by_contra hr
    split_ifs at h
    · rw [Nat.mul_comm] at h
      omega
    · rw [Nat.add_mul, Nat.one_mul, Nat.mul_comm] at h
      omega
  · intro hr
    rw [if_pos (.inl (by omega)), Nat.mul_comm]
    omega

theorem excessBits_of_lt {n : ℕ} (h : n < 2 ^ 53) : excessBits n = 0 := by
  by_cases hn : n = 0
  · subst hn
    rfl
  · have := (Nat.log2_lt hn).2 h
    unfold excessBits
    omega

theorem toDouble_of_lt {n : ℕ} (h : n < 2 ^ 53) : toDouble n = n := by
  rw [toDouble_eq_self_iff, excessBits_of_lt h]
  exact Nat.one_dvd n

theorem le_toDouble {n : ℕ} (h : 2 ^ 53 ≤ n) : 2 ^ 53 ≤ toDouble n := by
  have hn : n ≠ 0 := by
    rintro rfl
    exact absurd h (by decide)
  have hlog : 53 ≤ n.log2 := (Nat.le_log2 hn).2 h
  -- the significand has all its bits
  have hq : 2 ^ 52 ≤ n / 2 ^ excessBits n := by
    rw [Nat.le_div_iff_mul_le (Nat.two_pow_pos _), ← Nat.pow_add]
    have hsum : 52 + excessBits n = n.log2 := by
      unfold excessBits
      omega
    rw [hsum]
    exact Nat.log2_self_le hn
  have htwo : 2 ≤ 2 ^ excessBits n := by
    have he : 1 ≤ excessBits n := by
      unfold excessBits
      omega
    exact Nat.pow_le_pow_right Nat.two_pos he
  have hdown : 2 ^ 53 ≤ n / 2 ^ excessBits n * 2 ^ excessBits n :=
    calc 2 ^ 53 = 2 ^ 52 * 2 := by decide
      _ ≤ n / 2 ^ excessBits n * 2 ^ excessBits n := Nat.mul_le_mul hq htwo
  unfold toDouble
  split_ifs
  · exact hdown
  · rw [Nat.add_mul]
    omega

example : toDouble (2 ^ 53 + 1) = 2 ^ 53 ∧ toDouble (2 ^ 53 + 3) = 2 ^ 53 + 4 := by decide

end Autossh

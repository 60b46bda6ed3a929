import XdpDetector.Common
import Mathlib.Algebra.Order.Ring.Nat

/-!
# Fixed-point division

`fixed_div` shifts the dividend left and divides. The shift is taken in 64 bits, so from `2 ^ 48`
on the dividend loses its high bits, however small the quotient is.

* `mod_div_eq_div_iff`: a wrapped dividend changes every quotient;
* `fixedDiv`: the function;
* `toNat_fixedDiv`: its value on every pair of operands;
* **`fixedDiv_exact_iff`**: the dividends that it divides.
-/

namespace XdpDetector

/-! ## Wrapped dividends -/

/-- **A wrapped dividend changes the quotient** by every divisor up to the modulus. -/
theorem mod_div_eq_div_iff {n m b : ℕ} (hb : 0 < b) (hm : b ≤ m) :
    n % m / b = n / b ↔ n < m := by
  constructor
  · intro h
    by_contra hn
    have hle : n % m + b ≤ n := by
      have hq : m * 1 ≤ m * (n / m) :=
        Nat.mul_le_mul_left m ((Nat.le_div_iff_mul_le (hb.trans_le hm)).mpr (by omega))
      have := Nat.mod_add_div n m
      omega
    have hlt : n % m / b + 1 ≤ n / b := by
      rw [← Nat.add_div_right _ hb]
      exact Nat.div_le_div_right hle
    omega
  · intro hn
    rw [Nat.mod_eq_of_lt hn]

/-- The number `r`, shifted by `FIXED_SHIFT`, keeps its quotients exactly when it is below
`2 ^ 48`. -/
theorem shifted_div_eq_iff {r b : ℕ} (hb : 0 < b) (hb' : b < 2 ^ 64) :
    r * 2 ^ 16 % 2 ^ 64 / b = r * 2 ^ 16 / b ↔ r < 2 ^ 48 := by
  rw [mod_div_eq_div_iff hb hb'.le]
  omega

theorem toNat_shiftLeft_div (a b : UInt64) :
    ((a <<< UInt64.ofNat fixedShift) / b).toNat = a.toNat * 2 ^ 16 % 2 ^ 64 / b.toNat := by
  rw [UInt64.toNat_div, ← fixedFromUint, toNat_fixedFromUint]
  rfl

/-! ## The function -/

/-- `fixed_div`. -/
def fixedDiv (a b : Fixed) : Fixed :=
  if b = 0 then 0 else (a <<< UInt64.ofNat fixedShift) / b

section Value

variable {a b : Fixed}

/-- Division by zero gives `0`, as it does over `ℕ`. -/
theorem toNat_fixedDiv : (fixedDiv a b).toNat = a.toNat * 2 ^ 16 % 2 ^ 64 / b.toNat := by
  unfold fixedDiv
  split_ifs with hb
  · rw [hb, UInt64.toNat_zero, Nat.div_zero]
  · exact toNat_shiftLeft_div a b

theorem toNat_fixedDiv_eq_iff (hb : 0 < b) :
    (fixedDiv a b).toNat = a.toNat * 2 ^ 16 / b.toNat ↔ a.toNat < 2 ^ 48 := by
  rw [toNat_fixedDiv]
  exact shifted_div_eq_iff (UInt64.lt_iff_toNat_lt.mp hb) b.toNat_lt

theorem toNat_fixedDiv_self (ha : 0 < a) (h : a.toNat < 2 ^ 48) :
    (fixedDiv a a).toNat = 2 ^ 16 := by
  rw [(toNat_fixedDiv_eq_iff ha).mpr h]
  exact Nat.mul_div_cancel_left _ (UInt64.lt_iff_toNat_lt.mp ha)

theorem toNat_fixedDiv_le : (fixedDiv a b).toNat ≤ a.toNat * 2 ^ 16 / b.toNat := by
  rw [toNat_fixedDiv]
  exact Nat.div_le_div_right (Nat.mod_le _ _)

end Value

/-- **The dividends that `fixed_div` divides**: those below `2 ^ 48`, for every divisor. There the
quotient of a number by itself is `1`, and no smaller dividend has a larger quotient. -/
theorem fixedDiv_exact_iff (a b : Fixed) (hb : 0 < b) :
    ((fixedDiv a b).toNat = a.toNat * 2 ^ 16 / b.toNat ∧
        (0 < a → (fixedDiv a a).toNat = 2 ^ 16) ∧ ∀ a' ≤ a, fixedDiv a' b ≤ fixedDiv a b) ↔
      a.toNat < 2 ^ 48 := by
  rw [← toNat_fixedDiv_eq_iff hb]
  constructor
  · rintro ⟨hv, -⟩
    exact hv
  · intro hv
    refine ⟨hv, fun ha => toNat_fixedDiv_self ha ((toNat_fixedDiv_eq_iff hb).mp hv), ?_⟩
    intro a' ha'
    rw [UInt64.le_iff_toNat_le, hv]
    refine toNat_fixedDiv_le.trans (Nat.div_le_div_right (Nat.mul_le_mul_right _ ?_))
    exact UInt64.le_iff_toNat_le.mp ha'

theorem fixedDiv_exact_three_two :
    0 < fixedFromUint 2 ∧
      ((fixedDiv (fixedFromUint 3) (fixedFromUint 2)).toNat = 3 * 2 ^ 16 * 2 ^ 16 / 2 ^ 17 ∧
        (0 < fixedFromUint 3 → (fixedDiv (fixedFromUint 3) (fixedFromUint 3)).toNat = 2 ^ 16) ∧
        ∀ a' ≤ fixedFromUint 3,
          fixedDiv a' (fixedFromUint 2) ≤ fixedDiv (fixedFromUint 3) (fixedFromUint 2)) :=
  ⟨by decide, (fixedDiv_exact_iff (fixedFromUint 3) (fixedFromUint 2) (by decide)).mpr (by decide)⟩

/-- `2 ^ 48` by itself: the quotient `1` fits, the shifted dividend is `2 ^ 64`, and the result is
`0`. It is also below the quotient of the dividend before it. -/
theorem fixedDiv_overflow :
    (281474976710656 : UInt64).toNat * 2 ^ 16 / (281474976710656 : UInt64).toNat < 2 ^ 64 ∧
      (fixedDiv 281474976710656 281474976710656).toNat ≠
        (281474976710656 : UInt64).toNat * 2 ^ 16 / (281474976710656 : UInt64).toNat ∧
      (fixedDiv 281474976710656 281474976710656).toNat ≠ 2 ^ 16 ∧
      ¬ fixedDiv 281474976710655 281474976710656 ≤ fixedDiv 281474976710656 281474976710656 := by
  decide

end XdpDetector

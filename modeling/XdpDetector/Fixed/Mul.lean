import XdpDetector.Common
import Mathlib.Algebra.Order.Ring.Nat
import Mathlib.Tactic.Ring

/-!
# Fixed-point multiplication

`fixed_mul` splits both operands at the binary point and adds three shifted partial products. The
cross terms and the product of the fractions are shifted `FIXED_SHIFT` places too far, so that a
fraction is lost whenever one of them is not zero.

* `fixedMul`: the function;
* `toNat_fixedMul`: its value, for products that fit;
* **`fixedMul_exact_iff`**: the operands on which it multiplies.
-/

namespace XdpDetector

/-- The fraction of a fixed-point number: `a & ((1ULL << FIXED_SHIFT) - 1)`. -/
def fixedFrac (a : Fixed) : UInt64 := a &&& ((1 <<< UInt64.ofNat fixedShift) - 1)

/-- `fixed_mul`. -/
def fixedMul (a b : Fixed) : Fixed :=
  let aInt := a >>> UInt64.ofNat fixedShift
  let aFrac := fixedFrac a
  let bInt := b >>> UInt64.ofNat fixedShift
  let bFrac := fixedFrac b
  let resultInt := aInt * bInt
  let resultFrac := (aInt * bFrac + aFrac * bInt) >>> UInt64.ofNat fixedShift
  let resultFracFrac := (aFrac * bFrac) >>> UInt64.ofNat (fixedShift * 2)
  (resultInt <<< UInt64.ofNat fixedShift) + resultFrac + resultFracFrac

theorem toNat_shiftRight_fixedShift (a : UInt64) :
    (a >>> UInt64.ofNat fixedShift).toNat = a.toNat / fixedScale := by
  rw [UInt64.toNat_shiftRight]
  simp [fixedShift, fixedScale, Nat.shiftRight_eq_div_pow]

theorem toNat_shiftLeft_fixedShift (a : UInt64) :
    (a <<< UInt64.ofNat fixedShift).toNat = a.toNat * fixedScale % 2 ^ 64 := toNat_fixedFromUint a

theorem toNat_fixedFrac (a : Fixed) : (fixedFrac a).toNat = a.toNat % fixedScale := by
  have hmask : ((1 : UInt64) <<< UInt64.ofNat fixedShift) - 1 = 65535 := by decide
  rw [fixedFrac, hmask, UInt64.toNat_and]
  exact Nat.and_two_pow_sub_one_eq_mod a.toNat 16

/-! ## Products over the integers -/

section Split

variable (a b : ℕ)

theorem mul_eq_split : a * b = (a / fixedScale * (b / fixedScale) * fixedScale +
      (a / fixedScale * (b % fixedScale) + a % fixedScale * (b / fixedScale))) * fixedScale +
    a % fixedScale * (b % fixedScale) := by
  conv_lhs => rw [← Nat.div_add_mod' a fixedScale, ← Nat.div_add_mod' b fixedScale]
  ring

theorem mul_div_eq_split : a * b / fixedScale = a / fixedScale * (b / fixedScale) * fixedScale +
    (a / fixedScale * (b % fixedScale) + a % fixedScale * (b / fixedScale)) +
    a % fixedScale * (b % fixedScale) / fixedScale := by
  rw [mul_eq_split a b, Nat.mul_comm _ fixedScale, Nat.mul_add_div (by decide)]

theorem frac_mul_frac_lt : a % fixedScale * (b % fixedScale) < fixedScale * fixedScale :=
  Nat.mul_lt_mul'' (Nat.mod_lt a (by decide)) (Nat.mod_lt b (by decide))

/-- **Shifting the cross terms away** loses nothing only if there is nothing to lose. -/
theorem shifted_eq_iff :
    a / fixedScale * (b / fixedScale) * fixedScale +
        (a / fixedScale * (b % fixedScale) + a % fixedScale * (b / fixedScale)) / fixedScale =
      a * b / fixedScale ↔
    (a / fixedScale * (b % fixedScale) = 0 ∧ a % fixedScale * (b / fixedScale) = 0) ∧
      a % fixedScale * (b % fixedScale) < fixedScale := by
  rw [mul_div_eq_split]
  generalize a / fixedScale * (b / fixedScale) * fixedScale = hi
  generalize a / fixedScale * (b % fixedScale) = x
  generalize a % fixedScale * (b / fixedScale) = y
  generalize a % fixedScale * (b % fixedScale) = lo
  unfold fixedScale
  omega

theorem lossless_iff :
    ((a / fixedScale * (b % fixedScale) = 0 ∧ a % fixedScale * (b / fixedScale) = 0) ∧
      a % fixedScale * (b % fixedScale) < fixedScale) ↔
    (a % fixedScale = 0 ∧ b % fixedScale = 0) ∨ a = 0 ∨ b = 0 ∨
      (a < fixedScale ∧ b < fixedScale ∧ a * b < fixedScale) := by
  have hpos : 0 < fixedScale := by decide
  have ha := Nat.div_add_mod a fixedScale
  have hb := Nat.div_add_mod b fixedScale
  constructor
  · rw [mul_eq_zero, mul_eq_zero]
    rintro ⟨⟨hai | hbf, haf | hbi⟩, hlt⟩
    · refine Or.inr (Or.inl ?_)
      rw [← ha, hai, haf, Nat.mul_zero, Nat.add_zero]
    · have ha' := (Nat.div_eq_zero_iff_lt hpos).mp hai
      have hb' := (Nat.div_eq_zero_iff_lt hpos).mp hbi
      rw [Nat.mod_eq_of_lt ha', Nat.mod_eq_of_lt hb'] at hlt
      exact Or.inr (Or.inr (Or.inr ⟨ha', hb', hlt⟩))
    · exact Or.inl ⟨haf, hbf⟩
    · refine Or.inr (Or.inr (Or.inl ?_))
      rw [← hb, hbi, hbf, Nat.mul_zero, Nat.add_zero]
  · rintro (⟨haf, hbf⟩ | rfl | rfl | ⟨ha', hb', hlt⟩)
    · simp [haf, hbf, hpos]
    · simp [hpos]
    · simp [hpos]
    · rw [Nat.mod_eq_of_lt ha', Nat.mod_eq_of_lt hb', Nat.div_eq_of_lt ha', Nat.div_eq_of_lt hb']
      simpa using hlt

end Split

/-! ## The function -/

/-- The value of `fixed_mul` when the exact product fits: no partial product overflows. -/
theorem toNat_fixedMul {a b : Fixed} (h : a.toNat * b.toNat / fixedScale < 2 ^ 64) :
    (fixedMul a b).toNat = a.toNat / fixedScale * (b.toNat / fixedScale) * fixedScale +
      (a.toNat / fixedScale * (b.toNat % fixedScale) +
        a.toNat % fixedScale * (b.toNat / fixedScale)) / fixedScale := by
  have hlo := frac_mul_frac_lt a.toNat b.toNat
  have hff : ((fixedFrac a * fixedFrac b) >>> UInt64.ofNat (fixedShift * 2)).toNat = 0 := by
    rw [UInt64.toNat_shiftRight, UInt64.toNat_mul, toNat_fixedFrac, toNat_fixedFrac,
      Nat.mod_eq_of_lt (hlo.trans_le (by decide)), Nat.shiftRight_eq_div_pow]
    exact Nat.div_eq_of_lt hlo
  rw [mul_div_eq_split] at h
  simp only [fixedMul, UInt64.toNat_add, UInt64.toNat_mul, toNat_shiftRight_fixedShift,
    toNat_shiftLeft_fixedShift, toNat_fixedFrac, hff]
  generalize a.toNat / fixedScale * (b.toNat % fixedScale) = x at h ⊢
  generalize a.toNat % fixedScale * (b.toNat / fixedScale) = y at h ⊢
  generalize a.toNat / fixedScale * (b.toNat / fixedScale) = hi at h ⊢
  unfold fixedScale at h ⊢
  omega

/-- **The operands that `fixed_mul` multiplies**: two whole numbers, a zero, or two fractions whose
product is below one unit in the last place. -/
theorem fixedMul_exact_iff (a b : Fixed) (h : a.toNat * b.toNat / 2 ^ 16 < 2 ^ 64) :
    (fixedMul a b).toNat = a.toNat * b.toNat / 2 ^ 16 ↔
      (a.toNat % 2 ^ 16 = 0 ∧ b.toNat % 2 ^ 16 = 0) ∨ a = 0 ∨ b = 0 ∨
        (a.toNat < 2 ^ 16 ∧ b.toNat < 2 ^ 16 ∧ a.toNat * b.toNat < 2 ^ 16) := by
  have hscale : 2 ^ 16 = fixedScale := rfl
  have ha : a = 0 ↔ a.toNat = 0 := UInt64.toNat_inj.symm
  have hb : b = 0 ↔ b.toNat = 0 := UInt64.toNat_inj.symm
  rw [hscale] at h ⊢
  rw [toNat_fixedMul h, shifted_eq_iff, lossless_iff, ha, hb]

theorem fixedMul_exact_two_three :
    (fixedMul (fixedFromUint 2) (fixedFromUint 3)).toNat = 2 ^ 17 * (3 * 2 ^ 16) / 2 ^ 16 :=
  (fixedMul_exact_iff (fixedFromUint 2) (fixedFromUint 3) (by decide)).mpr (Or.inl (by decide))

/-- `1.5 * 1.5`, which is `2.25`, comes out as `1` and one unit in the last place. -/
theorem fixedMul_three_halves :
    (98304 : UInt64).toNat * (98304 : UInt64).toNat / 2 ^ 16 < 2 ^ 64 ∧
      (fixedMul 98304 98304).toNat ≠ (98304 : UInt64).toNat * (98304 : UInt64).toNat / 2 ^ 16 := by
  decide

end XdpDetector

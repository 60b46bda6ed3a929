import XdpDetector.Fixed.Div

/-!
# Fixed-point logarithm

`fixed_log2` finds the leading bit `k` of its argument by shifting, and interpolates linearly
between `2 ^ k` and `2 ^ (k + 1)`. The remainder is shifted left before it is divided, and from
`2 ^ 48` on the shift overflows.

* `log2IntPart`, `log2Frac`, `fixedLog2`: the loop, the fraction and the function;
* `toNat_log2IntPart`: the loop ends with the leading bit;
* `toNat_fixedLog2`: the value on every argument;
* **`fixedLog2_exact_iff`**: where the function interpolates.
-/

namespace XdpDetector

theorem toNat_shiftRight_one (x : UInt64) : (x >>> 1).toNat = x.toNat / 2 := by
  rw [UInt64.toNat_shiftRight, Nat.shiftRight_eq_div_pow]
  rfl

/-- `while (tmp >>= 1) int_part++`. -/
def log2Loop (tmp intPart : UInt64) : UInt64 :=
  if tmp >>> 1 = 0 then intPart else log2Loop (tmp >>> 1) (intPart + 1)
termination_by tmp.toNat
decreasing_by
  have h : (tmp >>> 1).toNat ≠ 0 := fun hc => ‹¬ tmp >>> 1 = 0› (UInt64.toNat_inj.mp hc)
  rw [toNat_shiftRight_one] at h ⊢
  omega

def log2IntPart (x : UInt64) : UInt64 := log2Loop x 0

/-- `((x - base) << FIXED_SHIFT) / base`, with `base = 1ULL << int_part`. -/
def log2Frac (x : UInt64) : UInt64 :=
  ((x - (1 <<< log2IntPart x)) <<< UInt64.ofNat fixedShift) / (1 <<< log2IntPart x)

/-- `fixed_log2`. -/
def fixedLog2 (x : UInt64) : Fixed :=
  if x = 0 then 0 else (log2IntPart x <<< UInt64.ofNat fixedShift) ||| log2Frac x

/-- **The loop** adds the position of the leading bit. -/
theorem toNat_log2Loop (tmp intPart : UInt64) (h : intPart.toNat + tmp.toNat.log2 < 2 ^ 64) :
    (log2Loop tmp intPart).toNat = intPart.toNat + tmp.toNat.log2 := by
  fun_induction log2Loop tmp intPart with
  | case1 tmp intPart hz =>
    have h2 : tmp.toNat / 2 = 0 := by rw [← toNat_shiftRight_one, hz]; rfl
    rw [Nat.log2_def, if_neg (by omega), Nat.add_zero]
  | case2 tmp intPart hz ih =>
    have h2 : tmp.toNat / 2 ≠ 0 := by
      rw [← toNat_shiftRight_one]
      exact fun hc => hz (UInt64.toNat_inj.mp hc)
    rw [Nat.log2_def, if_pos (by omega)] at h ⊢
    have hs : (intPart + 1).toNat = intPart.toNat + 1 := by
      rw [UInt64.toNat_add]
      exact Nat.mod_eq_of_lt (by simp; omega)
    rw [toNat_shiftRight_one, hs] at ih
    rw [ih (by omega)]
    omega

theorem toNat_log2IntPart (x : UInt64) : (log2IntPart x).toNat = x.toNat.log2 := by
  have hlt : (0 : UInt64).toNat + x.toNat.log2 < 2 ^ 64 := by
    have := x.toNat_lt
    have := Nat.log2_le_self x.toNat
    simp; omega
  rw [log2IntPart, toNat_log2Loop x 0 hlt, UInt64.toNat_zero, Nat.zero_add]

/-! ## The value -/

section Value

variable {x : UInt64} {k : ℕ}

theorem lt_64_of_two_pow_le (hk : 2 ^ k ≤ x.toNat) : k < 64 :=
  (Nat.pow_lt_pow_iff_right (by decide)).mp (hk.trans_lt x.toNat_lt)

theorem toNat_base (hk : 2 ^ k ≤ x.toNat) (hk' : x.toNat < 2 ^ (k + 1)) :
    ((1 : UInt64) <<< log2IntPart x).toNat = 2 ^ k := by
  have h64 := lt_64_of_two_pow_le hk
  have hlog : x.toNat.log2 = k :=
    (Nat.log2_eq_iff (by have := Nat.two_pow_pos k; omega)).mpr ⟨hk, hk'⟩
  rw [UInt64.toNat_shiftLeft, toNat_log2IntPart, hlog, Nat.mod_eq_of_lt h64, Nat.shiftLeft_eq,
    UInt64.toNat_one, Nat.one_mul]
  exact Nat.mod_eq_of_lt (Nat.pow_lt_pow_right (by decide) h64)

theorem toNat_log2Frac (hk : 2 ^ k ≤ x.toNat) (hk' : x.toNat < 2 ^ (k + 1)) :
    (log2Frac x).toNat = (x.toNat - 2 ^ k) * 2 ^ 16 % 2 ^ 64 / 2 ^ k := by
  have hbase := toNat_base hk hk'
  have hle : (1 : UInt64) <<< log2IntPart x ≤ x := by rw [UInt64.le_iff_toNat_le, hbase]; exact hk
  rw [log2Frac, toNat_shiftLeft_div, UInt64.toNat_sub_of_le _ _ hle, hbase]

theorem log2Frac_lt (hk : 2 ^ k ≤ x.toNat) (hk' : x.toNat < 2 ^ (k + 1)) :
    (log2Frac x).toNat < 2 ^ 16 := by
  rw [toNat_log2Frac hk hk']
  apply Nat.div_lt_of_lt_mul
  calc (x.toNat - 2 ^ k) * 2 ^ 16 % 2 ^ 64
      ≤ (x.toNat - 2 ^ k) * 2 ^ 16 := Nat.mod_le _ _
    _ < 2 ^ k * 2 ^ 16 := by rw [Nat.pow_succ] at hk'; omega

/-- **The value of `fixed_log2`**: the fraction never reaches the integer part. -/
theorem toNat_fixedLog2 (hk : 2 ^ k ≤ x.toNat) (hk' : x.toNat < 2 ^ (k + 1)) :
    (fixedLog2 x).toNat = k * 2 ^ 16 + (x.toNat - 2 ^ k) * 2 ^ 16 % 2 ^ 64 / 2 ^ k := by
  have hx : x.toNat ≠ 0 := by have := Nat.two_pow_pos k; omega
  have hlog : (log2IntPart x).toNat = k := by
    rw [toNat_log2IntPart]
    exact (Nat.log2_eq_iff hx).mpr ⟨hk, hk'⟩
  have hint : (log2IntPart x <<< UInt64.ofNat fixedShift).toNat = 2 ^ 16 * k := by
    have := lt_64_of_two_pow_le hk
    rw [← fixedFromUint, toNat_fixedFromUint_of_lt (by omega), hlog]
    exact Nat.mul_comm _ _
  rw [fixedLog2, if_neg fun hc => hx (by rw [hc]; rfl), UInt64.toNat_or, hint,
    ← Nat.two_pow_add_eq_or_of_lt (log2Frac_lt hk hk'), toNat_log2Frac hk hk', Nat.mul_comm]

end Value

/-! ## Where it interpolates -/

theorem toNat_fixedLog2_le {x y : UInt64} {k : ℕ} (hk' : x.toNat < 2 ^ (k + 1)) (hy : y ≤ x) :
    (fixedLog2 y).toNat ≤ k * 2 ^ 16 + (x.toNat - 2 ^ k) * 2 ^ 16 / 2 ^ k := by
  rw [UInt64.le_iff_toNat_le] at hy
  by_cases hy0 : y.toNat = 0
  · rw [fixedLog2, if_pos (UInt64.toNat_inj.mp hy0)]
    exact Nat.zero_le _
  obtain ⟨hj, hj'⟩ := (Nat.log2_eq_iff hy0).mp rfl
  have hfrac := log2Frac_lt hj hj'
  rw [toNat_log2Frac hj hj'] at hfrac
  rw [toNat_fixedLog2 hj hj']
  have hle : y.toNat.log2 ≤ k := by
    have := (Nat.pow_lt_pow_iff_right (by decide)).mp ((hj.trans hy).trans_lt hk')
    omega
  rcases Nat.lt_or_eq_of_le hle with hlt | heq
  · refine le_trans ?_ (Nat.le_add_right (k * 2 ^ 16) _)
    have : (y.toNat.log2 + 1) * 2 ^ 16 ≤ k * 2 ^ 16 := Nat.mul_le_mul_right _ hlt
    omega
  · rw [heq]
    refine Nat.add_le_add_left (Nat.div_le_div_right ((Nat.mod_le _ _).trans ?_)) _
    exact Nat.mul_le_mul_right _ (Nat.sub_le_sub_right hy _)

/-- **Where `fixed_log2` interpolates**: at the arguments less than `2 ^ 48` above their leading
bit. There it also dominates its values on everything below. -/
theorem fixedLog2_exact_iff (x : UInt64) (k : ℕ) (hk : 2 ^ k ≤ x.toNat)
    (hk' : x.toNat < 2 ^ (k + 1)) :
    ((fixedLog2 x).toNat = k * 2 ^ 16 + (x.toNat - 2 ^ k) * 2 ^ 16 / 2 ^ k ∧
        (log2Frac x).toNat < 2 ^ 16 ∧ ∀ y ≤ x, fixedLog2 y ≤ fixedLog2 x) ↔
      x.toNat - 2 ^ k < 2 ^ 48 := by
  rw [← shifted_div_eq_iff (Nat.two_pow_pos k) (hk.trans_lt x.toNat_lt)]
  have hval := toNat_fixedLog2 hk hk'
  constructor
  · rintro ⟨hv, -⟩
    omega
  · intro hr
    rw [hr] at hval
    refine ⟨hval, log2Frac_lt hk hk', fun y hy => ?_⟩
    rw [UInt64.le_iff_toNat_le, hval]
    exact toNat_fixedLog2_le hk' hy

theorem fixedLog2_exact_three :
    ((fixedLog2 3).toNat = 1 * 2 ^ 16 + (3 - 2 ^ 1) * 2 ^ 16 / 2 ^ 1 ∧
      (log2Frac 3).toNat < 2 ^ 16 ∧ ∀ y ≤ 3, fixedLog2 y ≤ fixedLog2 3) :=
  (fixedLog2_exact_iff 3 1 (by decide) (by decide)).mpr (by decide)

/-- At `2 ^ 49 + 2 ^ 48` the shifted remainder is `2 ^ 64`: the fraction `1/2` is lost, and the
value falls below that of the argument before it. -/
theorem fixedLog2_overflow :
    (fixedLog2 844424930131968).toNat ≠
        49 * 2 ^ 16 + ((844424930131968 : UInt64).toNat - 2 ^ 49) * 2 ^ 16 / 2 ^ 49 ∧
      ¬ fixedLog2 844424930131967 ≤ fixedLog2 844424930131968 := by
  have h1 := @toNat_fixedLog2 844424930131968 49 (by decide) (by decide)
  have h0 := @toNat_fixedLog2 844424930131967 49 (by decide) (by decide)
  rw [UInt64.le_iff_toNat_le, h0, h1]
  decide

end XdpDetector

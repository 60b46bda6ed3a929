import XdpDetector.Lib.Round
import Mathlib.Algebra.Order.Field.Power
import Mathlib.Data.Int.Log

/-!
# Rounding to significant bits

Rationals rounded to `p + 1` significant bits, a tie going to the even neighbour. The exponent is
not bounded, so that nothing overflows or becomes subnormal.

* `Sig.round`: the function;
* `round_pos`, `round_mono`, **`abs_round_sub_le`**: sign, order and relative error;
* `Representable`, **`round_of_representable`**: the numbers that stay;
* `Near`: numbers that are a few roundings apart, with the rules for the four operations.
-/

namespace Sig

/-- The number with `p + 1` significant bits nearest to `q`. -/
def round (p : ℕ) (q : ℚ) : ℚ :=
  roundHalfEven (q / 2 ^ (Int.log 2 |q| - p)) * 2 ^ (Int.log 2 |q| - p)

variable {p : ℕ} {q : ℚ}

@[simp] theorem round_zero : round p 0 = 0 := by
  have h : roundHalfEven 0 = 0 := roundHalfEven_intCast 0
  simp [round, h]

section Positive

variable (hq : 0 < q)

include hq

theorem round_of_pos :
    round p q = roundHalfEven (q / 2 ^ (Int.log 2 q - p)) * 2 ^ (Int.log 2 q - p) := by
  rw [round, abs_of_pos hq]

/-- The significand lies between `2 ^ p` and `2 ^ (p + 1)`. -/
theorem significand_bounds :
    (2 : ℚ) ^ p ≤ q / 2 ^ (Int.log 2 q - p) ∧ q / 2 ^ (Int.log 2 q - p) < 2 ^ (p + 1) := by
  have hlow : (2 : ℚ) ^ Int.log 2 q ≤ q := by
    exact_mod_cast Int.zpow_log_le_self (b := 2) (by norm_num) hq
  have hhigh : q < (2 : ℚ) ^ (Int.log 2 q + 1) := by
    exact_mod_cast Int.lt_zpow_succ_log_self (b := 2) (by norm_num) q
  have hpos : (0 : ℚ) < 2 ^ (Int.log 2 q - p) := by positivity
  rw [le_div_iff₀ hpos, div_lt_iff₀ hpos, ← zpow_natCast, ← zpow_natCast,
    ← zpow_add₀ (by norm_num), ← zpow_add₀ (by norm_num)]
  refine ⟨?_, ?_⟩
  · rwa [show ((p : ℤ) + (Int.log 2 q - p)) = Int.log 2 q by ring]
  · rwa [show ((p + 1 : ℕ) : ℤ) + (Int.log 2 q - p) = Int.log 2 q + 1 by push_cast; ring]

/-- So does the rounded significand. -/
theorem roundHalfEven_significand_bounds :
    (2 : ℤ) ^ p ≤ roundHalfEven (q / 2 ^ (Int.log 2 q - p)) ∧
      roundHalfEven (q / 2 ^ (Int.log 2 q - p)) ≤ 2 ^ (p + 1) := by
  obtain ⟨hlow, hhigh⟩ := significand_bounds (p := p) hq
  exact ⟨intCast_le_roundHalfEven (by exact_mod_cast hlow),
    roundHalfEven_le_intCast (by exact_mod_cast hhigh.le)⟩

/-- The rounded number keeps to the powers of two around it. -/
theorem round_bounds : (2 : ℚ) ^ Int.log 2 q ≤ round p q ∧ round p q ≤ 2 ^ (Int.log 2 q + 1) := by
  obtain ⟨hlow, hhigh⟩ := roundHalfEven_significand_bounds (p := p) hq
  have hpos : (0 : ℚ) < 2 ^ (Int.log 2 q - p) := by positivity
  have hlow' : (2 : ℚ) ^ (p : ℤ) ≤ roundHalfEven (q / 2 ^ (Int.log 2 q - p)) := by
    exact_mod_cast hlow
  have hhigh' : (roundHalfEven (q / 2 ^ (Int.log 2 q - p)) : ℚ) ≤ 2 ^ ((p : ℤ) + 1) := by
    exact_mod_cast hhigh
  rw [round_of_pos hq]
  refine ⟨?_, ?_⟩
  · calc (2 : ℚ) ^ Int.log 2 q = 2 ^ (p : ℤ) * 2 ^ (Int.log 2 q - p) := by
          rw [← zpow_add₀ (by norm_num)]
          congr 1
          ring
      _ ≤ _ := mul_le_mul_of_nonneg_right hlow' hpos.le
  · calc _ ≤ (2 : ℚ) ^ ((p : ℤ) + 1) * 2 ^ (Int.log 2 q - p) :=
          mul_le_mul_of_nonneg_right hhigh' hpos.le
      _ = 2 ^ (Int.log 2 q + 1) := by
          rw [← zpow_add₀ (by norm_num)]
          congr 1
          ring

theorem round_pos : 0 < round p q :=
  lt_of_lt_of_le (by positivity) (round_bounds hq).1

/-- **The relative error** is at most half a unit in the last place. -/
theorem abs_round_sub_le : |round p q - q| ≤ q / 2 ^ (p + 1) := by
  obtain ⟨hlow, -⟩ := significand_bounds (p := p) hq
  set u : ℚ := 2 ^ (Int.log 2 q - p) with hu
  have hpos : 0 < u := by positivity
  have hx : q / u * u = q := div_mul_cancel₀ q hpos.ne'
  have hup := roundHalfEven_le (q / u)
  have hdown := le_roundHalfEven (q / u)
  have hulp : u / 2 ≤ q / 2 ^ (p + 1) := by
    rw [le_div_iff₀ (by positivity), pow_succ]
    have h := (le_div_iff₀ hpos).mp hlow
    linarith
  rw [round_of_pos hq, ← hu]
  refine le_trans ?_ hulp
  have hdiff : (roundHalfEven (q / u) : ℚ) * u - q = (roundHalfEven (q / u) - q / u) * u := by
    rw [sub_mul, hx]
  rw [hdiff, abs_mul, abs_of_pos hpos]
  have habs : |(roundHalfEven (q / u) : ℚ) - q / u| ≤ 1 / 2 := by
    rw [abs_le]
    constructor <;> linarith
  calc _ ≤ 1 / 2 * u := mul_le_mul_of_nonneg_right habs hpos.le
    _ = u / 2 := by ring

end Positive

theorem round_nonneg (hq : 0 ≤ q) : 0 ≤ round p q := by
  rcases hq.eq_or_lt with rfl | h
  · rw [round_zero]
  · exact (round_pos h).le

/-- **Rounding is monotone.** -/
theorem round_mono {q' : ℚ} (hq : 0 ≤ q) (h : q ≤ q') : round p q ≤ round p q' := by
  rcases hq.eq_or_lt with rfl | hpos
  · rw [round_zero]
    exact round_nonneg h
  have hpos' : 0 < q' := hpos.trans_le h
  rcases (Int.log_mono_right (b := 2) hpos h).lt_or_eq with hlt | heq
  · calc round p q ≤ 2 ^ (Int.log 2 q + 1) := (round_bounds hpos).2
      _ ≤ 2 ^ Int.log 2 q' := zpow_le_zpow_right₀ (by norm_num) hlt
      _ ≤ round p q' := (round_bounds hpos').1
  · have hu : (0 : ℚ) < 2 ^ (Int.log 2 q' - p) := by positivity
    have hdiv := div_le_div_of_nonneg_right h hu.le
    rw [round_of_pos hpos, round_of_pos hpos', heq]
    refine mul_le_mul_of_nonneg_right ?_ hu.le
    exact_mod_cast roundHalfEven_mono hdiv

/-! ## Numbers that stay -/

/-- The number has `p + 1` significant bits. -/
def Representable (p : ℕ) (q : ℚ) : Prop := ∃ (m : ℕ) (e : ℤ), m ≤ 2 ^ (p + 1) ∧ q = m * 2 ^ e

theorem Representable.nonneg (h : Representable p q) : 0 ≤ q := by
  obtain ⟨m, e, -, rfl⟩ := h
  positivity

theorem representable_natCast {m : ℕ} (h : m ≤ 2 ^ (p + 1)) : Representable p m :=
  ⟨m, 0, h, by simp⟩

theorem Representable.two_mul (h : Representable p q) : Representable p (2 * q) := by
  obtain ⟨m, e, hm, rfl⟩ := h
  refine ⟨m, e + 1, hm, ?_⟩
  rw [zpow_add_one₀ (by norm_num)]
  ring

theorem representable_round (hq : 0 ≤ q) : Representable p (round p q) := by
  rcases hq.eq_or_lt with rfl | hpos
  · exact ⟨0, 0, Nat.zero_le _, by simp⟩
  obtain ⟨hlow, hhigh⟩ := roundHalfEven_significand_bounds (p := p) hpos
  have hnonneg : 0 ≤ roundHalfEven (q / 2 ^ (Int.log 2 q - p)) := le_trans (by positivity) hlow
  refine ⟨_, Int.log 2 q - p, Int.toNat_le.mpr (by exact_mod_cast hhigh), ?_⟩
  rw [round_of_pos hpos]
  congr 1
  exact_mod_cast (Int.toNat_of_nonneg hnonneg).symm

/-- **Representable numbers stay as they are.** -/
theorem round_of_representable (h : Representable p q) : round p q = q := by
  rcases h.nonneg.eq_or_lt with rfl | hpos
  · exact round_zero
  obtain ⟨m, e, hm, hqe⟩ := h
  obtain ⟨hlow, -⟩ := significand_bounds (p := p) hpos
  -- the significand of `q` is an integer
  obtain ⟨n, hn⟩ : ∃ n : ℤ, q / 2 ^ (Int.log 2 q - p) = n := by
    rcases le_or_gt (Int.log 2 q - p) e with hle | hlt
    · refine ⟨m * 2 ^ (e - (Int.log 2 q - p)).toNat, ?_⟩
      have hexp : e = ((e - (Int.log 2 q - p)).toNat : ℤ) + (Int.log 2 q - p) := by omega
      rw [div_eq_iff (by positivity), Int.cast_mul, Int.cast_pow, Int.cast_natCast, Int.cast_ofNat,
        mul_assoc, ← zpow_natCast, ← zpow_add₀ (by norm_num), ← hexp]
      exact hqe
    · -- only the largest significand is left, and that is a power of two
      refine ⟨2 ^ p, le_antisymm ?_ (by exact_mod_cast hlow)⟩
      have hm' : (m : ℚ) ≤ 2 ^ ((p : ℤ) + 1) := by exact_mod_cast hm
      rw [div_le_iff₀ (by positivity), Int.cast_pow, Int.cast_ofNat, ← zpow_natCast,
        ← zpow_add₀ (by norm_num)]
      calc q = m * 2 ^ e := hqe
        _ ≤ 2 ^ ((p : ℤ) + 1) * 2 ^ e := mul_le_mul_of_nonneg_right hm' (by positivity)
        _ = 2 ^ ((p : ℤ) + 1 + e) := (zpow_add₀ (by norm_num) _ _).symm
        _ ≤ 2 ^ ((p : ℤ) + (Int.log 2 q - p)) := zpow_le_zpow_right₀ (by norm_num) (by omega)
  rw [round_of_pos hpos, hn, roundHalfEven_intCast, ← hn]
  exact div_mul_cancel₀ q (by positivity)

/-- A representable bound is a bound of the rounded number. -/
theorem round_le {x : ℚ} (hq : 0 ≤ q) (hx : Representable p x) (h : q ≤ x) : round p q ≤ x :=
  (round_mono hq h).trans_eq (round_of_representable hx)

theorem le_round {x : ℚ} (hx : Representable p x) (h : x ≤ q) : x ≤ round p q :=
  (round_of_representable hx).symm.trans_le (round_mono hx.nonneg h)

theorem round_le_one (hq : 0 ≤ q) (h : q ≤ 1) : round p q ≤ 1 := by
  have hone : Representable p ((1 : ℕ) : ℚ) := representable_natCast Nat.one_le_two_pow
  rw [Nat.cast_one] at hone
  exact round_le hq hone h

/-- A proper fraction is not rounded up to `1` unless its denominator is too large. -/
theorem round_div_lt_one {a b : ℕ} (hb : b ≤ 2 ^ (p + 1)) (h : a < b) :
    round p ((a : ℚ) / b) < 1 := by
  have hpow : (0 : ℚ) < 2 ^ (p + 1) := by positivity
  have hb' : (0 : ℚ) < b := by exact_mod_cast (Nat.zero_le a).trans_lt h
  have hrep : Representable p ((2 ^ (p + 1) - 1) / 2 ^ (p + 1)) := by
    refine ⟨2 ^ (p + 1) - 1, -((p : ℤ) + 1), Nat.sub_le _ _, ?_⟩
    rw [Nat.cast_sub Nat.one_le_two_pow, zpow_neg, div_eq_mul_inv]
    push_cast
    norm_cast
  refine (round_le (by positivity) hrep ?_).trans_lt ?_
  · have ha : (a : ℚ) + 1 ≤ b := by exact_mod_cast h
    have hbp : (b : ℚ) ≤ 2 ^ (p + 1) := by exact_mod_cast hb
    rw [div_le_div_iff₀ hb' hpow]
    nlinarith
  · rw [div_lt_one hpow]
    linarith

/-! ## Relative closeness -/

/-- The numbers `x` and `y` are `k` roundings apart. -/
def Near (p k : ℕ) (x y : ℚ) : Prop :=
  (1 - 1 / 2 ^ (p + 1)) ^ k * y ≤ x ∧ (1 - 1 / 2 ^ (p + 1)) ^ k * x ≤ y

theorem factor_pos : (0 : ℚ) < 1 - 1 / 2 ^ (p + 1) := by
  have h : (1 : ℚ) < 2 ^ (p + 1) := one_lt_pow₀ (by norm_num) (by omega)
  rw [sub_pos, div_lt_one (by positivity)]
  exact h

theorem near_round (hq : 0 ≤ q) : Near p 1 (round p q) q := by
  rcases hq.eq_or_lt with rfl | hpos
  · simp [Near]
  obtain ⟨hlow, hhigh⟩ := abs_le.mp (abs_round_sub_le (p := p) hpos)
  have hu : (0 : ℚ) < 1 / 2 ^ (p + 1) := by positivity
  rw [div_eq_mul_one_div] at hlow hhigh
  rw [Near, pow_one]
  refine ⟨by linarith, ?_⟩
  have hr : round p q ≤ (1 + 1 / 2 ^ (p + 1)) * q := by linarith
  calc _ ≤ (1 - 1 / 2 ^ (p + 1)) * ((1 + 1 / 2 ^ (p + 1)) * q) :=
        mul_le_mul_of_nonneg_left hr factor_pos.le
    _ = q - (1 / 2 ^ (p + 1)) ^ 2 * q := by ring
    _ ≤ q := sub_le_self _ (by positivity)

section Near

variable {j k : ℕ} {x y x' y' : ℚ}

theorem near_refl : Near p 0 x x := by simp [Near]

theorem Near.trans {z : ℚ} (h : Near p j x y) (h' : Near p k y z) : Near p (j + k) x z := by
  have hj : (0 : ℚ) < (1 - 1 / 2 ^ (p + 1)) ^ j := pow_pos factor_pos j
  have hk : (0 : ℚ) < (1 - 1 / 2 ^ (p + 1)) ^ k := pow_pos factor_pos k
  rw [Near, pow_add]
  refine ⟨?_, ?_⟩
  · calc _ = (1 - 1 / 2 ^ (p + 1)) ^ j * ((1 - 1 / 2 ^ (p + 1)) ^ k * z) := by ring
      _ ≤ (1 - 1 / 2 ^ (p + 1)) ^ j * y := mul_le_mul_of_nonneg_left h'.1 hj.le
      _ ≤ x := h.1
  · calc _ = (1 - 1 / 2 ^ (p + 1)) ^ k * ((1 - 1 / 2 ^ (p + 1)) ^ j * x) := by ring
      _ ≤ (1 - 1 / 2 ^ (p + 1)) ^ k * y := mul_le_mul_of_nonneg_left h.2 hk.le
      _ ≤ z := h'.2

theorem Near.mul (h : Near p j x y) (h' : Near p k x' y') (hx : 0 ≤ x) (hy : 0 ≤ y) (hx' : 0 ≤ x')
    (hy' : 0 ≤ y') : Near p (j + k) (x * x') (y * y') := by
  have hk : (0 : ℚ) < (1 - 1 / 2 ^ (p + 1)) ^ k := pow_pos factor_pos k
  rw [Near, pow_add]
  refine ⟨?_, ?_⟩
  · calc _ = (1 - 1 / 2 ^ (p + 1)) ^ j * y * ((1 - 1 / 2 ^ (p + 1)) ^ k * y') := by ring
      _ ≤ x * x' := mul_le_mul h.1 h'.1 (by positivity) hx
  · calc _ = (1 - 1 / 2 ^ (p + 1)) ^ j * x * ((1 - 1 / 2 ^ (p + 1)) ^ k * x') := by ring
      _ ≤ y * y' := mul_le_mul h.2 h'.2 (by positivity) hy

theorem Near.add (h : Near p k x y) (h' : Near p k x' y') : Near p k (x + x') (y + y') := by
  rw [Near, mul_add, mul_add]
  exact ⟨add_le_add h.1 h'.1, add_le_add h.2 h'.2⟩

theorem Near.inv (h : Near p k x y) (hx : 0 < x) (hy : 0 < y) : Near p k x⁻¹ y⁻¹ := by
  rw [Near, ← div_eq_mul_inv, ← div_eq_mul_inv, div_le_iff₀ hy, div_le_iff₀ hx,
    inv_mul_eq_div, inv_mul_eq_div, le_div_iff₀ hx, le_div_iff₀ hy]
  exact ⟨h.2, h.1⟩

theorem Near.div (h : Near p j x y) (h' : Near p k x' y') (hx : 0 ≤ x) (hy : 0 ≤ y) (hx' : 0 < x')
    (hy' : 0 < y') : Near p (j + k) (x / x') (y / y') := by
  rw [div_eq_mul_inv, div_eq_mul_inv]
  exact h.mul (h'.inv hx' hy') hx hy (inv_pos.mpr hx').le (inv_pos.mpr hy').le

/-- Closeness as a relative error. -/
theorem Near.abs_sub_le (h : Near p k x y) (hy : 0 ≤ y) {ε : ℚ} (hε : 0 ≤ ε)
    (hk : 1 ≤ (1 - 1 / 2 ^ (p + 1)) ^ k * (1 + ε)) : |x - y| ≤ ε * y := by
  have hpos : (0 : ℚ) < (1 - 1 / 2 ^ (p + 1)) ^ k := pow_pos factor_pos k
  rw [abs_le]
  refine ⟨?_, ?_⟩
  · have hlow : (1 - ε) * y ≤ (1 - 1 / 2 ^ (p + 1)) ^ k * y := by
      refine mul_le_mul_of_nonneg_right ?_ hy
      nlinarith
    linarith [h.1]
  · have hle : (1 - 1 / 2 ^ (p + 1)) ^ k * x ≤ (1 - 1 / 2 ^ (p + 1)) ^ k * ((1 + ε) * y) := by
      calc _ ≤ y := h.2
        _ ≤ (1 - 1 / 2 ^ (p + 1)) ^ k * (1 + ε) * y := le_mul_of_one_le_left hy hk
        _ = _ := by ring
    linarith [le_of_mul_le_mul_left hle hpos]

end Near

end Sig

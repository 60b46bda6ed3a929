import XdpDetector.Common
import XdpDetector.Lib.Round

/-!
# Split thresholds

`fixed_from_float` of `read_model_to_map.py` turns a threshold of the trained tree into a `fixed`.
A threshold is a finite double, taken as the rational it stands for. The kernel compares the result
with the fixed-point image of an integer feature; that comparison is worked out here for every
threshold.

* `fixedFromFloat`: round, clamp, reduce;
* `halfUlp`, `wrapped`: half of the last fixed-point digit, and the threshold modulo `2 ^ 48`;
* `Survives`: the values and thresholds whose comparison the encoding keeps;
* `fixed_le_of_neg`, `fixed_le_iff`: the kernel's comparison for negative and other thresholds;
* **`split_survives_iff`**: when it agrees with the comparison the tree was trained with.
-/

namespace XdpDetector

/-- `fixed_from_float` of the loader. -/
def fixedFromFloat (value : ℚ) : Fixed :=
  let scaled := roundHalfEven (value * fixedScale)
  let scaled := if scaled < 0 then 0 else scaled
  UInt64.ofInt scaled

/-- Half of the last digit of a `fixed`. -/
def halfUlp : ℚ := 1 / 131072

/-- The threshold, rounded to within half a digit, modulo the `2 ^ 48` range of a `fixed`. -/
def wrapped (t : ℚ) : ℚ := t - 2 ^ 48 * ⌊(t + halfUlp) / 2 ^ 48⌋

/-- The comparison of `v` with `t` survives the encoding: `t` is not a clamped threshold of the
value `0`, not one that rounds up to `v`, and does not wrap to below `v`. -/
def Survives (v : UInt64) (t : ℚ) : Prop :=
  (0 ≤ t ∨ v ≠ 0) ∧ ¬ ((v.toNat : ℚ) - halfUlp ≤ t ∧ t < v.toNat) ∧
    (t < 2 ^ 48 - halfUlp ∨ (v.toNat : ℚ) - halfUlp ≤ wrapped t)

theorem toNat_ofInt (x : ℤ) : ((UInt64.ofInt x).toNat : ℤ) = x % 2 ^ 64 := by
  have h0 : 0 ≤ x % 2 ^ 64 := Int.emod_nonneg x (by norm_num)
  have hl : x % 2 ^ 64 < 2 ^ 64 := Int.emod_lt_of_pos x (by norm_num)
  rw [UInt64.ofInt, UInt64.toNat_ofNat_of_lt' (by unfold UInt64.size; omega)]
  omega

theorem scaled_le_round_iff (n : ℤ) (t : ℚ) :
    n * 65536 ≤ roundHalfEven (t * fixedScale) ↔ n - halfUlp ≤ t := by
  rw [le_roundHalfEven_iff (by omega)]
  unfold fixedScale halfUlp
  push_cast
  constructor <;> intro h <;> linarith

theorem fixedFromFloat_of_neg {t : ℚ} (ht : t < 0) : fixedFromFloat t = 0 := by
  have hr : roundHalfEven (t * fixedScale) ≤ 0 := by
    have h := roundHalfEven_le (t * fixedScale)
    have hs : t * (fixedScale : ℚ) < 0 := by
      unfold fixedScale
      push_cast
      linarith
    have : (roundHalfEven (t * fixedScale) : ℚ) < 1 := by linarith
    have : roundHalfEven (t * fixedScale) < 1 := by exact_mod_cast this
    omega
  simp only [fixedFromFloat]
  split_ifs with h
  · rfl
  · have : roundHalfEven (t * fixedScale) = 0 := by omega
    rw [this]
    rfl

theorem round_div (t : ℚ) :
    roundHalfEven (t * fixedScale) / 2 ^ 64 = ⌊(t + halfUlp) / 2 ^ 48⌋ := by
  apply eq_of_forall_le_iff
  intro k
  rw [Int.le_ediv_iff_mul_le (by norm_num), Int.le_floor, le_div_iff₀ (by norm_num)]
  have h := scaled_le_round_iff (k * 2 ^ 48) t
  rw [show k * 2 ^ 48 * 65536 = k * 2 ^ 64 by ring] at h
  rw [h]
  push_cast
  constructor <;> intro h <;> linarith

section Compare

variable {v : UInt64} {t : ℚ}

/-- Every negative threshold compares like zero. -/
theorem fixed_le_of_neg (hv : v.toNat < 2 ^ 48) (ht : t < 0) :
    fixedFromUint v ≤ fixedFromFloat t ↔ v = 0 := by
  rw [fixedFromFloat_of_neg ht, UInt64.le_iff_toNat_le, toNat_fixedFromUint_of_lt hv,
    ← UInt64.toNat_inj]
  simp [fixedScale]

/-- **The comparison of the kernel** for a threshold that is not clamped. -/
theorem fixed_le_iff (hv : v.toNat < 2 ^ 48) (ht : 0 ≤ t) :
    fixedFromUint v ≤ fixedFromFloat t ↔ (v.toNat : ℚ) - halfUlp ≤ wrapped t := by
  set r := roundHalfEven (t * fixedScale) with hr
  have h0 : 0 ≤ r := by
    have h := (scaled_le_round_iff 0 t).mpr (by unfold halfUlp; push_cast; linarith)
    simpa using h
  have hf : ((fixedFromFloat t).toNat : ℤ) = r % 2 ^ 64 := by
    simp only [fixedFromFloat]
    rw [← hr, if_neg (by omega), toNat_ofInt]
  have hk : r / 2 ^ 64 = ⌊(t + halfUlp) / 2 ^ 48⌋ := round_div t
  have hdm := Int.emod_add_mul_ediv r (2 ^ 64)
  calc fixedFromUint v ≤ fixedFromFloat t
      ↔ ((v.toNat * fixedScale : ℕ) : ℤ) ≤ (fixedFromFloat t).toNat := by
        rw [UInt64.le_iff_toNat_le, toNat_fixedFromUint_of_lt hv, Nat.cast_le]
    _ ↔ ((v.toNat : ℤ) + 2 ^ 48 * (r / 2 ^ 64)) * 65536 ≤ r := by
        rw [hf]
        unfold fixedScale
        push_cast
        constructor <;> intro h <;> omega
    _ ↔ (v.toNat : ℚ) - halfUlp ≤ wrapped t := by
        rw [hr, scaled_le_round_iff, ← hr, hk, wrapped]
        push_cast
        constructor <;> intro h <;> linarith

theorem wrapped_of_lt (h0 : 0 ≤ t) (ht : t < 2 ^ 48 - halfUlp) : wrapped t = t := by
  have : ⌊(t + halfUlp) / 2 ^ 48⌋ = 0 := by
    rw [Int.floor_eq_zero_iff]
    constructor
    · unfold halfUlp
      positivity
    · rw [div_lt_one (by norm_num)]
      linarith
  rw [wrapped, this]
  simp

/-! The comparison of the kernel against the exact one, in the three ranges of a threshold. -/

theorem split_negative (ht : t < 0) :
    (v = 0 ↔ (v.toNat : ℚ) ≤ t) ↔ Survives v t := by
  have hv0 : (0 : ℚ) ≤ v.toNat := Nat.cast_nonneg _
  have hle : ¬ (v.toNat : ℚ) ≤ t := by linarith
  have hlt : t < 2 ^ 48 - halfUlp := by unfold halfUlp; linarith
  constructor
  · intro h
    have hne : v ≠ 0 := fun hc => hle (h.mp hc)
    have h1 : 1 ≤ v.toNat := by
      rcases Nat.eq_zero_or_pos v.toNat with hc | hc
      · exact absurd (UInt64.toNat_inj.mp hc) hne
      · exact hc
    have h1 : (1 : ℚ) ≤ v.toNat := by exact_mod_cast h1
    refine ⟨Or.inr hne, fun hc => ?_, Or.inl hlt⟩
    unfold halfUlp at hc
    linarith [hc.1]
  · rintro ⟨h, -, -⟩
    exact ⟨fun hc => absurd hc (h.resolve_left (not_le.mpr ht)), fun hc => absurd hc hle⟩

theorem split_in_range (ht : 0 ≤ t) (hl : t < 2 ^ 48 - halfUlp) :
    ((v.toNat : ℚ) - halfUlp ≤ t ↔ (v.toNat : ℚ) ≤ t) ↔ Survives v t := by
  constructor
  · intro h
    exact ⟨Or.inl ht, fun hc => absurd (h.mp hc.1) (not_le.mpr hc.2), Or.inl hl⟩
  · rintro ⟨-, h, -⟩
    constructor
    · intro hc
      by_contra hlt
      exact h ⟨hc, not_le.mp hlt⟩
    · intro hc
      unfold halfUlp
      linarith

theorem split_out_of_range (hv : v.toNat < 2 ^ 48) (ht : 0 ≤ t) (hl : 2 ^ 48 - halfUlp ≤ t) :
    ((v.toNat : ℚ) - halfUlp ≤ wrapped t ↔ (v.toNat : ℚ) ≤ t) ↔ Survives v t := by
  have hle : (v.toNat : ℚ) ≤ t := by
    have : (v.toNat : ℚ) + 1 ≤ 2 ^ 48 := by exact_mod_cast hv
    unfold halfUlp at hl
    linarith
  constructor
  · intro h
    exact ⟨Or.inl ht, fun hc => absurd hle (not_le.mpr hc.2), Or.inr (h.mpr hle)⟩
  · rintro ⟨-, -, h⟩
    exact ⟨fun _ => hle, fun _ => h.resolve_left (not_lt.mpr hl)⟩

end Compare

/-- **Split decisions after the encoding.** A negative threshold sends left exactly the value `0`,
and the kernel's comparison is the exact one for the pairs of `Survives` and for no others. -/
theorem split_survives_iff (v : UInt64) (hv : v.toNat < 2 ^ 48) (t : ℚ) :
    (t < 0 → (fixedFromUint v ≤ fixedFromFloat t ↔ v = 0)) ∧
      ((fixedFromUint v ≤ fixedFromFloat t ↔ (v.toNat : ℚ) ≤ t) ↔ Survives v t) := by
  refine ⟨fixed_le_of_neg hv, ?_⟩
  rcases lt_or_ge t 0 with ht | ht
  · rw [fixed_le_of_neg hv ht]
    exact split_negative ht
  · rw [fixed_le_iff hv ht]
    rcases lt_or_ge t (2 ^ 48 - halfUlp) with hl | hl
    · rw [wrapped_of_lt ht hl]
      exact split_in_range ht hl
    · exact split_out_of_range hv ht hl

theorem split_survives_three :
    ((3 : UInt64).toNat : ℚ) ≤ 7 / 2 ∧ fixedFromUint 3 ≤ fixedFromFloat (7 / 2) := by
  have hv : (3 : UInt64).toNat < 2 ^ 48 := by decide
  have h3 : (3 : UInt64).toNat = 3 := rfl
  have hs : Survives 3 (7 / 2) := by
    unfold Survives halfUlp
    rw [h3]
    norm_num
  have hle : ((3 : UInt64).toNat : ℚ) ≤ 7 / 2 := by
    rw [h3]
    norm_num
  exact ⟨hle, ((split_survives_iff 3 hv (7 / 2)).2.mpr hs).mpr hle⟩

/-- **The three distortions**: clamping, rounding up, and wrapping each flip a comparison. -/
theorem split_flips :
    (fixedFromUint 0 ≤ fixedFromFloat (-1) ∧ ¬ ((0 : UInt64).toNat : ℚ) ≤ -1) ∧
      (fixedFromUint 1 ≤ fixedFromFloat (1 - 1 / 2 ^ 20) ∧
        ¬ ((1 : UInt64).toNat : ℚ) ≤ 1 - 1 / 2 ^ 20) ∧
      (¬ fixedFromUint 1 ≤ fixedFromFloat (2 ^ 48) ∧ ((1 : UInt64).toNat : ℚ) ≤ 2 ^ 48) := by
  have e1 : (1 : UInt64).toNat = 1 := rfl
  have h0 : (0 : UInt64).toNat < 2 ^ 48 := by decide
  have h1 : (1 : UInt64).toNat < 2 ^ 48 := by decide
  refine ⟨⟨(fixed_le_of_neg h0 (by norm_num)).mpr rfl, by norm_num⟩, ?_, ?_⟩
  · have hw := wrapped_of_lt (t := 1 - 1 / 2 ^ 20) (by norm_num) (by norm_num [halfUlp])
    rw [fixed_le_iff h1 (by norm_num), hw, e1]
    norm_num [halfUlp]
  · have hw : wrapped (2 ^ 48) = 0 := by
      have : ⌊((2 : ℚ) ^ 48 + halfUlp) / 2 ^ 48⌋ = 1 := by
        rw [Int.floor_eq_iff]
        norm_num [halfUlp]
      rw [wrapped, this]
      norm_num
    rw [fixed_le_iff h1 (by norm_num), hw, e1]
    norm_num [halfUlp]

end XdpDetector

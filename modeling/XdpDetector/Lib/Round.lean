import Mathlib.Algebra.Order.Floor.Ring
import Mathlib.Data.Rat.Floor
import Mathlib.Tactic.Linarith

/-!
# Rounding half to even

Rounding of rationals to the nearest integer, a tie going to the even neighbour.

* `roundHalfEven`: the function;
* `roundHalfEven_le`, `le_roundHalfEven`: it moves by at most one half;
* `roundHalfEven_mono`: it is monotone;
* `roundHalfEven_intCast`: integers stay;
* **`le_roundHalfEven_iff`**: above an even number it is a comparison of the argument, since a tie
  below that number rounds up to it.
-/

/-- The nearest integer, at a tie the even one. -/
def roundHalfEven (q : ℚ) : ℤ :=
  if q < ⌊q⌋ + 1 / 2 then ⌊q⌋
  else if q = ⌊q⌋ + 1 / 2 ∧ ⌊q⌋ % 2 = 0 then ⌊q⌋
  else ⌊q⌋ + 1

theorem roundHalfEven_le (q : ℚ) : (roundHalfEven q : ℚ) ≤ q + 1 / 2 := by
  have hf := Int.floor_le q
  unfold roundHalfEven
  split_ifs with h₁ h₂
  · linarith
  · linarith
  · push_cast
    linarith

theorem le_roundHalfEven (q : ℚ) : q - 1 / 2 ≤ roundHalfEven q := by
  have hl := Int.lt_floor_add_one q
  unfold roundHalfEven
  split_ifs with h₁ h₂
  · linarith
  · linarith
  · push_cast
    linarith

theorem roundHalfEven_mono {q q' : ℚ} (h : q ≤ q') : roundHalfEven q ≤ roundHalfEven q' := by
  rcases (Int.floor_mono h).lt_or_eq with hlt | heq
  · unfold roundHalfEven
    split_ifs <;> omega
  · unfold roundHalfEven
    rw [heq]
    by_cases h₁ : q < ⌊q'⌋ + 1 / 2
    · rw [if_pos h₁]
      split_ifs <;> omega
    have h₁' : ¬ q' < ⌊q'⌋ + 1 / 2 := fun hc => h₁ (h.trans_lt hc)
    rw [if_neg h₁, if_neg h₁']
    by_cases h₂ : q' = ⌊q'⌋ + 1 / 2 ∧ ⌊q'⌋ % 2 = 0
    · -- both are the same tie
      have hq : q = ⌊q'⌋ + 1 / 2 := le_antisymm (h.trans h₂.1.le) (not_lt.mp h₁)
      rw [if_pos h₂, if_pos ⟨hq, h₂.2⟩]
    · rw [if_neg h₂]
      split_ifs <;> omega

@[simp] theorem roundHalfEven_intCast (n : ℤ) : roundHalfEven n = n := by
  have h : (n : ℚ) < n + 1 / 2 := by linarith
  rw [roundHalfEven, Int.floor_intCast, if_pos h]

theorem roundHalfEven_le_intCast {q : ℚ} {n : ℤ} (h : q ≤ n) : roundHalfEven q ≤ n :=
  (roundHalfEven_mono h).trans_eq (roundHalfEven_intCast n)

theorem intCast_le_roundHalfEven {q : ℚ} {n : ℤ} (h : n ≤ q) : n ≤ roundHalfEven q :=
  (roundHalfEven_intCast n).symm.trans_le (roundHalfEven_mono h)

/-- **Rounding against an even bound.** -/
theorem le_roundHalfEven_iff {m : ℤ} (hm : m % 2 = 0) (q : ℚ) :
    m ≤ roundHalfEven q ↔ (m : ℚ) - 1 / 2 ≤ q := by
  have hf := Int.floor_le q
  have hl := Int.lt_floor_add_one q
  constructor
  · intro h
    have hr := roundHalfEven_le q
    have : (m : ℚ) ≤ roundHalfEven q := by exact_mod_cast h
    linarith
  · intro h
    -- the bound is at most the upper neighbour
    have hup : m ≤ ⌊q⌋ + 1 := by
      have : (m : ℚ) < ⌊q⌋ + 2 := by linarith
      have : m < ⌊q⌋ + 2 := by exact_mod_cast this
      omega
    rcases hup.lt_or_eq with hlt | heq
    · unfold roundHalfEven
      split_ifs <;> omega
    · have hc : (m : ℚ) = ⌊q⌋ + 1 := by exact_mod_cast heq
      unfold roundHalfEven
      split_ifs with h₁ h₂
      · linarith
      · omega
      · exact heq.le

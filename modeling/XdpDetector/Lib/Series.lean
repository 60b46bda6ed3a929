import Mathlib.Algebra.Order.BigOperators.Group.List
import Mathlib.Algebra.Order.Ring.Nat
import Mathlib.Tactic.SplitIfs

/-!
# Running statistics of a series

What an online summary of a series of numbers keeps: extrema, and the gaps between consecutive
values that increase from a positive value.

* `min?_concat`, `max?_concat`, `gaps_concat`: the effect of one more value;
* `sum_bounds`: a sum lies between its length times the extrema;
* **`gap_le_span`**: in a nondecreasing series no gap exceeds the whole span.
-/

namespace Series

/-! ## Extrema -/

theorem min?_concat (l : List ℕ) (a : ℕ) :
    (l ++ [a]).min? = some (l.min?.elim a fun m => min m a) := by
  cases l with
  | nil => rfl
  | cons x l =>
    rw [List.cons_append, List.min?_cons', List.min?_cons', List.foldl_append]
    rfl

theorem max?_concat (l : List ℕ) (a : ℕ) :
    (l ++ [a]).max? = some (l.max?.elim a fun m => max m a) := by
  cases l with
  | nil => rfl
  | cons x l =>
    rw [List.cons_append, List.max?_cons', List.max?_cons', List.foldl_append]
    rfl

theorem le_of_min? {l : List ℕ} {m : ℕ} (h : l.min? = some m) : ∀ x ∈ l, m ≤ x :=
  (List.min?_eq_some_iff.mp h).2

theorem le_of_max? {l : List ℕ} {m : ℕ} (h : l.max? = some m) : ∀ x ∈ l, x ≤ m :=
  (List.max?_eq_some_iff.mp h).2

/-- **The sum lies between the length times the extrema.** -/
theorem sum_bounds {l : List ℕ} {lo hi : ℕ} (hlo : l.min? = some lo) (hhi : l.max? = some hi) :
    l.length * lo ≤ l.sum ∧ l.sum ≤ l.length * hi := by
  constructor
  · simpa using List.card_nsmul_le_sum l lo (le_of_min? hlo)
  · simpa using List.sum_le_card_nsmul l hi (le_of_max? hhi)

/-! ## Gaps -/

/-- The differences of consecutive values `a`, `b` with `0 < a < b`. -/
def gaps : List ℕ → List ℕ
  | a :: b :: l => if 0 < a ∧ a < b then (b - a) :: gaps (b :: l) else gaps (b :: l)
  | _ => []

theorem gaps_concat_concat (l : List ℕ) (a b : ℕ) :
    gaps (l ++ [a, b]) = gaps (l ++ [a]) ++ if 0 < a ∧ a < b then [b - a] else [] := by
  induction l with
  | nil => simp [gaps]
  | cons x l ih =>
    cases l with
    | nil =>
      simp only [List.nil_append, List.cons_append, gaps] at ih ⊢
      split_ifs <;> simp
    | cons y l =>
      simp only [List.cons_append] at ih
      simp only [List.cons_append, gaps, ih]
      split_ifs <;> simp

/-- **One more value** adds its gap from the last one. -/
theorem gaps_concat {l : List ℕ} {a : ℕ} (h : l.getLast? = some a) (b : ℕ) :
    gaps (l ++ [b]) = gaps l ++ if 0 < a ∧ a < b then [b - a] else [] := by
  obtain ⟨l', rfl⟩ := List.getLast?_eq_some_iff.mp h
  rw [List.append_assoc]
  exact gaps_concat_concat l' a b

theorem pos_of_mem_gaps {l : List ℕ} {g : ℕ} (hg : g ∈ gaps l) : 0 < g := by
  induction l with
  | nil => cases hg
  | cons a l ih =>
    cases l with
    | nil => cases hg
    | cons b l =>
      rw [gaps] at hg
      split_ifs at hg with h
      · rcases List.mem_cons.mp hg with rfl | hg
        · omega
        · exact ih hg
      · exact ih hg

theorem lt_of_mem_gaps {l : List ℕ} {g m : ℕ} (hm : ∀ x ∈ l, x ≤ m) (hg : g ∈ gaps l) : g < m := by
  induction l with
  | nil => cases hg
  | cons a l ih =>
    cases l with
    | nil => cases hg
    | cons b l =>
      have htail := ih fun x hx => hm x (List.mem_cons_of_mem a hx)
      rw [gaps] at hg
      split_ifs at hg with h
      · rcases List.mem_cons.mp hg with rfl | hg
        · have := hm b (by simp)
          omega
        · exact htail hg
      · exact htail hg

/-- **No gap exceeds the span** of a nondecreasing series. -/
theorem gap_le_span {l : List ℕ} {a z g : ℕ} (hs : l.Pairwise (· ≤ ·)) (ha : l.head? = some a)
    (hz : l.getLast? = some z) (hg : g ∈ gaps l) : g ≤ z - a := by
  induction l generalizing a with
  | nil => cases hg
  | cons x l ih =>
    obtain rfl := Option.some.inj ha
    cases l with
    | nil => cases hg
    | cons y l =>
      obtain ⟨hx, hs'⟩ := List.pairwise_cons.mp hs
      have hz' : (y :: l).getLast? = some z := by rw [← hz, List.getLast?_cons_cons]
      have hxy := hx y List.mem_cons_self
      have hxz := hx z (List.mem_of_getLast? hz')
      have hyz : y ≤ z := by
        rcases List.mem_cons.mp (List.mem_of_getLast? hz') with rfl | h
        · exact le_rfl
        · exact (List.pairwise_cons.mp hs').1 z h
      rw [gaps] at hg
      split_ifs at hg
      · rcases List.mem_cons.mp hg with rfl | hg
        · omega
        · have := ih hs' rfl hz' hg; omega
      · have := ih hs' rfl hz' hg; omega

end Series

import XdpDetector.Lib.Maps
import Mathlib.Data.Nat.ModEq

/-!
# Totals over a table

The sum of a number kept with each element, over the elements of a table. Counters of fixed width
keep such a total up to a power of two only, so the step is stated modulo an arbitrary number.

* `BoundedMap.total`: the sum;
* `BoundedMap.total_add_old`: binding one key replaces its share;
* **`BoundedMap.total_mod_of_add`**: adding to one element modulo `n` adds to the total modulo `n`.
-/

namespace BoundedMap

variable {K V : Type} [DecidableEq K] {cap : ℕ}

def total (f : V → ℕ) (m : BoundedMap K V cap) : ℕ := (m.table.entries.map fun e => f e.2).sum

def share (f : V → ℕ) (m : BoundedMap K V cap) (k : K) : ℕ := (m.lookup k).elim 0 f

omit [DecidableEq K] in
theorem total_eq_of_perm {f : V → ℕ} {l l' : List ((_ : K) × V)} (h : l.Perm l') :
    (l.map fun e => f e.2).sum = (l'.map fun e => f e.2).sum := (h.map _).sum_nat

theorem total_eq_share_add (f : V → ℕ) (m : BoundedMap K V cap) (k : K) :
    m.total f = m.share f k + ((m.table.erase k).entries.map fun e => f e.2).sum := by
  cases h : m.lookup k with
  | none =>
    have hk : k ∉ m.table.keys := fun hc => by
      have hs := (m.mem_table_iff k).mp (AList.mem_keys.mpr hc)
      rw [h] at hs
      cases hs
    rw [share, h, Option.elim_none, Nat.zero_add, total]
    exact congrArg _ (congrArg _ (List.kerase_of_notMem_keys hk).symm)
  | some v =>
    have hp : m.table.entries.Perm (m.table.insert k v).entries := by
      refine List.lookup_ext m.table.nodupKeys (m.table.insert k v).nodupKeys fun k' v' => ?_
      show v' ∈ m.table.lookup k' ↔ v' ∈ (m.table.insert k v).lookup k'
      by_cases hk : k' = k
      · rw [hk, AList.lookup_insert]
        exact iff_of_eq (congrArg (v' ∈ ·) h)
      · rw [AList.lookup_insert_ne hk]
    rw [share, h, Option.elim_some, total, total_eq_of_perm hp]
    rfl

section Bind

variable {m m' : BoundedMap K V cap} {k : K} {v : V}

/-- **Binding one key** replaces its share of the total. -/
theorem total_add_old (f : V → ℕ)
    (h : ∀ k', m'.lookup k' = if k' = k then some v else m.lookup k') :
    m'.total f + m.share f k = m.total f + f v := by
  have hp : (m'.table.erase k).entries.Perm (m.table.erase k).entries := by
    refine List.lookup_ext (m'.table.erase k).nodupKeys (m.table.erase k).nodupKeys
      fun k' v' => ?_
    show v' ∈ (m'.table.erase k).lookup k' ↔ v' ∈ (m.table.erase k).lookup k'
    by_cases hk : k' = k
    · rw [hk, AList.lookup_erase, AList.lookup_erase]
    · rw [AList.lookup_erase_ne hk, AList.lookup_erase_ne hk]
      show v' ∈ m'.lookup k' ↔ v' ∈ m.lookup k'
      rw [h, if_neg hk]
  have hnew : m'.share f k = f v := by rw [share, h, if_pos rfl, Option.elim_some]
  rw [total_eq_share_add f m' k, total_eq_share_add f m k, hnew, total_eq_of_perm hp]
  omega

/-- **A counter that wraps at `n`**, increased by `d` at one key, increases the total by `d`. -/
theorem total_mod_of_add {f : V → ℕ} {n d : ℕ}
    (h : ∀ k', m'.lookup k' = if k' = k then some v else m.lookup k')
    (hv : f v = (m.share f k + d) % n) : m'.total f % n = (m.total f + d) % n := by
  have htot := total_add_old f h
  have hmod : (m'.total f + m.share f k) % n = (m.total f + d + m.share f k) % n := by
    rw [htot, hv, Nat.add_mod_mod, Nat.add_assoc, Nat.add_comm d]
  exact Nat.ModEq.add_right_cancel' (m.share f k) hmod

end Bind

end BoundedMap

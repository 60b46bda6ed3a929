import Mathlib.Data.Nat.Notation

/-!
# Walks that descend

A partial successor function whose steps lower a rank leads from every point to an end. The walk
itself is unbounded; a loop with a bound on its visits finds the end of the walks it is long
enough for.

* `Descent`: the successor function with its rank;
* `Descent.depth`, `Descent.last`: the length and the end of the walk;
* `Descent.visits`: the loop that gives up after `n` visits;
* **`Descent.visits_eq`**: the loop finds the end exactly of the walks shorter than its bound;
* `Descent.rel_last`: what a walk keeps.
-/

/-- **A partial successor function** along which a rank drops. -/
structure Descent (α : Type) where
  next : α → Option α
  rank : α → ℕ
  rank_lt : ∀ {a b}, next a = some b → rank b < rank a

namespace Descent

variable {α : Type} (d : Descent α)

/-- The number of steps from `a` to the end of its walk. -/
def depth (a : α) : ℕ :=
  match _h : d.next a with
  | none => 0
  | some b => depth b + 1
termination_by d.rank a
decreasing_by exact d.rank_lt _h

def last (a : α) : α :=
  match _h : d.next a with
  | none => a
  | some b => last b
termination_by d.rank a
decreasing_by exact d.rank_lt _h

/-- A loop that follows `next` and gives up after visiting `n` points. -/
def visits : ℕ → α → Option α
  | 0, _ => none
  | n + 1, a =>
    match d.next a with
    | none => some a
    | some b => visits n b

variable {d} {a b : α}

theorem depth_of_none (h : d.next a = none) : d.depth a = 0 := by
  rw [depth]
  split
  · rfl
  · simp_all

theorem depth_of_some (h : d.next a = some b) : d.depth a = d.depth b + 1 := by
  rw [depth]
  split
  · simp_all
  · simp_all

theorem last_of_none (h : d.next a = none) : d.last a = a := by
  rw [last]
  split
  · rfl
  · simp_all

theorem last_of_some (h : d.next a = some b) : d.last a = d.last b := by
  rw [last]
  split
  · simp_all
  · simp_all

theorem depth_le_rank (a : α) : d.depth a ≤ d.rank a := by
  induction h : d.rank a using Nat.strongRecOn generalizing a with
  | ind n ih =>
    cases hn : d.next a with
    | none =>
      rw [depth_of_none hn]
      exact Nat.zero_le n
    | some b =>
      rw [depth_of_some hn]
      have hlt : d.rank b < n := h ▸ d.rank_lt hn
      exact Nat.succ_le_of_lt (Nat.lt_of_le_of_lt (ih _ hlt b rfl) hlt)

/-- **A loop of `n` visits** finds the end of the walks with fewer than `n` steps, and of no
other. -/
theorem visits_eq (n : ℕ) (a : α) :
    d.visits n a = if d.depth a < n then some (d.last a) else none := by
  induction n generalizing a with
  | zero => rfl
  | succ n ih =>
    cases h : d.next a with
    | none => simp [visits, h, depth_of_none h, last_of_none h]
    | some b => simp [visits, h, ih, depth_of_some h, last_of_some h]

/-- A reflexive and transitive relation along the steps relates a point to the end of its walk. -/
theorem rel_last {r : α → α → Prop} (hrefl : ∀ a, r a a)
    (htrans : ∀ {a b c}, d.next a = some b → r b c → r a c) (a : α) : r a (d.last a) := by
  induction h : d.rank a using Nat.strongRecOn generalizing a with
  | ind n ih =>
    cases hn : d.next a with
    | none => rw [last_of_none hn]; exact hrefl a
    | some b =>
      rw [last_of_some hn]
      exact htrans hn (ih _ (h ▸ d.rank_lt hn) b rfl)

end Descent

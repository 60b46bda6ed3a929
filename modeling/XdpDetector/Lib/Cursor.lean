import Mathlib.Data.List.Basic

/-!
# Iterating a table by its keys

A table without a cursor of its own is walked by asking for the key after a given one. Keys are in
some fixed order; a key that is not in the table stands before all of them.

* `successor`, `nextKey`: the key after a given one;
* `follow`: the loop that asks for one key after another, with a bound on its rounds;
* `follow_add`: more rounds change nothing;
* `follow_of_mem`, **`follow_of_notMem`**: what the loop visits, from a key of the table and from a
  key outside it.
-/

namespace Cursor

variable {K R : Type} [DecidableEq K]

/-- The key after `k` in a list that has it. -/
def successor (k : K) : List K → Option K
  | [] => none
  | a :: l => if a = k then l.head? else successor k l

/-- The key after `k`: the first one if `k` is not in the order. -/
def nextKey (order : List K) (k : K) : Option K :=
  if k ∈ order then successor k order else order.head?

/-- Ask for the next key until there is none, emitting at each; `none` when the rounds run out. -/
def follow (next : K → Option K) (emit : K → List R) : ℕ → K → Option (List R)
  | 0, _ => none
  | n + 1, k =>
    match next k with
    | none => some []
    | some k' => (follow next emit n k').map (emit k' ++ ·)

theorem successor_append {pre suf : List K} {k : K} (h : k ∉ pre) :
    successor k (pre ++ k :: suf) = suf.head? := by
  induction pre with
  | nil => exact if_pos rfl
  | cons a pre ih =>
    rw [List.mem_cons, not_or] at h
    rw [List.cons_append, successor, if_neg (Ne.symm h.1), ih h.2]

theorem nextKey_of_split {order pre suf : List K} {k : K} (ho : order = pre ++ k :: suf)
    (hn : order.Nodup) : nextKey order k = suf.head? := by
  have hk : k ∉ pre := by
    rw [ho] at hn
    exact fun hc => (List.nodup_append.mp hn).2.2 k hc k (by simp) rfl
  rw [nextKey, if_pos (by rw [ho]; simp), ho, successor_append hk]

section Follow

variable {next : K → Option K} {emit : K → List R} {n : ℕ} {k k' : K}

omit [DecidableEq K] in
theorem follow_of_none (h : next k = none) : follow next emit (n + 1) k = some [] := by
  rw [follow, h]

omit [DecidableEq K] in
theorem follow_of_some (h : next k = some k') :
    follow next emit (n + 1) k = (follow next emit n k').map (emit k' ++ ·) := by
  rw [follow, h]

omit [DecidableEq K] in
theorem follow_add {rows : List R} (h : follow next emit n k = some rows) (m : ℕ) :
    follow next emit (n + m) k = some rows := by
  induction n generalizing k rows with
  | zero => cases h
  | succ n ih =>
    rw [Nat.succ_add]
    cases hk : next k with
    | none =>
      rw [follow_of_none hk] at h ⊢
      exact h
    | some k' =>
      rw [follow_of_some hk] at h ⊢
      obtain ⟨rest, hrest, rfl⟩ := Option.map_eq_some_iff.mp h
      rw [ih hrest]
      rfl

end Follow

/-- From a key of the table the loop visits what comes after it. -/
theorem follow_of_mem (emit : K → List R) {order pre suf : List K} {k : K}
    (ho : order = pre ++ k :: suf) (hn : order.Nodup) :
    follow (nextKey order) emit (suf.length + 1) k = some (suf.flatMap emit) := by
  have hnext := nextKey_of_split ho hn
  induction suf generalizing pre k with
  | nil => exact follow_of_none hnext
  | cons k' suf ih =>
    have ho' : order = (pre ++ [k]) ++ k' :: suf := by rw [ho]; simp
    rw [follow_of_some hnext, List.length_cons, ih ho' (nextKey_of_split ho' hn)]
    rfl

/-- **From a key outside the table** the loop visits every key once, in order. -/
theorem follow_of_notMem (emit : K → List R) {order : List K} {k : K} (hk : k ∉ order)
    (hn : order.Nodup) :
    follow (nextKey order) emit (order.length + 1) k = some (order.flatMap emit) := by
  have hnext : nextKey order k = order.head? := if_neg hk
  cases order with
  | nil => rfl
  | cons a l =>
    have hrest := follow_of_mem emit (List.nil_append (a :: l)).symm hn
    rw [follow_of_some hnext, List.length_cons, hrest]
    rfl

end Cursor

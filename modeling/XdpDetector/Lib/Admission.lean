import Mathlib.Data.List.Induction
import Mathlib.Data.List.Nodup

/-!
# Admission in order of arrival

A table of bounded size that never evicts admits the first keys that arrive and no others.

* `distinct`: the keys of a list in the order of their first arrival;
* `admitted`: the first `cap` of them;
* **`admitted_snoc`**, `mem_admitted_snoc`: how one more arrival changes them.
-/

namespace Admission

variable {K : Type} [DecidableEq K]

/-- The keys of a list, in the order of their first arrival. -/
def distinct (ks : List K) : List K :=
  ks.foldl (fun seen k => if k ∈ seen then seen else seen ++ [k]) []

/-- The first `cap` distinct keys. -/
def admitted (cap : ℕ) (ks : List K) : List K := (distinct ks).take cap

theorem distinct_snoc (ks : List K) (k : K) :
    distinct (ks ++ [k]) = if k ∈ distinct ks then distinct ks else distinct ks ++ [k] := by
  rw [distinct, List.foldl_append]
  rfl

theorem mem_distinct {ks : List K} {k : K} : k ∈ distinct ks ↔ k ∈ ks := by
  induction ks using List.reverseRecOn with
  | nil => rfl
  | append_singleton ks a ih =>
    rw [distinct_snoc, List.mem_append, List.mem_singleton, ← ih]
    split_ifs with h
    · exact ⟨Or.inl, fun hk => hk.elim id fun hk => hk ▸ h⟩
    · simp

theorem nodup_distinct (ks : List K) : (distinct ks).Nodup := by
  induction ks using List.reverseRecOn with
  | nil => exact List.nodup_nil
  | append_singleton ks a ih =>
    rw [distinct_snoc]
    split_ifs with h
    · exact ih
    · exact ih.append (List.nodup_singleton a) (by simpa using h)

variable {cap : ℕ} {ks : List K} {k : K}

theorem length_admitted (cap : ℕ) (ks : List K) :
    (admitted cap ks).length = min cap (distinct ks).length := List.length_take

/-- Within the bound every key is admitted. -/
theorem admitted_of_le (h : (distinct ks).length ≤ cap) : admitted cap ks = distinct ks :=
  List.take_of_length_le h

/-- A key is turned away only when the table is full. -/
theorem mem_admitted_of_lt (h : (admitted cap ks).length < cap) :
    k ∈ admitted cap ks ↔ k ∈ ks := by
  rw [length_admitted] at h
  rw [admitted_of_le (by omega), mem_distinct]

/-- **One more arrival** is admitted if it is new and there is room. -/
theorem admitted_snoc (cap : ℕ) (ks : List K) (k : K) :
    admitted cap (ks ++ [k]) =
      if k ∉ admitted cap ks ∧ (admitted cap ks).length < cap then admitted cap ks ++ [k]
      else admitted cap ks := by
  rcases Nat.lt_or_ge (distinct ks).length cap with hlt | hge
  · have hall : admitted cap ks = distinct ks := admitted_of_le (Nat.le_of_lt hlt)
    rw [hall, admitted, distinct_snoc]
    by_cases hk : k ∈ distinct ks
    · rw [if_pos hk, if_neg fun h => h.1 hk, List.take_of_length_le (Nat.le_of_lt hlt)]
    · rw [if_neg hk, if_pos ⟨hk, hlt⟩, List.take_of_length_le (by simp; omega)]
  · have hfull : (admitted cap ks).length = cap := by
      rw [length_admitted, Nat.min_eq_left hge]
    rw [if_neg fun h => absurd h.2 (by omega), admitted, distinct_snoc]
    split_ifs
    · rfl
    · rw [List.take_append_of_le_length hge, admitted]

theorem mem_admitted_snoc {k' : K} : k' ∈ admitted cap (ks ++ [k]) ↔
    k' ∈ admitted cap ks ∨ (k' = k ∧ (admitted cap ks).length < cap) := by
  rw [admitted_snoc]
  by_cases hk : k ∈ admitted cap ks
  · rw [if_neg fun h => h.1 hk]
    exact ⟨Or.inl, fun h => h.elim id fun h => h.1 ▸ hk⟩
  · by_cases hlt : (admitted cap ks).length < cap
    · simp [hk, hlt]
    · simp [hlt]

end Admission

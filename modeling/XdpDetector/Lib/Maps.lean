import Mathlib.Data.List.AList

/-!
# Bounded key-value maps

The two map kinds of an in-kernel program: a hash table that refuses a new key once `cap` keys are
stored and never evicts, and an array of `n` slots that always exist.

* `BoundedMap`: the table with its bound as a field; `update` (insert or replace, `none` when
  refused) and `store` (a write through a pointer to a stored element);
* `update_isSome_iff`, `lookup_update`, `lookup_store`, `size_update`: what each operation does;
* `ArrayMap`: `lookup` and `update` by index.
-/

/-- **A table of at most `cap` keys.** -/
structure BoundedMap (K V : Type) [DecidableEq K] (cap : ℕ) where
  table : AList fun _ : K => V
  size_le : table.keys.length ≤ cap

namespace BoundedMap

variable {K V : Type} [DecidableEq K] {cap : ℕ}

def empty : BoundedMap K V cap := ⟨∅, by simp⟩

def size (m : BoundedMap K V cap) : ℕ := m.table.keys.length

def lookup (m : BoundedMap K V cap) (k : K) : Option V := m.table.lookup k

theorem length_keys_insert (t : AList fun _ : K => V) (k : K) (v : V) :
    (t.insert k v).keys.length = if k ∈ t then t.keys.length else t.keys.length + 1 := by
  rw [AList.keys_insert, List.length_cons]
  split_ifs with h
  · have hk : k ∈ t.keys := AList.mem_keys.mp h
    rw [List.length_erase_of_mem hk, Nat.sub_add_cancel (List.length_pos_of_mem hk)]
  · rw [List.erase_of_not_mem fun hk => h (AList.mem_keys.mpr hk)]

/-- Insert or replace: refused when the key is new and the table is full. -/
def update (m : BoundedMap K V cap) (k : K) (v : V) : Option (BoundedMap K V cap) :=
  if h : k ∈ m.table ∨ m.size < cap then
    some ⟨m.table.insert k v, by
      rw [length_keys_insert]
      split_ifs with hk
      · exact m.size_le
      · exact Nat.succ_le_of_lt (h.resolve_left hk)⟩
  else none

/-- Write through a pointer to the element of `k`. -/
def store (m : BoundedMap K V cap) (k : K) (v : V) : BoundedMap K V cap :=
  if h : k ∈ m.table then
    ⟨m.table.insert k v, by rw [length_keys_insert, if_pos h]; exact m.size_le⟩
  else m

@[simp] theorem lookup_empty (k : K) : (empty : BoundedMap K V cap).lookup k = none :=
  AList.lookup_empty k

theorem mem_table_iff (m : BoundedMap K V cap) (k : K) : k ∈ m.table ↔ (m.lookup k).isSome :=
  AList.lookup_isSome.symm

theorem size_le_cap (m : BoundedMap K V cap) : m.size ≤ cap := m.size_le

/-- **When an update is accepted.** -/
theorem update_isSome_iff (m : BoundedMap K V cap) (k : K) (v : V) :
    (m.update k v).isSome ↔ (m.lookup k).isSome ∨ m.size < cap := by
  rw [← mem_table_iff, update]
  split_ifs with h
  · simp [h]
  · simp [h]

theorem update_eq_none_iff (m : BoundedMap K V cap) (k : K) (v : V) :
    m.update k v = none ↔ m.lookup k = none ∧ m.size = cap := by
  have h := m.size_le_cap
  rw [← Option.not_isSome_iff_eq_none, update_isSome_iff, not_or, Option.not_isSome_iff_eq_none]
  exact and_congr_right fun _ => by omega

/-- **An accepted update** binds its key and leaves every other key alone. -/
theorem lookup_update {m m' : BoundedMap K V cap} {k : K} {v : V} (h : m.update k v = some m')
    (k' : K) : m'.lookup k' = if k' = k then some v else m.lookup k' := by
  rw [update] at h
  split_ifs at h
  obtain rfl := Option.some.inj h
  split_ifs with hk
  · rw [hk]; exact AList.lookup_insert m.table
  · exact AList.lookup_insert_ne hk

theorem size_update {m m' : BoundedMap K V cap} {k : K} {v : V} (h : m.update k v = some m') :
    m'.size = if (m.lookup k).isSome then m.size else m.size + 1 := by
  rw [update] at h
  split_ifs at h
  obtain rfl := Option.some.inj h
  rw [size, length_keys_insert]
  exact if_congr (m.mem_table_iff k) rfl rfl

/-- **A store** changes the value of its own key only. -/
theorem lookup_store (m : BoundedMap K V cap) (k : K) (v : V) (k' : K) :
    (m.store k v).lookup k' =
      if k' = k ∧ (m.lookup k).isSome then some v else m.lookup k' := by
  rw [store]
  by_cases h : k ∈ m.table
  · rw [dif_pos h]
    by_cases hk : k' = k
    · rw [if_pos ⟨hk, (m.mem_table_iff k).mp h⟩, hk]
      exact AList.lookup_insert m.table
    · rw [if_neg fun hc => hk hc.1]
      exact AList.lookup_insert_ne hk
  · rw [dif_neg h, if_neg fun hc => h ((m.mem_table_iff k).mpr hc.2)]

@[simp] theorem size_store (m : BoundedMap K V cap) (k : K) (v : V) :
    (m.store k v).size = m.size := by
  rw [store]
  split_ifs with h
  · exact (length_keys_insert m.table k v).trans (if_pos h)
  · rfl

end BoundedMap

/-- **An array of `n` slots.** -/
structure ArrayMap (V : Type) (n : ℕ) where
  slot : Fin n → V

namespace ArrayMap

variable {V : Type} {n : ℕ}

def lookup (m : ArrayMap V n) (i : ℕ) : Option V := if h : i < n then some (m.slot ⟨i, h⟩) else none

/-- Overwrite the slot at index `i`. -/
def update (m : ArrayMap V n) (i : ℕ) (v : V) : ArrayMap V n :=
  ⟨fun j => if (j : ℕ) = i then v else m.slot j⟩

@[simp] theorem lookup_zero (m : ArrayMap V (n + 1)) : m.lookup 0 = some (m.slot 0) := rfl

end ArrayMap

import Mathlib.Tactic.FieldSimp
import Mathlib.Tactic.Linarith

/-!
# Numbers in text files

Decimal numerals as they are printed, and as they are read from a file of separated fields.

* `nat`, `int`, `decimal`: the formats of integers and of numbers with a fixed number of decimals;
* `readNat`, `readInt`, `readDecimal`: the readers;
* **`readNat_nat`**, `readInt_int`, `readDecimal_decimal`: what is printed is read;
* `Plain`: the characters that occur;
* `splitOn_lines`, `mapM_of_forall`: a text of lines, read line by line.
-/

namespace Text

/-! ## Natural numbers -/

def nat (n : ℕ) : List Char := Nat.toDigits 10 n

/-- A nonempty row of digits. -/
def readNat (l : List Char) : Option ℕ :=
  if l ≠ [] ∧ l.all Char.isDigit then some (Nat.ofDigitChars 10 l 0) else none

theorem nat_ne_nil (n : ℕ) : nat n ≠ [] := Nat.toDigits_ne_nil

theorem isDigit_nat {n : ℕ} {c : Char} (h : c ∈ nat n) : c.isDigit :=
  Nat.isDigit_of_mem_toDigits (by decide) (by decide) h

theorem readNat_of_digits {l : List Char} (hl : l ≠ []) (hd : ∀ c ∈ l, c.isDigit) :
    readNat l = some (Nat.ofDigitChars 10 l 0) := if_pos ⟨hl, List.all_eq_true.mpr hd⟩

@[simp] theorem readNat_nat (n : ℕ) : readNat (nat n) = some n := by
  rw [readNat_of_digits (nat_ne_nil n) fun _ => isDigit_nat, nat, Nat.ofDigitChars_ten_toDigits]

/-! ## Integers -/

def int : ℤ → List Char
  | .ofNat n => nat n
  | .negSucc n => '-' :: nat (n + 1)

def readInt : List Char → Option ℤ
  | '-' :: l => (readNat l).map fun n => -(n : ℤ)
  | l => (readNat l).map fun n => (n : ℤ)

/-- **What is printed is read**, also behind a sign. -/
@[simp] theorem readInt_int (x : ℤ) : readInt (int x) = some x := by
  cases x with
  | negSucc n => simp [int, readInt, Int.negSucc_eq]
  | ofNat n =>
    have hne : ∀ l, nat n ≠ '-' :: l := by
      intro l hl
      have h : ('-').isDigit := isDigit_nat (n := n) (by rw [hl]; exact List.mem_cons_self)
      exact absurd h (by decide)
    rw [int, readInt, readNat_nat]
    · rfl
    · exact fun l hl => hne l hl

/-! ## Numbers with decimals -/

/-- `n` with leading zeros, `k` digits wide. -/
def padded (k n : ℕ) : List Char := List.replicate (k - (nat n).length) '0' ++ nat n

/-- `n / 10 ^ k` with `k` decimals. -/
def decimal (k n : ℕ) : List Char := nat (n / 10 ^ k) ++ '.' :: padded k (n % 10 ^ k)

/-- An integer part and decimals around a point. -/
def readDecimal (l : List Char) : Option ℚ :=
  match l.splitOn '.' with
  | [a, b] => do
    let whole ← readNat a
    let frac ← readNat b
    some (whole + frac / 10 ^ b.length)
  | _ => none

theorem length_padded {k n : ℕ} (hk : 0 < k) (hn : n < 10 ^ k) : (padded k n).length = k := by
  have h : (nat n).length ≤ k := (Nat.length_toDigits_le_iff (by decide) hk).mpr hn
  rw [padded, List.length_append, List.length_replicate]
  omega

theorem isDigit_padded {k n : ℕ} {c : Char} (h : c ∈ padded k n) : c.isDigit := by
  rcases List.mem_append.mp h with h | h
  · rw [List.eq_of_mem_replicate h]
    rfl
  · exact isDigit_nat h

theorem readNat_padded (k n : ℕ) : readNat (padded k n) = some n := by
  have hne : padded k n ≠ [] := by simp [padded, nat_ne_nil]
  rw [readNat_of_digits hne fun _ => isDigit_padded, padded, Nat.ofDigitChars_append,
    Nat.ofDigitChars_replicate_zero, Nat.mul_zero, nat, Nat.ofDigitChars_ten_toDigits]

theorem point_notMem {l : List Char} (h : ∀ c ∈ l, c.isDigit) : '.' ∉ l := fun hc =>
  absurd (h _ hc) (by decide)

theorem readDecimal_decimal {k : ℕ} (hk : 0 < k) (n : ℕ) :
    readDecimal (decimal k n) = some ((n : ℚ) / 10 ^ k) := by
  have hlen := length_padded hk (Nat.mod_lt n (Nat.pow_pos (n := k) (by decide : 0 < 10)))
  have hsplit : (decimal k n).splitOn '.' = [nat (n / 10 ^ k), padded k (n % 10 ^ k)] := by
    rw [decimal, List.splitOn_append_cons_self,
      List.splitOn_eq_singleton (point_notMem fun _ => isDigit_nat),
      List.splitOn_eq_singleton (point_notMem fun _ => isDigit_padded)]
    rfl
  rw [readDecimal, hsplit]
  simp only [readNat_nat, readNat_padded, Option.bind_eq_bind, Option.bind_some, hlen]
  have hdm : (n : ℚ) = (10 : ℚ) ^ k * (n / 10 ^ k : ℕ) + (n % 10 ^ k : ℕ) := by
    exact_mod_cast (Nat.div_add_mod n (10 ^ k)).symm
  congr 1
  rw [hdm]
  field_simp

/-! ## The characters that occur -/

/-- Digits, points and signs. -/
def Plain (l : List Char) : Prop := ∀ c ∈ l, c.isDigit ∨ c = '.' ∨ c = '-'

theorem plain_nat (n : ℕ) : Plain (nat n) := fun _ h => Or.inl (isDigit_nat h)

theorem plain_int (x : ℤ) : Plain (int x) := by
  cases x with
  | ofNat n => exact plain_nat n
  | negSucc n =>
    intro c hc
    rcases List.mem_cons.mp hc with rfl | hc
    · exact Or.inr (Or.inr rfl)
    · exact plain_nat _ c hc

theorem plain_decimal (k n : ℕ) : Plain (decimal k n) := by
  intro c hc
  rcases List.mem_append.mp hc with hc | hc
  · exact plain_nat _ c hc
  · rcases List.mem_cons.mp hc with rfl | hc
    · exact Or.inr (Or.inl rfl)
    · exact Or.inl (isDigit_padded hc)

theorem Plain.notMem {l : List Char} (h : Plain l) {c : Char} (hd : ¬ c.isDigit) (hp : c ≠ '.')
    (hm : c ≠ '-') : c ∉ l := by
  intro hc
  rcases h c hc with h | h | h
  · exact hd h
  · exact hp h
  · exact hm h

theorem mem_of_mem_intercalate {sep : List Char} {ls : List (List Char)} {c : Char}
    (h : c ∈ sep.intercalate ls) : c ∈ sep ∨ ∃ l ∈ ls, c ∈ l := by
  induction ls with
  | nil => simp at h
  | cons l ls ih =>
    cases ls with
    | nil => exact Or.inr ⟨l, by simp, by simpa using h⟩
    | cons l' ls =>
      rw [List.intercalate_cons_cons, List.mem_append, List.mem_append] at h
      rcases h with (h | h) | h
      · exact Or.inr ⟨l, List.mem_cons_self, h⟩
      · exact Or.inl h
      · refine (ih h).imp_right ?_
        rintro ⟨k, hk, hc⟩
        exact ⟨k, List.mem_cons_of_mem l hk, hc⟩

/-! ## Lines -/

/-- **A text of lines** splits into them, with nothing behind the last one. -/
theorem splitOn_lines {ls : List (List Char)} (h : ∀ l ∈ ls, '\n' ∉ l) :
    (ls.flatMap fun l => l ++ ['\n']).splitOn '\n' = ls ++ [[]] := by
  induction ls with
  | nil => rfl
  | cons l ls ih =>
    have hl := h l List.mem_cons_self
    rw [List.flatMap_cons, List.append_assoc, List.singleton_append, List.splitOn_append_cons_self,
      List.splitOn_eq_singleton hl, ih fun l' hl' => h l' (List.mem_cons_of_mem l hl')]
    rfl

theorem mapM_of_forall {α β γ : Type} {f : β → Option γ} {g : α → β} {r : α → γ} {as : List α}
    (h : ∀ a ∈ as, f (g a) = some (r a)) : (as.map g).mapM f = some (as.map r) := by
  induction as with
  | nil => rfl
  | cons a as ih =>
    have ha := h a List.mem_cons_self
    rw [List.map_cons, List.mapM_cons, ha, ih fun a' ha' => h a' (List.mem_cons_of_mem a ha')]
    rfl

end Text

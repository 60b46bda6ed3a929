import Mathlib.Algebra.Order.Group.Nat
import Mathlib.Data.List.OfFn
import Mathlib.Logic.Equiv.Defs
import Mathlib.Tactic.Ring
import Mathlib.Tactic.NormNum

/-!
# Byte images of C objects

Objects are laid out as a C compiler does with natural alignment: each field of a struct starts at
the next multiple of its alignment and the struct is padded to a multiple of its own.

* `leBytes`, `ofLe`: fixed-width little-endian numbers, with `ofLe_leBytes`;
* `Fmt`: a type's size, alignment, writer and reader, carrying the law that the reader undoes the
  writer in front of any suffix;
* `Fmt.array`, `Fields.snoc`, `Fields.close`: arrays and structs of formats;
* **`decode_array_encode`**: an array image read at another length gives the same elements.
-/

namespace ByteFmt

/-! ## Little-endian numbers -/

/-- The `w` little-endian bytes of `n`. -/
def leBytes : ℕ → ℕ → List UInt8
  | 0, _ => []
  | w + 1, n => UInt8.ofNat n :: leBytes w (n / 256)

/-- The number with little-endian bytes `bs`. -/
def ofLe : List UInt8 → ℕ
  | [] => 0
  | b :: bs => b.toNat + 256 * ofLe bs

@[simp] theorem length_leBytes (w n : ℕ) : (leBytes w n).length = w := by
  induction w generalizing n with
  | zero => rfl
  | succ w ih => simp [leBytes, ih]

theorem ofLe_leBytes (w n : ℕ) : ofLe (leBytes w n) = n % 256 ^ w := by
  induction w generalizing n with
  | zero => simp [leBytes, ofLe, Nat.mod_one]
  | succ w ih =>
    have h : n % 256 ^ (w + 1) = n % 256 + 256 * (n / 256 % 256 ^ w) := by
      rw [pow_succ', Nat.mod_mul]
    rw [leBytes, ofLe, ih, UInt8.toNat_ofNat', h]

theorem ofLe_lt (bs : List UInt8) : ofLe bs < 256 ^ bs.length := by
  induction bs with
  | nil => simp [ofLe]
  | cons b bs ih =>
    have hb : b.toNat < 256 := b.toNat_lt
    rw [ofLe, List.length_cons, pow_succ]
    omega

theorem leBytes_ofLe (bs : List UInt8) : leBytes bs.length (ofLe bs) = bs := by
  induction bs with
  | nil => rfl
  | cons b bs ih =>
    have hb : b.toNat < 256 := b.toNat_lt
    have hd : (b.toNat + 256 * ofLe bs) / 256 = ofLe bs := by omega
    have hm : UInt8.ofNat (b.toNat + 256 * ofLe bs) = b := by
      apply UInt8.toNat_inj.mp
      rw [UInt8.toNat_ofNat']
      omega
    rw [List.length_cons, ofLe, leBytes, hd, hm, ih]

theorem ofLe_replicate_zero (n : ℕ) : ofLe (List.replicate n 0) = 0 := by
  induction n with
  | zero => rfl
  | succ n ih => simp [List.replicate_succ, ofLe, ih]

/-! ## Formats -/

/-- **A format**: size, alignment, writer and reader of a type, reading back what it wrote. -/
structure Fmt (α : Type) where
  size : ℕ
  align : ℕ
  encode : α → List UInt8
  decode : List UInt8 → α
  align_pos : 0 < align
  align_dvd : align ∣ size
  length_encode : ∀ a, (encode a).length = size
  decode_encode : ∀ a rest, decode (encode a ++ rest) = a

/-- A `w`-byte little-endian scalar, aligned to its size. -/
def Fmt.scalar {α : Type} (w : ℕ) (hw : 0 < w) (toNat : α → ℕ) (ofNat : ℕ → α)
    (h : ∀ a, ofNat (toNat a % 256 ^ w) = a) : Fmt α where
  size := w
  align := w
  encode a := leBytes w (toNat a)
  decode bs := ofNat (ofLe (bs.take w))
  align_pos := hw
  align_dvd := dvd_rfl
  length_encode a := length_leBytes w _
  decode_encode a rest := by
    rw [List.take_left' (length_leBytes w _), ofLe_leBytes, h]

def Fmt.u32 : Fmt UInt32 := Fmt.scalar 4 (by decide) UInt32.toNat UInt32.ofNat fun a => by
  rw [Nat.mod_eq_of_lt (by simpa using a.toNat_lt), UInt32.ofNat_toNat]

def Fmt.u64 : Fmt UInt64 := Fmt.scalar 8 (by decide) UInt64.toNat UInt64.ofNat fun a => by
  rw [Nat.mod_eq_of_lt (by simpa using a.toNat_lt), UInt64.ofNat_toNat]

/-- A 32-bit `int`, stored as its two's complement. -/
def Fmt.i32 : Fmt Int32 :=
  Fmt.scalar 4 (by decide) (fun a => a.toUInt32.toNat) (fun n => Int32.ofUInt32 (UInt32.ofNat n))
    fun a => by
      rw [Nat.mod_eq_of_lt (by simpa using a.toUInt32.toNat_lt), UInt32.ofNat_toNat]

/-! ## Arrays -/

theorem drop_flatten_ofFn {m : ℕ} : ∀ {n : ℕ} (g : Fin n → List UInt8), (∀ i, (g i).length = m) →
    ∀ (rest : List UInt8) (i : Fin n),
      ∃ r, ((List.ofFn g).flatten ++ rest).drop (i * m) = g i ++ r
  | 0, _, _, _, i => i.elim0
  | n + 1, g, hg, rest, i => by
    rw [List.ofFn_succ, List.flatten_cons, List.append_assoc]
    refine Fin.cases ?_ (fun j => ?_) i
    · exact ⟨(List.ofFn fun j => g j.succ).flatten ++ rest, by simp⟩
    · obtain ⟨r, hr⟩ := drop_flatten_ofFn (fun j => g j.succ) (fun j => hg j.succ) rest j
      refine ⟨r, ?_⟩
      rw [← hr, Fin.val_succ, Nat.succ_mul, Nat.add_comm, ← List.drop_drop,
        List.drop_left' (hg 0)]

theorem length_flatten_ofFn {m n : ℕ} (g : Fin n → List UInt8) (hg : ∀ i, (g i).length = m) :
    (List.ofFn g).flatten.length = n * m := by
  rw [List.length_flatten, List.map_ofFn]
  have : (List.length ∘ g) = fun _ => m := funext hg
  rw [this, List.ofFn_const, List.sum_replicate_nat]

/-- An array of `n` elements, one after another. -/
def Fmt.array {α : Type} (n : ℕ) (f : Fmt α) : Fmt (Fin n → α) where
  size := n * f.size
  align := f.align
  encode v := (List.ofFn fun i => f.encode (v i)).flatten
  decode bs := fun i => f.decode (bs.drop (i * f.size))
  align_pos := f.align_pos
  align_dvd := f.align_dvd.mul_left n
  length_encode v := length_flatten_ofFn _ fun i => f.length_encode (v i)
  decode_encode v rest := by
    funext i
    obtain ⟨r, hr⟩ := drop_flatten_ofFn (fun i => f.encode (v i)) (fun i => f.length_encode (v i))
      rest i
    rw [hr, f.decode_encode]

/-- **Reading an array image at another length** gives the elements both lengths have. -/
theorem decode_array_encode {α : Type} {n m : ℕ} (f : Fmt α) (v : Fin n → α) (rest : List UInt8)
    (i : Fin m) (hi : (i : ℕ) < n) :
    (Fmt.array m f).decode ((Fmt.array n f).encode v ++ rest) i = v ⟨i, hi⟩ := by
  have h := congrFun ((Fmt.array n f).decode_encode v rest) ⟨i, hi⟩
  exact h

/-! ## Structs -/

/-- The least multiple of `a` that is at least `n`. -/
def roundUp (n a : ℕ) : ℕ := (n + (a - 1)) / a * a

theorem le_roundUp {a : ℕ} (n : ℕ) (ha : 0 < a) : n ≤ roundUp n a := by
  have h := Nat.div_add_mod (n + (a - 1)) a
  have hlt := Nat.mod_lt (n + (a - 1)) ha
  rw [Nat.mul_comm] at h
  unfold roundUp
  omega

theorem dvd_roundUp (n a : ℕ) : a ∣ roundUp n a := Dvd.intro_left _ rfl

/-- **The fields of a struct so far**, before its trailing padding. -/
structure Fields (α : Type) where
  size : ℕ
  align : ℕ
  encode : α → List UInt8
  decode : List UInt8 → α
  align_pos : 0 < align
  length_encode : ∀ a, (encode a).length = size
  decode_encode : ∀ a rest, decode (encode a ++ rest) = a

def Fields.nil : Fields Unit where
  size := 0
  align := 1
  encode _ := []
  decode _ := ()
  align_pos := one_pos
  length_encode _ := rfl
  decode_encode _ _ := rfl

/-- Where a field of format `f` goes after the fields `s`. -/
def Fields.offset {α β : Type} (s : Fields α) (f : Fmt β) : ℕ := roundUp s.size f.align

/-- The fields `s` and their padding up to the next field. -/
def Fields.padded {α β : Type} (s : Fields α) (f : Fmt β) (a : α) : List UInt8 :=
  s.encode a ++ List.replicate (s.offset f - s.size) 0

theorem Fields.length_padded {α β : Type} (s : Fields α) (f : Fmt β) (a : α) :
    (s.padded f a).length = s.offset f := by
  have h : s.size ≤ s.offset f := le_roundUp s.size f.align_pos
  rw [padded, List.length_append, s.length_encode, List.length_replicate]
  omega

/-- Append a field at the next multiple of its alignment. -/
def Fields.snoc {α β : Type} (s : Fields α) (f : Fmt β) : Fields (α × β) where
  size := s.offset f + f.size
  align := max s.align f.align
  encode p := s.padded f p.1 ++ f.encode p.2
  decode bs := (s.decode bs, f.decode (bs.drop (s.offset f)))
  align_pos := lt_max_of_lt_left s.align_pos
  length_encode p := by rw [List.length_append, s.length_padded, f.length_encode]
  decode_encode p rest := by
    refine Prod.ext ?_ ?_
    · simp only [padded, List.append_assoc, s.decode_encode]
    · rw [List.append_assoc, List.drop_left' (s.length_padded f p.1), f.decode_encode]

/-- Close a struct with its trailing padding, and name its fields. -/
def Fields.close {α β : Type} (s : Fields α) (e : α ≃ β) : Fmt β where
  size := roundUp s.size s.align
  align := s.align
  encode b := s.encode (e.symm b) ++ List.replicate (roundUp s.size s.align - s.size) 0
  decode bs := e (s.decode bs)
  align_pos := s.align_pos
  align_dvd := dvd_roundUp _ _
  length_encode b := by
    have h := le_roundUp s.size s.align_pos
    rw [List.length_append, s.length_encode, List.length_replicate]
    omega
  decode_encode b rest := by
    rw [List.append_assoc, s.decode_encode, Equiv.apply_symm_apply]

end ByteFmt

import XdpDetector.Lib.Run
import Mathlib.Data.List.Nodup
import Mathlib.Data.List.Perm.Subperm
import Mathlib.Logic.Function.Basic

/-!
# Plain read-modify-write

Any number of parties each read a cell and later store what they computed from the value read; then
they read the cell once more and store back what they have read. Nothing keeps one party's store out
of another's read and store, and then an update is lost, until someone stores a value back that
still contains it. The same cell with lists of parties as its values, each party appending itself,
shows which updates a value contains.

* `Cell`, `step`: the cell, and one turn of a party;
* `traced`: the run over lists of parties;
* **`run_eq_map`**: every value is the updates of its parties, applied in order;
* `Sane`, `sane_traced`: no party is contained twice, and only parties that have stored;
* `Complete`, `complete_step_iff`, **`complete_iff_along`**: no update is lost at any time exactly
  if no store overwrites a value other than the one read;
* `Fresh`, `complete_iff_fresh`: the same in terms of the values themselves.
-/

namespace Rmw

/-- Where a party stands. -/
inductive Phase (M : Type)
  | idle
  | loaded (v : M)
  | added
  | copying (v : M)
  | done

namespace Phase

variable {M N : Type}

/-- The party has stored its update. -/
def hasAdded : Phase M → Bool
  | idle | loaded _ => false
  | added | copying _ | done => true

/-- The value the party has read and not yet stored. -/
def held : Phase M → Option M
  | loaded v | copying v => some v
  | _ => none

def map (g : M → N) : Phase M → Phase N
  | idle => idle
  | loaded v => loaded (g v)
  | added => added
  | copying v => copying (g v)
  | done => done

@[simp] theorem hasAdded_map (g : M → N) (p : Phase M) : (p.map g).hasAdded = p.hasAdded := by
  cases p <;> rfl

@[simp] theorem held_map (g : M → N) (p : Phase M) : (p.map g).held = p.held.map g := by
  cases p <;> rfl

end Phase

/-- **A cell and its parties.** -/
structure Cell (ι M : Type) where
  value : M
  phase : ι → Phase M

variable {ι M N : Type} [DecidableEq ι]

/-- One turn of party `i`: it reads, stores `f i` of what it read, reads again and stores that. -/
def step (f : ι → M → M) (c : Cell ι M) (i : ι) : Cell ι M :=
  match c.phase i with
  | .idle => { c with phase := Function.update c.phase i (.loaded c.value) }
  | .loaded v => ⟨f i v, Function.update c.phase i .added⟩
  | .added => { c with phase := Function.update c.phase i (.copying c.value) }
  | .copying v => ⟨v, Function.update c.phase i .done⟩
  | .done => c

def fresh (v : M) : Cell ι M := ⟨v, fun _ => .idle⟩

def run (f : ι → M → M) (v : M) (is : List ι) : Cell ι M := Run.run (step f) (fresh v) is

/-- The run in which each party appends itself to the list it read. -/
def traced (is : List ι) : Cell ι (List ι) := run (fun i l => l ++ [i]) [] is

theorem run_snoc (f : ι → M → M) (v : M) (is : List ι) (i : ι) :
    run f v (is ++ [i]) = step f (run f v is) i := Run.run_snoc _ _ _ _

theorem traced_snoc (is : List ι) (i : ι) :
    traced (is ++ [i]) = step (fun i l => l ++ [i]) (traced is) i := run_snoc _ _ _ _

section Step

variable {f : ι → M → M} {c : Cell ι M} {i : ι}

theorem step_of_idle (h : c.phase i = .idle) :
    step f c i = { c with phase := Function.update c.phase i (.loaded c.value) } := by
  rw [step, h]

theorem step_of_loaded {v : M} (h : c.phase i = .loaded v) :
    step f c i = ⟨f i v, Function.update c.phase i .added⟩ := by
  rw [step, h]

theorem step_of_added (h : c.phase i = .added) :
    step f c i = { c with phase := Function.update c.phase i (.copying c.value) } := by
  rw [step, h]

theorem step_of_copying {v : M} (h : c.phase i = .copying v) :
    step f c i = ⟨v, Function.update c.phase i .done⟩ := by
  rw [step, h]

theorem step_of_done (h : c.phase i = .done) : step f c i = c := by
  rw [step, h]

/-- A turn of one party leaves the others where they are. -/
theorem phase_step_of_ne {j : ι} (hij : j ≠ i) : (step f c i).phase j = c.phase j := by
  unfold step
  split
  · exact Function.update_of_ne hij ..
  · exact Function.update_of_ne hij ..
  · exact Function.update_of_ne hij ..
  · exact Function.update_of_ne hij ..
  · rfl

end Step

/-! ## What a value contains -/

/-- The updates of the parties in `l`, in order. -/
def applied (f : ι → M → M) (v : M) (l : List ι) : M := l.foldl (fun v i => f i v) v

omit [DecidableEq ι] in
theorem applied_snoc (f : ι → M → M) (v : M) (l : List ι) (i : ι) :
    applied f v (l ++ [i]) = f i (applied f v l) := by
  simp [applied]

/-- The cell with every value in it replaced. -/
def Cell.map (g : M → N) (c : Cell ι M) : Cell ι N := ⟨g c.value, fun i => (c.phase i).map g⟩

theorem Cell.map_update (g : M → N) (v : M) (phase : ι → Phase M) (i : ι) (p : Phase M) :
    Cell.map g ⟨v, Function.update phase i p⟩ =
      ⟨g v, Function.update (fun j => (phase j).map g) i (p.map g)⟩ :=
  congrArg (Cell.mk _) (funext fun j => Function.apply_update (fun _ => Phase.map g) phase i p j)

/-- **A turn commutes with a replacement of the values** that commutes with the updates. -/
theorem step_map {f : ι → M → M} {f' : ι → N → N} {g : M → N} (hg : ∀ i v, g (f i v) = f' i (g v))
    (c : Cell ι M) (i : ι) : step f' (c.map g) i = (step f c i).map g := by
  have hi : (c.map g).phase i = (c.phase i).map g := rfl
  cases hp : c.phase i <;> rw [hp] at hi
  · rw [step_of_idle hp, step_of_idle hi, Cell.map_update]
    rfl
  · rw [step_of_loaded hp, step_of_loaded hi, Cell.map_update, hg]
    rfl
  · rw [step_of_added hp, step_of_added hi, Cell.map_update]
    rfl
  · rw [step_of_copying hp, step_of_copying hi, Cell.map_update]
    rfl
  · rw [step_of_done hp, step_of_done hi]

/-- **Every value consists of the updates of its parties**, and so does what a party has read. -/
theorem run_eq_map (f : ι → M → M) (v : M) (is : List ι) :
    run f v is = (traced is).map (applied f v) := by
  induction is using List.reverseRecOn with
  | nil => rfl
  | append_singleton is i ih =>
    rw [run_snoc, traced_snoc, ih, step_map fun i l => applied_snoc f v l i]

/-! ## Lost updates -/

/-- The parties in `l` are distinct and have stored their updates. -/
def Stored (c : Cell ι (List ι)) (l : List ι) : Prop :=
  l.Nodup ∧ ∀ j ∈ l, (c.phase j).hasAdded = true

/-- **What holds of every traced run.** -/
structure Sane (c : Cell ι (List ι)) : Prop where
  value : Stored c c.value
  held : ∀ i l, (c.phase i).held = some l → Stored c l
  nonempty : ∀ i, (c.phase i).hasAdded = true → c.value ≠ []
  copying : ∀ i l, c.phase i = .copying l → l ≠ []

/-- No update is lost: the value contains every party that has stored its own. -/
def Complete (c : Cell ι (List ι)) : Prop := ∀ j, (c.phase j).hasAdded = true → j ∈ c.value

section Sane

variable {c : Cell ι (List ι)} {i : ι}

omit [DecidableEq ι] in
theorem Stored.notMem {l : List ι} (h : Stored c l) (hi : (c.phase i).hasAdded = false) :
    i ∉ l := by
  intro hc
  rw [h.2 i hc] at hi
  cases hi

/-- What a store has put in is not taken back. -/
theorem Stored.update {l : List ι} {v : List ι} {p : Phase (List ι)} (h : Stored c l)
    (hp : (c.phase i).hasAdded = true → p.hasAdded = true) :
    Stored ⟨v, Function.update c.phase i p⟩ l := by
  refine ⟨h.1, fun j hj => ?_⟩
  show (Function.update c.phase i p j).hasAdded = true
  by_cases hij : j = i
  · subst hij
    rw [Function.update_self]
    exact hp (h.2 j hj)
  · rw [Function.update_of_ne hij]
    exact h.2 j hj

/-- A turn in which party `i` moves on to `p`: only its new phase has to be looked at. -/
theorem Sane.update (h : Sane c) {v : List ι} {p : Phase (List ι)}
    (hadd : (c.phase i).hasAdded = true → p.hasAdded = true)
    (hv : Stored ⟨v, Function.update c.phase i p⟩ v) (hheld : ∀ l, p.held = some l → Stored c l)
    (hne : (∃ j, (c.phase j).hasAdded = true) ∨ p.hasAdded = true → v ≠ [])
    (hcopy : ∀ l, p = .copying l → l ≠ []) : Sane ⟨v, Function.update c.phase i p⟩ := by
  refine ⟨hv, fun j l hj => ?_, fun j hj => ?_, fun j l hj => ?_⟩
  · by_cases hij : j = i
    · subst hij
      exact (hheld l (by simpa using hj)).update hadd
    · exact (h.held j l (by simpa [hij] using hj)).update hadd
  · by_cases hij : j = i
    · subst hij
      exact hne (Or.inr (by simpa using hj))
    · exact hne (Or.inl ⟨j, by simpa [hij] using hj⟩)
  · by_cases hij : j = i
    · subst hij
      exact hcopy l (by simpa using hj)
    · exact h.copying j l (by simpa [hij] using hj)

/-- **A turn keeps a cell sane.** -/
theorem sane_step (h : Sane c) (i : ι) : Sane (step (fun i l => l ++ [i]) c i) := by
  cases hi : c.phase i with
  | idle =>
    rw [step_of_idle hi]
    have hadd : (c.phase i).hasAdded = true → (Phase.loaded c.value).hasAdded = true := by
      rw [hi]
      exact id
    refine h.update hadd (h.value.update hadd) ?_ ?_ (by simp)
    · rintro l hl
      cases hl
      exact h.value
    · rintro (⟨j, hj⟩ | hne)
      · exact h.nonempty j hj
      · cases hne
  | loaded l =>
    rw [step_of_loaded hi]
    have hl := h.held i l (by rw [hi]; rfl)
    have hmem : i ∉ l := hl.notMem (by rw [hi]; rfl)
    have hup : Stored ⟨l ++ [i], Function.update c.phase i .added⟩ l := hl.update fun _ => rfl
    refine h.update (fun _ => rfl) ⟨?_, fun j hj => ?_⟩ (by simp [Phase.held]) (by simp) (by simp)
    · exact hl.1.append (List.nodup_singleton i) (by simpa using hmem)
    · rcases List.mem_append.mp hj with hj | hj
      · exact hup.2 j hj
      · rw [List.mem_singleton.mp hj]
        simp [Phase.hasAdded]
  | added =>
    rw [step_of_added hi]
    have hne := h.nonempty i (by rw [hi]; rfl)
    refine h.update (fun _ => rfl) (h.value.update fun _ => rfl) ?_ (fun _ => hne) ?_
    · rintro l hl
      cases hl
      exact h.value
    · rintro l hl
      cases hl
      exact hne
  | copying l =>
    rw [step_of_copying hi]
    have hl := h.held i l (by rw [hi]; rfl)
    exact h.update (fun _ => rfl) (hl.update fun _ => rfl) (by simp [Phase.held])
      (fun _ => h.copying i l hi) (by simp)
  | done => rwa [step_of_done hi]

end Sane

theorem sane_traced (is : List ι) : Sane (traced is) := by
  refine Run.run_invariant (I := Sane) (step fun i l => l ++ [i]) (fun c i h => sane_step h i)
    ⟨?_, ?_, ?_, ?_⟩ is
  · exact ⟨List.nodup_nil, fun j hj => absurd hj List.not_mem_nil⟩
  · exact fun i l h => by cases h
  · exact fun i h => by cases h
  · exact fun i l h => by cases h

/-- A store of party `i` in this turn would overwrite a value as long as the one it read. -/
def Undisturbed (c : Cell ι (List ι)) (i : ι) : Prop :=
  ∀ l, (c.phase i).held = some l → l.length = c.value.length

section Complete

variable {c : Cell ι (List ι)} {i : ι}

omit [DecidableEq ι] in
/-- As long as nothing is lost, a value with all updates is one as long as the current value. -/
theorem Stored.all_mem_iff (h : Sane c) (hc : Complete c) {l : List ι} (hl : Stored c l) :
    (∀ j, (c.phase j).hasAdded = true → j ∈ l) ↔ l.length = c.value.length := by
  have hsub : l.Subperm c.value := List.subperm_of_subset hl.1 fun j hj => hc j (hl.2 j hj)
  constructor
  · intro hall
    have hsub' : c.value.Subperm l :=
      List.subperm_of_subset h.value.1 fun j hj => hall j (h.value.2 j hj)
    exact Nat.le_antisymm hsub.length_le hsub'.length_le
  · intro hlen j hj
    exact (hsub.perm_of_length_le (Nat.le_of_eq hlen.symm)).mem_iff.mpr (hc j hj)

/-- **One turn**: if nothing was lost before it, nothing is lost after it exactly if the party is
not disturbed. -/
theorem complete_step_iff (h : Sane c) (hc : Complete c) (i : ι) :
    Complete (step (fun i l => l ++ [i]) c i) ↔ Undisturbed c i := by
  have hother : ∀ j, j ≠ i → (((step (fun i l => l ++ [i]) c i).phase j).hasAdded = true ↔
      (c.phase j).hasAdded = true) := fun j hij => by rw [phase_step_of_ne hij]
  cases hi : c.phase i with
  | idle =>
    refine iff_of_true (fun j hj => ?_) fun l hl => by rw [hi] at hl; cases hl
    rw [step_of_idle hi] at hj ⊢
    by_cases hij : j = i
    · subst hij
      simp [Phase.hasAdded] at hj
    · exact hc j (by simpa [hij] using hj)
  | loaded l =>
    have hl := h.held i l (by rw [hi]; rfl)
    have hu : Undisturbed c i ↔ l.length = c.value.length := by
      simp [Undisturbed, hi, Phase.held]
    rw [hu, ← hl.all_mem_iff h hc]
    have hvalue : (step (fun i l => l ++ [i]) c i).value = l ++ [i] := by rw [step_of_loaded hi]
    refine ⟨fun hall j hj => ?_, fun hall j hj => ?_⟩
    · have hij : j ≠ i := by
        rintro rfl
        rw [hi] at hj
        cases hj
      have hmem := hall j ((hother j hij).mpr hj)
      rw [hvalue, List.mem_append, List.mem_singleton] at hmem
      exact hmem.resolve_right hij
    · rw [hvalue, List.mem_append, List.mem_singleton]
      by_cases hij : j = i
      · exact Or.inr hij
      · exact Or.inl (hall j ((hother j hij).mp hj))
  | added =>
    refine iff_of_true (fun j hj => ?_) fun l hl => by rw [hi] at hl; cases hl
    rw [step_of_added hi] at hj ⊢
    by_cases hij : j = i
    · subst hij
      exact hc j (by rw [hi]; rfl)
    · exact hc j (by simpa [hij] using hj)
  | copying l =>
    have hl := h.held i l (by rw [hi]; rfl)
    have hu : Undisturbed c i ↔ l.length = c.value.length := by
      simp [Undisturbed, hi, Phase.held]
    rw [hu, ← hl.all_mem_iff h hc]
    have hadded : ∀ j, ((step (fun i l => l ++ [i]) c i).phase j).hasAdded = true ↔
        (c.phase j).hasAdded = true := by
      intro j
      by_cases hij : j = i
      · subst hij
        simp [step_of_copying hi, hi, Phase.hasAdded]
      · exact hother j hij
    have hvalue : (step (fun i l => l ++ [i]) c i).value = l := by rw [step_of_copying hi]
    rw [Complete, hvalue]
    exact forall_congr' fun j => by rw [hadded]
  | done =>
    rw [step_of_done hi]
    exact iff_of_true hc fun l hl => by rw [hi] at hl; cases hl

end Complete

/-- **Nothing is lost at any time** of a run exactly if no store in it is disturbed. -/
theorem complete_iff_along (is : List ι) :
    (∀ js, js <+: is → Complete (traced js)) ↔
      Run.Along (step fun i l => l ++ [i]) Undisturbed (fresh ([] : List ι)) is := by
  induction is using List.reverseRecOn with
  | nil =>
    refine iff_of_true (fun js hjs j hj => ?_) trivial
    rw [List.prefix_nil.mp hjs] at hj
    cases hj
  | append_singleton is i ih =>
    rw [Run.forall_prefix_snoc, ih, Run.along_append]
    refine and_congr_right fun hal => ?_
    have hc := ih.mpr hal is (List.prefix_refl is)
    rw [traced_snoc, complete_step_iff (sane_traced is) hc]
    exact (and_iff_left trivial).symm

/-! ## Lost updates, by value -/

/-- A store of party `i` in this turn would overwrite the value it read. -/
def Fresh (c : Cell ι M) (i : ι) : Prop := ∀ v, (c.phase i).held = some v → v = c.value

section Value

variable {f : ι → M → M} {v : M}
  (hv : ∀ l l' : List ι, l.Nodup → l'.Nodup →
    (applied f v l = applied f v l' ↔ l.length = l'.length))

include hv

theorem fresh_iff_undisturbed (is : List ι) (i : ι) :
    Fresh (run f v is) i ↔ Undisturbed (traced is) i := by
  have hsane := sane_traced is
  rw [run_eq_map]
  simp only [Fresh, Undisturbed, Cell.map, Phase.held_map]
  cases hl : ((traced is).phase i).held with
  | none => exact iff_of_true (fun _ h => by cases h) (fun _ h => by cases h)
  | some l =>
    simp only [Option.map_some, Option.some.injEq, forall_eq']
    exact hv l _ (hsane.held i l hl).1 hsane.value.1

/-- **Nothing is lost at any time** exactly if every store overwrites the value that was read, for
updates whose number can be told from the value. -/
theorem complete_iff_fresh (is : List ι) :
    (∀ js, js <+: is → Complete (traced js)) ↔ Run.Along (step f) Fresh (fresh v) is := by
  rw [complete_iff_along]
  induction is using List.reverseRecOn with
  | nil => exact Iff.rfl
  | append_singleton is i ih =>
    rw [Run.along_append, Run.along_append, ih]
    refine and_congr_right fun _ => and_congr_left fun _ => ?_
    exact (fresh_iff_undisturbed hv is i).symm

end Value

end Rmw

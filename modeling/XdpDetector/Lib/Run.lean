import Mathlib.Data.List.Induction

/-!
# Runs of a step function

A run folds a step over a list of events. Invariants may speak of the events so far, so that they
can relate a state to its history.

* **`run_induction`**: a relation between history and state that holds initially and survives one
  more event holds along every run;
* `run_invariant`: the same for a predicate of the state alone;
* `run_filter`: events that change nothing can be left out;
* `field_run`: a field that events overwrite holds what the last of them wrote;
* `Along`, `along_invariant`, `along_induction`: runs whose every step meets a condition on the
  state before it;
* `actions`, `proj_run`, `along_actions`, `forall_prefix_actions`: runs seen through a projection.
-/

namespace Run

variable {S E : Type} (step : S → E → S)

def run (s : S) (es : List E) : S := es.foldl step s

@[simp] theorem run_nil (s : S) : run step s [] = s := rfl

theorem run_append (s : S) (es es' : List E) :
    run step s (es ++ es') = run step (run step s es) es' := List.foldl_append

theorem run_snoc (s : S) (es : List E) (e : E) :
    run step s (es ++ [e]) = step (run step s es) e := by
  rw [run_append]; rfl

/-- **Induction along a run**, over the events so far and the state they lead to. -/
theorem run_induction {P : List E → S → Prop} {s₀ : S} (h0 : P [] s₀)
    (hstep : ∀ es e, P es (run step s₀ es) → P (es ++ [e]) (step (run step s₀ es) e))
    (es : List E) : P es (run step s₀ es) := by
  induction es using List.reverseRecOn with
  | nil => exact h0
  | append_singleton es e ih => rw [run_snoc]; exact hstep es e ih

theorem run_invariant {I : S → Prop} (hstep : ∀ s e, I s → I (step s e)) {s₀ : S} (h0 : I s₀)
    (es : List E) : I (run step s₀ es) :=
  run_induction step h0 (fun es e h => hstep (run step s₀ es) e h) es

/-- Events that change nothing can be left out. -/
theorem run_filter {p : E → Bool} (h : ∀ s e, p e = false → step s e = s) (s : S) (es : List E) :
    run step s (es.filter p) = run step s es := by
  induction es using List.reverseRecOn with
  | nil => rfl
  | append_singleton es e ih =>
    rw [List.filter_append, run_append, ih, run_snoc]
    cases he : p e with
    | true => simp [he, run]
    | false => simp [he, h _ e he]

/-- **The last one wins**: a field that an event sets or keeps holds what was last set. -/
theorem field_run {A : Type} {get : S → A} {set? : E → Option A} {es : List E}
    (h : ∀ s, ∀ e ∈ es, get (step s e) = (set? e).getD (get s)) (s : S) :
    get (run step s es) = ((es.filterMap set?).getLast?).getD (get s) := by
  induction es using List.reverseRecOn with
  | nil => rfl
  | append_singleton es e ih =>
    have hes := ih fun s e he => h s e (List.mem_append_left _ he)
    rw [run_snoc, h _ e (by simp), hes, List.filterMap_append]
    cases he : set? e with
    | none => simp [he]
    | some a => simp [he]

/-- Every step of the run meets the condition `P`. -/
def Along (P : S → E → Prop) : S → List E → Prop
  | _, [] => True
  | s, e :: es => P s e ∧ Along P (step s e) es

theorem along_of_forall {P : S → E → Prop} {es : List E} (h : ∀ s, ∀ e ∈ es, P s e) (s : S) :
    Along step P s es := by
  induction es generalizing s with
  | nil => trivial
  | cons e es ih =>
    exact ⟨h s e List.mem_cons_self, ih (fun s e he => h s e (List.mem_cons_of_mem _ he)) _⟩

/-- An invariant that the step keeps under a condition holds along the runs that meet it. -/
theorem along_invariant {P : S → E → Prop} {I : S → Prop}
    (hstep : ∀ s e, P s e → I s → I (step s e)) {s : S} (h0 : I s) {es : List E}
    (hes : Along step P s es) : I (run step s es) := by
  induction es generalizing s with
  | nil => exact h0
  | cons e es ih => exact ih (hstep s e hes.1 h0) hes.2

theorem along_append {P : S → E → Prop} {s : S} {es es' : List E} :
    Along step P s (es ++ es') ↔ Along step P s es ∧ Along step P (run step s es) es' := by
  induction es generalizing s with
  | nil => exact (and_iff_right trivial).symm
  | cons e es ih =>
    show P s e ∧ Along step P (step s e) (es ++ es') ↔ _
    rw [ih, ← and_assoc]
    rfl

theorem along_prefix {P : S → E → Prop} {s : S} {es es' : List E} (h : es' <+: es)
    (hes : Along step P s es) : Along step P s es' := by
  obtain ⟨rest, rfl⟩ := h
  exact ((along_append step).mp hes).1

/-- **Induction along the runs that meet a condition**, over the events so far. -/
theorem along_induction {C : S → E → Prop} {P : List E → S → Prop} {s₀ : S} (h0 : P [] s₀)
    (hstep : ∀ es e, C (run step s₀ es) e → P es (run step s₀ es) →
      P (es ++ [e]) (step (run step s₀ es) e))
    {es : List E} (hes : Along step C s₀ es) : P es (run step s₀ es) := by
  induction es using List.reverseRecOn with
  | nil => exact h0
  | append_singleton es e ih =>
    obtain ⟨hes, he⟩ := (along_append step).mp hes
    rw [run_snoc]
    exact hstep es e he.1 (ih hes)

/-- A property of all prefixes, by the last event. -/
theorem forall_prefix_snoc {P : List E → Prop} {es : List E} {e : E} :
    (∀ js, js <+: es ++ [e] → P js) ↔ (∀ js, js <+: es → P js) ∧ P (es ++ [e]) := by
  simp only [List.prefix_concat_iff, or_imp, forall_and, forall_eq, and_comm]

/-! ## Projections -/

section Project

variable {S' E' : Type} (step' : S' → E' → S') (proj : S → S') (act : S → E → Option E')

/-- What a run looks like below: the steps that the lower system takes. -/
def actions : S → List E → List E'
  | _, [] => []
  | s, e :: es => (act s e).toList ++ actions (step s e) es

variable {act} in
theorem actions_snoc (s : S) (es : List E) (e : E) :
    actions step act s (es ++ [e]) =
      actions step act s es ++ (act (run step s es) e).toList := by
  induction es generalizing s with
  | nil => simp [actions]
  | cons e' es ih =>
    show (act s e').toList ++ actions step act (step s e') (es ++ [e]) = _
    rw [ih, ← List.append_assoc]
    rfl

variable {act} in
/-- The prefixes of what a run looks like below come from the prefixes of the run. -/
theorem forall_prefix_actions {P : List E' → Prop} (s : S) (es : List E) :
    (∀ js, js <+: es → P (actions step act s js)) ↔ ∀ js, js <+: actions step act s es → P js := by
  induction es using List.reverseRecOn with
  | nil => simp [actions]
  | append_singleton es e ih =>
    rw [forall_prefix_snoc, ih, actions_snoc]
    cases act (run step s es) e with
    | none =>
      rw [Option.toList_none, List.append_nil]
      exact and_iff_left_of_imp fun h => h _ (List.prefix_refl _)
    | some e' => exact forall_prefix_snoc.symm

variable {step'} {proj} {act} {I : S → Prop}
  (hI : ∀ s e, I s → I (step s e))
  (hproj : ∀ s e, I s → proj (step s e) = (act s e).elim (proj s) (step' (proj s)))

include hI hproj

/-- **A projected run** is the run of the projected steps. -/
theorem proj_run {s : S} (hs : I s) (es : List E) :
    proj (run step s es) = run step' (proj s) (actions step act s es) := by
  induction es generalizing s with
  | nil => rfl
  | cons e es ih =>
    show proj (run step (step s e) es) = _
    rw [ih (hI s e hs), actions, run_append, hproj s e hs]
    cases act s e <;> rfl

/-- A condition on the projected steps is one on the steps themselves. -/
theorem along_actions {P : S' → E' → Prop} {s : S} (hs : I s) (es : List E) :
    Along step' P (proj s) (actions step act s es) ↔
      Along step (fun s e => ∀ e', act s e = some e' → P (proj s) e') s es := by
  induction es generalizing s with
  | nil => rfl
  | cons e es ih =>
    have htail := ih (hI s e hs)
    rw [hproj s e hs] at htail
    show _ ↔ (∀ e', act s e = some e' → P (proj s) e') ∧ _
    rw [actions]
    cases h : act s e with
    | none =>
      rw [h] at htail
      simpa using htail
    | some e' =>
      rw [h] at htail
      refine (and_congr Iff.rfl htail).trans (and_congr_left fun _ => ?_)
      simp

end Project

end Run

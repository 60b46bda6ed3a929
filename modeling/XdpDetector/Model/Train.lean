import XdpDetector.Model.Labels

/-!
# Training a model

The end of `train_model.py`: a tree is fitted, and fitted again with coarser parameters as long as
it has too many nodes; whatever the last attempt gave is saved. The trainer has the limit of the
kernel in mind, the loader has its own.

* `TrainParams`, `paramsAt`: the parameters of each attempt;
* `attemptLoop`, `trainModel`: the loop and the model it saves;
* `trainModel_eq`: the attempt that is saved;
* **`label_of_trained_model`**: from the attempts to the labels.
-/

namespace XdpDetector

/-- The parameters of `DecisionTreeClassifier` that bound its size. -/
structure TrainParams where
  maxDepth : ℕ
  minSamplesSplit : ℕ
  minSamplesLeaf : ℕ
deriving DecidableEq

def initialParams : TrainParams := ⟨100, 2, 20⟩

/-- The parameters for the next attempt. -/
def TrainParams.coarser (p : TrainParams) : TrainParams :=
  { p with minSamplesSplit := p.minSamplesSplit * 2, minSamplesLeaf := p.minSamplesLeaf * 2 }

/-- `max_dt_nodes` of the trainer. -/
def trainerMaxDtNodes : ℕ := 5000

def trainAttempts : ℕ := 5

section Train

variable (fit : TrainParams → SkTree)

/-- The loop with `n` attempts left; it leaves `dt_model` and `candidate`. -/
def attemptLoop : ℕ → TrainParams → Option SkTree → Option SkTree × Option SkTree
  | 0, _, candidate => (none, candidate)
  | n + 1, params, _ =>
    let candidate := fit params
    if candidate.nodeCount ≤ trainerMaxDtNodes then (some candidate, some candidate)
    else attemptLoop n params.coarser (some candidate)

/-- The model that is saved: a candidate within the limit, else the last one. -/
def trainModel : SkModel :=
  let (dtModel, candidate) := attemptLoop fit trainAttempts initialParams none
  ⟨dtModel.or candidate⟩

/-- The parameters of attempt `i`. -/
def paramsAt (i : ℕ) : TrainParams := TrainParams.coarser^[i] initialParams

variable {fit}

theorem maxDepth_paramsAt (i : ℕ) : (paramsAt i).maxDepth = 100 := by
  induction i with
  | zero => rfl
  | succ i ih =>
    rw [paramsAt, Function.iterate_succ_apply']
    exact ih

variable (fit) in
/-- **The loop** keeps the first candidate within the limit, or ends with the last one. -/
theorem attemptLoop_spec (n : ℕ) (p : TrainParams) (c : Option SkTree) :
    ∃ i ≤ n, ((attemptLoop fit (n + 1) p c).1.or (attemptLoop fit (n + 1) p c).2) =
        some (fit (TrainParams.coarser^[i] p)) ∧
      (∀ j < i, trainerMaxDtNodes < (fit (TrainParams.coarser^[j] p)).nodeCount) ∧
      ((fit (TrainParams.coarser^[i] p)).nodeCount ≤ trainerMaxDtNodes ∨ i = n) := by
  induction n generalizing p c with
  | zero =>
    refine ⟨0, le_rfl, ?_, by simp, Or.inr rfl⟩
    rw [attemptLoop]
    split_ifs <;> rfl
  | succ n ih =>
    rw [attemptLoop]
    by_cases hfit : (fit p).nodeCount ≤ trainerMaxDtNodes
    · refine ⟨0, Nat.zero_le _, ?_, by simp, Or.inl hfit⟩
      rw [if_pos hfit]
      rfl
    · obtain ⟨i, hi, he, hbefore, hend⟩ := ih p.coarser (some (fit p))
      refine ⟨i + 1, Nat.succ_le_succ hi, ?_, ?_, ?_⟩
      · rw [if_neg hfit]
        exact he
      · intro j hj
        cases j with
        | zero => exact not_le.mp hfit
        | succ j => exact hbefore j (Nat.lt_of_succ_lt_succ hj)
      · exact hend.imp_right (congrArg Nat.succ)

variable (fit) in
theorem trainModel_eq : ∃ i < trainAttempts, trainModel fit = ⟨some (fit (paramsAt i))⟩ ∧
    (∀ j < i, trainerMaxDtNodes < (fit (paramsAt j)).nodeCount) ∧
    ((fit (paramsAt i)).nodeCount ≤ trainerMaxDtNodes ∨ i + 1 = trainAttempts) := by
  obtain ⟨i, hi, he, hbefore, hend⟩ := attemptLoop_spec fit 4 initialParams none
  refine ⟨i, Nat.lt_succ_of_le hi, ?_, hbefore, hend.imp_right (congrArg Nat.succ)⟩
  rw [trainModel]
  exact congrArg SkModel.mk he

end Train

/-- **From training to the label of a flow.** The trainer fits trees no deeper than it asks for. If
the loader accepts the model that was saved, it is the first attempt within the trainer's limit or
the last one; and after it is loaded, a flow with a later packet is labelled by it except when the
leaf is as deep as trees are allowed to be, or beyond the count. -/
theorem label_of_trained_model (fit : TrainParams → SkTree)
    (hfit : ∀ i v, (fit (paramsAt i)).exactDepth v ≤ (paramsAt i).maxDepth) (m : SkModel)
    (t : LoadedTree) (hload : loadDtModel (trainModel fit) = .ok (m, t)) (ht : t.Separating)
    (tree : DtTree maxDtNodes) (ac : Accounting) (behind : List UInt8) (es₁ es₂ : List Event)
    (hes₂ : ∀ e ∈ es₂, e.input?.isSome) (k : FlowKey) (hk : history k es₂ ≠ []) (dp : DataPoint)
    (h : (run (start tree ac) (es₁ ++ .reload (updateBpfMap t behind) :: es₂)).entry k =
      some dp) :
    (∃ i < trainAttempts, t.toSkTree = fit (paramsAt i) ∧
      ∀ j < i, trainerMaxDtNodes < (fit (paramsAt j)).nodeCount) ∧
    dp.label =
      if t.exactDepth (flowVector (history k (es₁ ++ es₂))) = maxDtDepth ∨
          countBehind behind ≤ t.exactLeaf (flowVector (history k (es₁ ++ es₂))) then 0
      else Int32.ofNat (t.exactClass (flowVector (history k (es₁ ++ es₂)))) := by
  obtain ⟨i, hi, hsaved, hbefore, -⟩ := trainModel_eq fit
  have htree : t.toSkTree = fit (paramsAt i) := by
    have hsome := (loadDtModel_eq_ok.mp hload).2
    rw [hsaved] at hsome
    exact (Option.some.inj hsome).symm
  refine ⟨⟨i, hi, htree, hbefore⟩, ?_⟩
  obtain ⟨hsum, hf, hlabel⟩ := row_after_reload hes₂ hk h
  set v := flowVector (history k (es₁ ++ es₂))
  have hdepth : t.exactDepth v ≤ maxDtDepth := by
    have := hfit i v
    rwa [← htree, maxDepth_paramsAt] at this
  have hreach : t.Reached (countBehind behind) v ↔
      ¬ (t.exactDepth v = maxDtDepth ∨ countBehind behind ≤ t.exactLeaf v) := by
    rw [SkTree.Reached]
    omega
  rw [hlabel, predictDt_eq_answer ht behind hsum hf, SkTree.answer]
  by_cases hr : t.Reached (countBehind behind) v
  · rw [if_pos hr, if_neg (hreach.mp hr)]
  · rw [if_neg hr, if_pos (not_not.mp fun hc => hr (hreach.mpr hc))]

/-- A trainer that finds the chain with one split at its first attempt. -/
def chainFit (_ : TrainParams) : SkTree := chain 1

theorem label_of_trained_model_chain :
    ∃ dp, (run zeroMaps [.reload (updateBpfMap (loadedChain (n := 1) (by decide)) countThree),
        .packet (datagramAt 3000)]).entry (udpKey 0) = some dp ∧ dp.label = 1 := by
  set t := loadedChain (n := 1) (by decide)
  have hp := history_datagramAt 3000
  have hv : 1 ≤ flowVector [⟨3000, 42⟩] featureTotalFwdPacket := by decide
  obtain ⟨dp, he⟩ := entry_after_reload (updateBpfMap t countThree) 3000
  have hdepth : ∀ i v, (chainFit (paramsAt i)).exactDepth v ≤ (paramsAt i).maxDepth := by
    intro i v
    rw [maxDepth_paramsAt]
    exact (Descent.depth_le_rank _).trans (show (3 : ℕ) - 0 ≤ 100 by decide)
  have hload : loadDtModel (trainModel chainFit) = .ok (⟨some (chain 1)⟩, t) :=
    loadDtModel_eq_ok.mpr ⟨rfl, rfl⟩
  obtain ⟨-, hlabel⟩ := label_of_trained_model chainFit hdepth _ t hload
    (separating_chain (by decide)) (DtTree.zero maxDtNodes) Accounting.zero countThree []
    [.packet (datagramAt 3000)] (by simp [Event.input?]) (udpKey 0) (by simp [hp]) dp he
  refine ⟨dp, he, hlabel.trans ?_⟩
  rw [List.nil_append, hp, countBehind_countThree]
  change (if (chain 1).exactDepth _ = maxDtDepth ∨ 3 ≤ ((chain 1).exactLeaf _ : ℕ) then 0
    else Int32.ofNat ((chain 1).exactClass _)) = 1
  rw [(exactLeaf_chain hv).1, (exactLeaf_chain hv).2, exactClass_chain hv]
  decide

end XdpDetector

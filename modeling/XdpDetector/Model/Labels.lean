import XdpDetector.Flow.Features
import XdpDetector.Flow.Reload
import XdpDetector.Flow.Rows
import XdpDetector.Model.Layout
import Mathlib.Tactic.FinCases

/-!
# From a trained tree to the labels

The whole way of a model: trained tree, node array, byte image, map value, walk of the kernel, label
of a flow. Its end is compared with the trained tree itself, walked with exact comparisons on
integers computed from the packets.

* `SkTree.nextExact`, `SkTree.exactDepth`, `SkTree.exactLeaf`: the trained tree on integer features;
* `SkTree.Reached`, `SkTree.answer`: what arrives of its answers;
* `Separating`: the thresholds that no rounding moves across an integer;
* `countBehind`, **`predictDt_updateBpfMap`**: the kernel on what the loader left in the map;
* `flowVector`, `decode_eq_flowVector`: the features of a list of packets;
* **`label_of_trained_tree`**: the label of every flow, along every run.
-/

namespace XdpDetector

open ByteFmt Series

/-! ## The kernel on the image -/

/-- The count the kernel finds behind the structure of the loader. -/
def countBehind (behind : List UInt8) : ℕ := ofLe ((behind.drop 140696).take 4)

theorem countBehind_lt (behind : List UInt8) : countBehind behind < 2 ^ 32 := by
  have h := ofLe_lt ((behind.drop 140696).take 4)
  have hp : 256 ^ ((behind.drop 140696).take 4).length ≤ 256 ^ 4 :=
    Nat.pow_le_pow_right (by norm_num) (List.length_take_le _ _)
  unfold countBehind
  omega

section Loop

variable {t : LoadedTree} {features : Fin maxFeatures → Fixed} {tree : DtTree maxDtNodes}
  (hnode : ∀ i : Fin t.nodeCount, tree.node i = convertNode t.toSkTree i)

theorem le_last (i : Fin t.nodeCount) : i ≤ (t.descent features).last i :=
  Descent.rel_last le_refl (fun h hle => (SkTree.lt_of_next h).le.trans hle) i

include hnode

/-- **The loop on an array that starts with the nodes of the tree**: the walk of the tree, cut off
at the length of the loop and at `num_nodes`. -/
theorem predictLoop_value (n : ℕ) (i : Fin t.nodeCount) :
    (predictLoop features tree n (UInt32.ofNat i)).value =
      if (t.descent features).depth i < n ∧
          ((t.descent features).last i : ℕ) < tree.numNodes.toNat then
        Int32.ofNat (t.classLabel ((t.descent features).last i))
      else 0 := by
  have hcap := t.fits
  unfold loaderMaxDtNodes at hcap
  induction n generalizing i with
  | zero => simp [predictLoop, Exit.value]
  | succ n ih =>
    have hi : (UInt32.ofNat i).toNat = i := by
      rw [UInt32.toNat_ofNat']
      omega
    have hm : (UInt32.ofNat i).toNat < maxDtNodes := by
      unfold maxDtNodes
      omega
    have hnode' : tree.node (UInt32.ofNat i).toNat = convertNode t.toSkTree i := by
      rw [hi, hnode]
    by_cases hlt : UInt32.ofNat i < tree.numNodes
    · have hlt' : (i : ℕ) < tree.numNodes.toNat := by
        rwa [UInt32.lt_iff_toNat_lt, hi] at hlt
      cases hn : t.next features i with
      | none =>
        obtain ⟨hl, hlabel⟩ := convertNode_of_leaf hn
        have hd : (t.descent features).depth i = 0 := Descent.depth_of_none hn
        have hlast : (t.descent features).last i = i := Descent.last_of_none hn
        rw [predictLoop_of_leaf hlt hm (by rw [hnode']; exact hl), hnode', hlabel, hd, hlast,
          if_pos ⟨Nat.succ_pos n, hlt'⟩]
        rfl
      | some j =>
        have hd : (t.descent features).depth i = (t.descent features).depth j + 1 :=
          Descent.depth_of_some hn
        have hlast : (t.descent features).last i = (t.descent features).last j :=
          Descent.last_of_some hn
        have hvisit : visitNode features (tree.node (UInt32.ofNat i).toNat) =
            .ok (UInt32.ofNat j) := by
          rw [hnode']
          exact visitNode_convertNode hn
        rw [predictLoop_of_child hlt hm hvisit, ih, hd, hlast]
        simp only [Nat.add_lt_add_iff_right]
    · -- the walk only moves to larger indices
      have hout : UInt32.ofNat i ≥ tree.numNodes := UInt32.not_lt.mp hlt
      have hle : (i : ℕ) ≤ (t.descent features).last i := le_last (t := t) i
      rw [predictLoop, if_pos (Or.inl hout), if_neg]
      · rfl
      · rintro ⟨-, hc⟩
        rw [UInt32.lt_iff_toNat_lt, hi] at hlt
        omega

end Loop

/-- **The kernel on what the loader left in the map**: the leaf of the trained tree counts if the
loop gets there and its index is below the count found behind the structure. -/
theorem predictDt_updateBpfMap (t : LoadedTree) (behind : List UInt8) (dp : DataPoint) :
    predictDt dp (some (updateBpfMap t behind)) =
      if t.leafDepth dp.features < maxDtDepth ∧ (t.leaf dp.features : ℕ) < countBehind behind then
        Int32.ofNat (t.classLabel (t.leaf dp.features))
      else 0 := by
  have hcount : (updateBpfMap t behind).numNodes.toNat = countBehind behind := by
    rw [numNodes_updateBpfMap, UInt32.toNat_ofNat']
    exact Nat.mod_eq_of_lt (countBehind_lt behind)
  have hroot : (0 : UInt32) = UInt32.ofNat t.root := rfl
  rw [predictDt, predictExit]
  split_ifs with h0 h1 h1
  · rw [h0] at hcount
    exact absurd h1.2 (by rw [← hcount]; exact Nat.not_lt_zero _)
  · rfl
  · rw [hroot, predictLoop_value (node_updateBpfMap t behind), hcount]
    exact if_pos h1
  · rw [hroot, predictLoop_value (node_updateBpfMap t behind), hcount]
    exact if_neg h1

/-! ## Exact comparisons -/

namespace SkTree

variable (t : SkTree)

/-- The node after `i` for integer features, compared with the threshold as it was trained. -/
def nextExact (v : Fin maxFeatures → ℕ) (i : Fin t.nodeCount) : Option (Fin t.nodeCount) :=
  if h : t.childrenLeft i = t.childrenRight i then none
  else if (v (t.featureIndex i h) : ℚ) ≤ t.threshold i then some (t.leftChild i h)
  else some (t.rightChild i h)

variable {t} in
theorem lt_of_nextExact {v : Fin maxFeatures → ℕ} {i j : Fin t.nodeCount}
    (h : t.nextExact v i = some j) : i < j := by
  unfold nextExact at h
  split_ifs at h with hl hf
  · cases h
    have := (t.left_inRange i hl).1
    simp only [leftChild, Fin.lt_def]
    omega
  · cases h
    have := (t.right_inRange i hl).1
    simp only [rightChild, Fin.lt_def]
    omega

variable {t} in
theorem rank_nextExact {v : Fin maxFeatures → ℕ} {i j : Fin t.nodeCount}
    (h : t.nextExact v i = some j) : t.nodeCount - (j : ℕ) < t.nodeCount - (i : ℕ) := by
  have hlt := lt_of_nextExact h
  rw [Fin.lt_def] at hlt
  omega

def exactDescent (v : Fin maxFeatures → ℕ) : Descent (Fin t.nodeCount) where
  next := t.nextExact v
  rank i := t.nodeCount - i
  rank_lt := rank_nextExact

def exactDepth (v : Fin maxFeatures → ℕ) : ℕ := (t.exactDescent v).depth t.root

def exactLeaf (v : Fin maxFeatures → ℕ) : Fin t.nodeCount := (t.exactDescent v).last t.root

/-- The class of the leaf. -/
def exactClass (v : Fin maxFeatures → ℕ) : ℕ := t.classLabel (t.exactLeaf v)

/-- The leaf is less than `MAX_DT_DEPTH` edges away, and its index is below `count`. -/
def Reached (count : ℕ) (v : Fin maxFeatures → ℕ) : Prop :=
  t.exactDepth v < maxDtDepth ∧ (t.exactLeaf v : ℕ) < count

instance (count : ℕ) (v : Fin maxFeatures → ℕ) : Decidable (t.Reached count v) :=
  inferInstanceAs (Decidable (_ ∧ _))

/-- **The answer of the trained tree** as far as it reaches a flow. -/
def answer (count : ℕ) (v : Fin maxFeatures → ℕ) : Int32 :=
  if t.Reached count v then Int32.ofNat (t.exactClass v) else 0

/-- No threshold is negative, in the last half digit below an integer, or out of range. -/
def Separating : Prop :=
  ∀ i, t.childrenLeft i ≠ t.childrenRight i →
    0 ≤ t.threshold i ∧ t.threshold i < 2 ^ 48 - halfUlp ∧
      ∀ n : ℕ, (n : ℚ) - halfUlp ≤ t.threshold i → (n : ℚ) ≤ t.threshold i

end SkTree

theorem fixed_le_iff_of_separating {t : SkTree} (ht : t.Separating) {i : Fin t.nodeCount}
    (hi : t.childrenLeft i ≠ t.childrenRight i) {v : UInt64} (hv : v.toNat < 2 ^ 48) :
    fixedFromUint v ≤ fixedFromFloat (t.threshold i) ↔ (v.toNat : ℚ) ≤ t.threshold i := by
  obtain ⟨h0, hlt, hsep⟩ := ht i hi
  rw [fixed_le_iff hv h0, wrapped_of_lt h0 hlt]
  refine ⟨hsep v.toNat, fun h => ?_⟩
  unfold halfUlp
  linarith

/-- **The walk on fixed-point features is the exact walk** on the integers they hold. -/
theorem descent_eq_exact {t : SkTree} (ht : t.Separating) (u : Fin maxFeatures → UInt64)
    (hu : ∀ i, (u i).toNat < 2 ^ 48) :
    t.descent (fun i => fixedFromUint (u i)) = t.exactDescent fun i => (u i).toNat := by
  have hnext : t.next (fun i => fixedFromUint (u i)) = t.nextExact fun i => (u i).toNat := by
    funext i
    unfold SkTree.next SkTree.nextExact
    split_ifs with hl hf hf'
    · rfl
    · rfl
    · exact absurd ((fixed_le_iff_of_separating ht hl (hu _)).mp hf) hf'
    · exact absurd ((fixed_le_iff_of_separating ht hl (hu _)).mpr ‹_›) hf
    · rfl
  unfold SkTree.descent SkTree.exactDescent
  simp only [hnext]

/-! ## The features of a list of packets -/

/-- The time from the first to the last packet in nanoseconds, as a 64-bit difference. -/
def spanNs (ps : List Pkt) : ℕ :=
  ((((timestamps ps).getLast?.getD 0 : ℕ) - ((timestamps ps).head?.getD 0 : ℕ) : ℤ) % 2 ^ 64).toNat

/-- **The six features of a flow**, from its packets. -/
def flowVector (ps : List Pkt) : Fin maxFeatures → ℕ :=
  ![spanNs ps / 1000 % 2 ^ 48,
    ps.length % 2 ^ 32,
    byteSum ps % 2 ^ 32,
    (lengths ps).max?.getD 0,
    (lengths ps).min?.getD 0,
    (gaps (timestamps ps)).min?.getD 0 / 1000 % 2 ^ 48]

theorem toNat_fixedToUint_fixedFromUint (v : UInt64) :
    (fixedToUint (fixedFromUint v)).toNat = v.toNat % 2 ^ 48 := by
  have h : (fixedToUint (fixedFromUint v)).toNat = v.toNat * fixedScale % 2 ^ 64 / 65536 := by
    rw [fixedToUint, UInt64.toNat_shiftRight, toNat_fixedFromUint]
    simp [fixedShift, Nat.shiftRight_eq_div_pow]
  rw [h]
  unfold fixedScale
  omega

/-- A feature is the fixed-point image of the integer it decodes to. -/
theorem fixedFromUint_fixedToUint (v : UInt64) :
    fixedFromUint (fixedToUint (fixedFromUint v)) = fixedFromUint v := by
  apply UInt64.toNat_inj.mp
  rw [toNat_fixedFromUint, toNat_fixedFromUint, toNat_fixedToUint_fixedFromUint]
  unfold fixedScale
  omega

theorem computeFeatures_eq (dp : DataPoint) :
    computeFeatures dp = fun i => fixedFromUint (fixedToUint (computeFeatures dp i)) := by
  funext i
  fin_cases i
  all_goals exact (fixedFromUint_fixedToUint _).symm

section Vector

variable {dp : DataPoint} {ps : List Pkt}

theorem toNat_durationUs_spanNs (h : Summarizes dp ps) :
    (durationUs dp).toNat = spanNs ps / 1000 := by
  have h1 := dp.startTs.toNat_lt
  rw [durationUs, UInt64.toNat_div, UInt64.toNat_sub, spanNs, h.startTs, h.lastSeen]
  show _ / 1000 = (((dp.lastSeen.toNat : ℤ) - dp.startTs.toNat) % 2 ^ 64).toNat / 1000
  congr 1
  omega

theorem timestamps_lt (ps : List Pkt) : ∀ x ∈ timestamps ps, x ≤ 2 ^ 64 - 1 := by
  intro x hx
  obtain ⟨p, -, rfl⟩ := List.mem_map.mp hx
  have := p.ts.toNat_lt
  omega

theorem toNat_iatUs (h : Summarizes dp ps) :
    (iatUs dp).toNat = (gaps (timestamps ps)).min?.getD 0 / 1000 := by
  have hm := h.minIAT
  cases hg : (gaps (timestamps ps)).min? with
  | none =>
    rw [hg] at hm
    have hn : dp.minIAT = noIAT := UInt64.toNat_inj.mp hm
    rw [iatUs, if_neg (not_not.mpr hn)]
    rfl
  | some g =>
    -- no gap between two 64-bit timestamps is as large as the sentinel
    have hlt := lt_of_mem_gaps (timestamps_lt ps) (List.min?_eq_some_iff.mp hg).1
    rw [hg, Option.getD_some] at hm
    have hn : dp.minIAT ≠ noIAT := by
      intro hc
      rw [hc] at hm
      have : noIAT.toNat = 2 ^ 64 - 1 := rfl
      omega
    rw [iatUs, if_pos hn, UInt64.toNat_div, hm]
    rfl

theorem decode_duration_spanNs (h : Summarizes dp ps) (hf : dp.features = computeFeatures dp) :
    decode dp featureFlowDuration = spanNs ps / 1000 % 2 ^ 48 := by
  rw [← toNat_durationUs_spanNs h, decode, hf]
  exact toNat_fixedToUint_fixedFromUint (durationUs dp)

theorem decode_iat_gaps (h : Summarizes dp ps) (hf : dp.features = computeFeatures dp) :
    decode dp featureFwdIatMin = (gaps (timestamps ps)).min?.getD 0 / 1000 % 2 ^ 48 := by
  rw [← toNat_iatUs h, decode, hf]
  exact toNat_fixedToUint_fixedFromUint (iatUs dp)

/-- **The features of an entry are those of its packets.** -/
theorem decode_eq_flowVector (h : Summarizes dp ps) (hf : dp.features = computeFeatures dp) :
    decode dp = flowVector ps := by
  have hcase : ∀ i : Fin maxFeatures, i = featureFlowDuration ∨ i = featureTotalFwdPacket ∨
      i = featureTotalLengthOfFwdPacket ∨ i = featureFwdPacketLengthMax ∨
      i = featureFwdPacketLengthMin ∨ i = featureFwdIatMin := by decide
  funext i
  rcases hcase i with rfl | rfl | rfl | rfl | rfl | rfl
  · rw [decode_duration_spanNs h hf]
    simp only [flowVector, featureFlowDuration, Matrix.cons_val]
  · rw [decode_pkts hf, h.totalPkts]
    simp only [flowVector, featureTotalFwdPacket, Matrix.cons_val]
  · rw [decode_bytes hf, h.totalBytes]
    simp only [flowVector, featureTotalLengthOfFwdPacket, Matrix.cons_val]
  · rw [decode_max hf]
    simp only [flowVector, featureFwdPacketLengthMax, Matrix.cons_val, h.maxPktLen,
      Option.getD_some]
  · rw [decode_min hf]
    simp only [flowVector, featureFwdPacketLengthMin, Matrix.cons_val, h.minPktLen,
      Option.getD_some]
  · rw [decode_iat_gaps h hf]
    simp only [flowVector, featureFwdIatMin, Matrix.cons_val]

theorem decode_lt (dp : DataPoint) (i : Fin maxFeatures) : decode dp i < 2 ^ 48 := by
  have := (dp.features i).toNat_lt
  have h : decode dp i = (dp.features i).toNat / 65536 := by
    rw [decode, fixedToUint, UInt64.toNat_shiftRight]
    simp [fixedShift, Nat.shiftRight_eq_div_pow]
  omega

/-- **The kernel answers for a flow** as the trained tree does on its packets, as far as loop and
image allow. -/
theorem predictDt_eq_answer {t : LoadedTree} (ht : t.Separating) (behind : List UInt8)
    (h : Summarizes dp ps) (hf : dp.features = computeFeatures dp) :
    predictDt dp (some (updateBpfMap t behind)) =
      t.answer (countBehind behind) (flowVector ps) := by
  have hd := descent_eq_exact ht (fun i => fixedToUint (dp.features i)) (decode_lt dp)
  have hfeat : (fun i => fixedFromUint (fixedToUint (dp.features i))) = dp.features := by
    rw [hf]
    exact (computeFeatures_eq dp).symm
  have hv : (fun i => (fixedToUint (dp.features i)).toNat) = flowVector ps :=
    decode_eq_flowVector h hf
  rw [hfeat, hv] at hd
  have hdepth : t.leafDepth dp.features = t.exactDepth (flowVector ps) := by
    rw [SkTree.leafDepth, hd]
    rfl
  have hleaf : t.leaf dp.features = t.exactLeaf (flowVector ps) := by
    rw [SkTree.leaf, hd]
    rfl
  rw [predictDt_updateBpfMap, hdepth, hleaf]
  rfl

end Vector

/-! ## Along a run -/

theorem tree_run_packets (s : Maps) {es : List Event} (h : ∀ e ∈ es, e.input?.isSome) :
    (run s es).tree = s.tree := by
  induction es using List.reverseRecOn with
  | nil => rfl
  | append_singleton es e ih =>
    rw [run_snoc]
    cases e with
    | reload tree => exact absurd (h (.reload tree) (by simp)) (by simp [Event.input?])
    | packet x =>
      rw [step_dtMap_packet]
      exact ih fun e he => h e (by simp [he])

/-- The row of a flow that has had a packet since the latest replacement of the tree is labelled by
the new tree. -/
theorem RowOf.label_of_reload {s : Maps} {k : FlowKey} {tree : DtTree maxDtNodes}
    {es₁ es₂ : List Event} {dp : DataPoint} (h : RowOf s k (es₁ ++ .reload tree :: es₂) dp)
    (hes₂ : ∀ e ∈ es₂, e.input?.isSome) (hk : history k es₂ ≠ []) :
    dp.label = predictDt dp (some tree) := by
  obtain ⟨-, es₁', x, es₂', hsplit, -, hnil, hlabel⟩ := h
  rw [hlabel]
  congr 2
  rcases List.append_eq_append_iff.mp hsplit with ⟨c, hc, hc'⟩ | ⟨c, hc, hc'⟩
  · cases c with
    | nil => cases hc'
    | cons e c =>
      obtain ⟨rfl, hes⟩ := List.cons.inj hc'
      rw [hc, run, Run.run_append]
      refine tree_run_packets (step (run s es₁) (.reload tree)) fun e he => ?_
      exact hes₂ e (by rw [hes]; exact List.mem_append_left _ he)
  · -- the latest packet of the flow would come before the model
    cases c with
    | nil => cases hc'
    | cons e c =>
      obtain ⟨-, hes⟩ := List.cons.inj hc'
      rw [show es₂' = c ++ .reload tree :: es₂ from hes, history_append] at hnil
      exact absurd (List.append_eq_nil_iff.mp hnil).2 hk

/-- **The row of a flow** that has had a packet since the tree was replaced. -/
theorem row_after_reload {tree new : DtTree maxDtNodes} {ac : Accounting} {es₁ es₂ : List Event}
    (hes₂ : ∀ e ∈ es₂, e.input?.isSome) {k : FlowKey} (hk : history k es₂ ≠ []) {dp : DataPoint}
    (h : (run (start tree ac) (es₁ ++ .reload new :: es₂)).entry k = some dp) :
    Summarizes dp (history k (es₁ ++ es₂)) ∧ dp.features = computeFeatures dp ∧
      dp.label = predictDt dp (some new) := by
  have hsum := (tracks_run tree ac _).present k dp h
  have hrow := rowOf_run tree ac k _ dp h
  have hhist : history k (es₁ ++ .reload new :: es₂) = history k (es₁ ++ es₂) := by
    rw [history_append, history_append]
    rfl
  rw [hhist] at hsum
  exact ⟨hsum, hrow.1, hrow.label_of_reload hes₂ hk⟩

/-- **The label of every flow.** A model is loaded at any time in any run, and the flow has had a
packet since: its label is the answer of the trained tree on the packets of the flow. -/
theorem label_of_trained_tree (tree : DtTree maxDtNodes) (ac : Accounting) (t : LoadedTree)
    (ht : t.Separating) (behind : List UInt8) (es₁ es₂ : List Event)
    (hes₂ : ∀ e ∈ es₂, e.input?.isSome) (k : FlowKey) (hk : history k es₂ ≠ []) (dp : DataPoint)
    (h : (run (start tree ac) (es₁ ++ .reload (updateBpfMap t behind) :: es₂)).entry k =
      some dp) :
    dp.label = t.answer (countBehind behind) (flowVector (history k (es₁ ++ es₂))) := by
  obtain ⟨hsum, hf, hlabel⟩ := row_after_reload hes₂ hk h
  rw [hlabel]
  exact predictDt_eq_answer ht behind hsum hf

/-! ## A model in use -/

theorem separating_chain {n : ℕ} (hn : n ≤ 2 ^ 40) : (chain n).Separating := by
  intro i hi
  have hin : (i : ℕ) % 2 = 0 ∧ (i : ℕ) < 2 * n := by
    by_contra hc
    exact hi (by simp [chain, hc])
  obtain ⟨j, hj⟩ : ∃ j, (i : ℕ) = 2 * j := ⟨i / 2, by omega⟩
  have ht : (chain n).threshold i = j + 1 / 2 := by
    simp only [chain, hj]
    push_cast
    ring
  have hjn : (j : ℚ) + 1 ≤ 2 ^ 40 := by
    have : j + 1 ≤ 2 ^ 40 := by omega
    exact_mod_cast this
  rw [ht]
  unfold halfUlp
  refine ⟨by positivity, by linarith, fun m hm => ?_⟩
  have hlt : (m : ℚ) < (j + 1 : ℕ) := by
    push_cast
    linarith
  have hle : (m : ℚ) ≤ j := by
    have : m ≤ j := Nat.lt_succ_iff.mp (by exact_mod_cast hlt)
    exact_mod_cast this
  linarith

/-- Every flow walks the chain with one split to its end. -/
theorem exactLeaf_chain {v : Fin maxFeatures → ℕ} (hv : 1 ≤ v featureTotalFwdPacket) :
    (chain 1).exactDepth v = 1 ∧ (chain 1).exactLeaf v = chainNode le_rfl := by
  have h1 : (1 : ℚ) ≤ v featureTotalFwdPacket := by exact_mod_cast hv
  have hne : (chain 1).childrenLeft (chain 1).root ≠ (chain 1).childrenRight (chain 1).root := by
    decide
  have hfeat : (chain 1).featureIndex (chain 1).root hne = featureTotalFwdPacket := rfl
  have ht : (chain 1).threshold (chain 1).root = 1 / 2 := by
    simp [chain, SkTree.root]
  have hnext : (chain 1).nextExact v (chain 1).root = some (chainNode le_rfl) := by
    rw [SkTree.nextExact, dif_neg hne, hfeat, ht, if_neg (by linarith)]
    rfl
  have hlast : (chain 1).nextExact v (chainNode le_rfl) = none := dif_pos rfl
  constructor
  · rw [SkTree.exactDepth, Descent.depth_of_some hnext, Descent.depth_of_none hlast]
  · rw [SkTree.exactLeaf, Descent.last_of_some hnext, Descent.last_of_none hlast]

theorem exactClass_chain {v : Fin maxFeatures → ℕ} (hv : 1 ≤ v featureTotalFwdPacket) :
    (chain 1).exactClass v = 1 := by
  rw [SkTree.exactClass, (exactLeaf_chain hv).2, chain_classLabel]

theorem answer_chain {v : Fin maxFeatures → ℕ} (hv : 1 ≤ v featureTotalFwdPacket) {count : ℕ}
    (hc : 3 ≤ count) : (chain 1).answer count v = 1 := by
  have hr : (chain 1).Reached count v := by
    rw [SkTree.Reached, (exactLeaf_chain hv).1, (exactLeaf_chain hv).2]
    exact ⟨by decide, hc⟩
  rw [SkTree.answer, if_pos hr, exactClass_chain hv]
  rfl

/-- Memory behind the structure in which the kernel finds the count `3`. -/
def countThree : List UInt8 := List.replicate 140696 0 ++ (leBytes 4 3 ++ List.replicate 100 0)

theorem countBehind_countThree : countBehind countThree = 3 := by
  rw [countBehind, countThree, List.drop_left' (by rw [List.length_replicate]),
    List.take_left' (length_leBytes 4 3), ofLe_leBytes]
  rfl

theorem pkt?_datagramAt (ts : UInt64) :
    (Event.packet (datagramAt ts)).pkt? (udpKey 0) = some ⟨ts, 42⟩ := by
  rw [Event.pkt?_packet (flowKey?_datagramAt ts), datagramAt, length_udpFrame]
  rfl

theorem history_datagramAt (ts : UInt64) :
    history (udpKey 0) [.packet (datagramAt ts)] = [⟨ts, 42⟩] := by
  simp [history, pkt?_datagramAt]

/-- The first datagram after a tree was loaded makes a row. -/
theorem entry_after_reload (new : DtTree maxDtNodes) (ts : UInt64) :
    ∃ dp, (run zeroMaps [.reload new, .packet (datagramAt ts)]).entry (udpKey 0) = some dp := by
  exact ⟨_, lookup_step_of_pkt (s := step zeroMaps (.reload new)) (pkt?_datagramAt ts)
    (Or.inr (by decide : (0 : ℕ) < maxFlowSaved))⟩

theorem label_of_trained_chain :
    ∃ dp, (run zeroMaps [.reload (updateBpfMap (loadedChain (n := 1) (by decide)) countThree),
        .packet (datagramAt 3000)]).entry (udpKey 0) = some dp ∧ dp.label = 1 := by
  set t := loadedChain (n := 1) (by decide)
  have hp := history_datagramAt 3000
  obtain ⟨dp, he⟩ := entry_after_reload (updateBpfMap t countThree) 3000
  have hlabel := label_of_trained_tree (DtTree.zero maxDtNodes) Accounting.zero t
    (separating_chain (by decide)) countThree [] [.packet (datagramAt 3000)]
    (by simp [Event.input?]) (udpKey 0) (by simp [hp]) dp he
  refine ⟨dp, he, hlabel.trans ?_⟩
  rw [countBehind_countThree]
  refine answer_chain ?_ le_rfl
  rw [List.nil_append, hp]
  decide

end XdpDetector

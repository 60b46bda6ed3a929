import XdpDetector.Kern.Detector
import XdpDetector.Kern.Paths
import XdpDetector.Lib.Descent
import XdpDetector.Model.Convert

/-!
# The kernel's walk and the walk of the trained tree

The reference is the unbounded walk of the trained tree from its root. `predict_dt` follows it node
by node on the converted array, but visits at most `MAX_DT_DEPTH` nodes, while the loader bounds
only the number of nodes.

* `SkTree.next`, `SkTree.descent`: the walk of the trained tree;
* `SkTree.leafDepth`, `SkTree.leaf`: the number of edges to the leaf reached, and that leaf;
* **`predictLoop_eq_visits`**: the loop of the kernel is the bounded walk;
* **`predict_agrees_iff`**: when `predict_dt` answers with the label of the leaf;
* `chain`, `longFlow`: accepted trees, and a flow that walks them to their end.
-/

namespace XdpDetector

/-! ## The walk of the trained tree -/

namespace SkTree

variable (t : SkTree)

def leftChild (i : Fin t.nodeCount) (h : t.childrenLeft i ≠ t.childrenRight i) : Fin t.nodeCount :=
  ⟨(t.childrenLeft i).toNat, by have := t.left_inRange i h; omega⟩

def rightChild (i : Fin t.nodeCount) (h : t.childrenLeft i ≠ t.childrenRight i) :
    Fin t.nodeCount :=
  ⟨(t.childrenRight i).toNat, by have := t.right_inRange i h; omega⟩

/-- The feature an internal node tests. -/
def featureIndex (i : Fin t.nodeCount) (h : t.childrenLeft i ≠ t.childrenRight i) :
    Fin maxFeatures :=
  ⟨(t.feature i).toNat, by have := t.feature_inRange i h; omega⟩

/-- The node after `i`, unless `i` is a leaf. -/
def next (features : Fin maxFeatures → Fixed) (i : Fin t.nodeCount) : Option (Fin t.nodeCount) :=
  if h : t.childrenLeft i = t.childrenRight i then none
  else if features (t.featureIndex i h) ≤ fixedFromFloat (t.threshold i) then some (t.leftChild i h)
  else some (t.rightChild i h)

variable {t} in
theorem lt_of_next {features : Fin maxFeatures → Fixed} {i j : Fin t.nodeCount}
    (h : t.next features i = some j) : i < j := by
  unfold next at h
  split_ifs at h with hl hf
  · cases h
    have := (t.left_inRange i hl).1
    simp only [leftChild, Fin.lt_def]
    omega
  · cases h
    have := (t.right_inRange i hl).1
    simp only [rightChild, Fin.lt_def]
    omega

/-- The walk, which only moves to larger indices. -/
def descent (features : Fin maxFeatures → Fixed) : Descent (Fin t.nodeCount) where
  next := t.next features
  rank i := t.nodeCount - i
  rank_lt h := by
    have hlt := lt_of_next h
    rw [Fin.lt_def] at hlt
    omega

def root : Fin t.nodeCount := ⟨0, t.nodeCount_pos⟩

/-- The number of edges from the root to the leaf reached. -/
def leafDepth (features : Fin maxFeatures → Fixed) : ℕ := (t.descent features).depth t.root

def leaf (features : Fin maxFeatures → Fixed) : Fin t.nodeCount := (t.descent features).last t.root

end SkTree

/-! ## One node of the array -/

theorem toInt_ofInt {c : ℤ} (h0 : 0 ≤ c) (h : c < maxDtNodes) : (Int32.ofInt c).toInt = c := by
  unfold maxDtNodes at h
  exact Int32.toInt_ofInt_of_le (by omega) (by omega)

theorem takeChild_ofInt {c : ℤ} (h0 : 0 ≤ c) (h : c < maxDtNodes) :
    takeChild (Int32.ofInt c) = .ok (UInt32.ofNat c.toNat) := by
  have hc : (UInt32.ofNat c.toNat).toNat = c.toNat := by
    unfold maxDtNodes at h
    rw [UInt32.toNat_ofNat']
    omega
  rw [takeChild_eq_ok_iff, toInt_ofInt h0 h, hc]
  omega

section Visit

variable {t : LoadedTree} {features : Fin maxFeatures → Fixed} {i : Fin t.nodeCount}

theorem convertNode_of_internal (h : t.childrenLeft i ≠ t.childrenRight i) :
    convertNode t.toSkTree i =
      { leftIdx := Int32.ofInt (t.childrenLeft i)
        rightIdx := Int32.ofInt (t.childrenRight i)
        splitValue := fixedFromFloat (t.threshold i)
        featureIdx := Int32.ofInt (t.feature i)
        isLeaf := 0
        label := -1 } := if_neg h

theorem featureIdx_convertNode (h : t.childrenLeft i ≠ t.childrenRight i) :
    (convertNode t.toSkTree i).featureIdx.toInt = (t.featureIndex i h : ℕ) := by
  obtain ⟨h0, h6⟩ := t.feature_inRange i h
  rw [convertNode_of_internal h, toInt_ofInt h0 (h6.trans (by decide))]
  exact (Int.toNat_of_nonneg h0).symm

/-- **A visit of the kernel** to a converted internal node goes where the trained tree goes. -/
theorem visitNode_convertNode {j : Fin t.nodeCount} (h : t.next features i = some j) :
    visitNode features (convertNode t.toSkTree i) = .ok (UInt32.ofNat j) := by
  have hcap : (t.nodeCount : ℤ) ≤ maxDtNodes := by exact_mod_cast t.fits.trans (by decide)
  unfold SkTree.next at h
  split_ifs at h with hl hf
  all_goals
    obtain ⟨hl1, hl2⟩ := t.left_inRange i hl
    obtain ⟨hr1, hr2⟩ := t.right_inRange i hl
    have hz : (convertNode t.toSkTree i).isLeaf = 0 := by rw [convertNode_of_internal hl]
    rw [visitNode_of_feature hz (featureIdx_convertNode hl), convertNode_of_internal hl]
  · rw [if_pos hf, takeChild_ofInt (by omega) (by omega)]
    cases h
    rfl
  · rw [if_neg hf, takeChild_ofInt (by omega) (by omega)]
    cases h
    rfl

theorem convertNode_of_leaf (h : t.next features i = none) :
    (convertNode t.toSkTree i).isLeaf ≠ 0 ∧
      (convertNode t.toSkTree i).label = Int32.ofNat (t.classLabel i) := by
  have hl : t.childrenLeft i = t.childrenRight i := by
    unfold SkTree.next at h
    split_ifs at h with hl
    exact hl
  rw [convertNode, if_pos hl]
  exact ⟨UInt32.zero_ne_one.symm, rfl⟩

end Visit

/-! ## The loop -/

section Loop

variable (t : LoadedTree) (features : Fin maxFeatures → Fixed)

/-- **The loop of the kernel is the walk of the trained tree, cut off.** -/
theorem predictLoop_eq_visits (n : ℕ) (i : Fin t.nodeCount) :
    predictLoop features (kernelTree t) n (UInt32.ofNat i) =
      ((t.descent features).visits n i).elim .tooDeep
        fun leaf => .leaf (Int32.ofNat (t.classLabel leaf)) := by
  have hcap := t.fits
  unfold loaderMaxDtNodes at hcap
  induction n generalizing i with
  | zero => rfl
  | succ n ih =>
    have hi : (UInt32.ofNat i).toNat = i := by
      rw [UInt32.toNat_ofNat']
      omega
    have hlt : UInt32.ofNat i < (kernelTree t).numNodes := by
      rw [UInt32.lt_iff_toNat_lt, kernelTree_numNodes, hi, UInt32.toNat_ofNat']
      omega
    have hm : (UInt32.ofNat i).toNat < maxDtNodes := by
      unfold maxDtNodes
      omega
    have hnode : (kernelTree t).node (UInt32.ofNat i).toNat = convertNode t.toSkTree i := by
      rw [hi, kernelTree_node]
    cases hn : t.next features i with
    | none =>
      obtain ⟨hl, hlabel⟩ := convertNode_of_leaf hn
      have hv : (t.descent features).visits (n + 1) i = some i := by
        simp only [Descent.visits, SkTree.descent, hn]
      rw [predictLoop_of_leaf hlt hm (by rw [hnode]; exact hl), hnode, hlabel, hv]
      rfl
    | some j =>
      have hv : (t.descent features).visits (n + 1) i = (t.descent features).visits n j := by
        simp only [Descent.visits, SkTree.descent, hn]
      have hvisit : visitNode features ((kernelTree t).node (UInt32.ofNat i).toNat) =
          .ok (UInt32.ofNat j) := by
        rw [hnode]
        exact visitNode_convertNode hn
      rw [predictLoop_of_child hlt hm hvisit, ih, hv]

theorem predictExit_kernelTree :
    predictExit features (some (kernelTree t)) =
      if t.leafDepth features < maxDtDepth then
        .leaf (Int32.ofNat (t.classLabel (t.leaf features)))
      else .tooDeep := by
  have hpos := t.nodeCount_pos
  have hcap := t.fits
  unfold loaderMaxDtNodes at hcap
  have hne : (kernelTree t).numNodes ≠ 0 := by
    rw [kernelTree_numNodes, ne_eq, ← UInt32.toNat_inj, UInt32.toNat_ofNat']
    simp
    omega
  have hroot : (0 : UInt32) = UInt32.ofNat t.root := rfl
  simp only [predictExit, if_neg hne]
  rw [hroot, predictLoop_eq_visits, Descent.visits_eq]
  unfold SkTree.leafDepth SkTree.leaf
  split_ifs <;> rfl

end Loop

/-- **Agreement with the trained tree.** For every tree the loader accepts and every feature vector,
`predict_dt` returns the label of the leaf the trained tree reaches, through no fallback, exactly
when that leaf is fewer than `MAX_DT_DEPTH` edges away from the root. -/
theorem predict_agrees_iff (tree : SkTree) (m : SkModel) (t : LoadedTree)
    (hload : loadDtModel ⟨some tree⟩ = .ok (m, t)) (dp : DataPoint) :
    (predictDt dp (some (kernelTree t)) = Int32.ofNat (tree.classLabel (tree.leaf dp.features)) ∧
        ∃ label, predictExit dp.features (some (kernelTree t)) = .leaf label) ↔
      tree.leafDepth dp.features < maxDtDepth := by
  obtain ⟨-, ht⟩ := loadDtModel_eq_ok.mp hload
  cases ht
  rw [predictDt, predictExit_kernelTree]
  split_ifs with h
  · exact iff_of_true ⟨rfl, _, rfl⟩ h
  · refine iff_of_false ?_ h
    rintro ⟨-, label, hc⟩
    cases hc

/-! ## Chains -/

/-- The chain of `n` internal nodes, node `2 * j` splitting on the packet count at `j + 1 / 2` with
a leaf of class `0` on its left; the leaf at its end has class `1`. -/
def chain (n : ℕ) : SkTree where
  nodeCount := 2 * n + 1
  nOutputs := 1
  nClasses := 2
  childrenLeft i := if (i : ℕ) % 2 = 0 ∧ (i : ℕ) < 2 * n then (i : ℕ) + 1 else -1
  childrenRight i := if (i : ℕ) % 2 = 0 ∧ (i : ℕ) < 2 * n then (i : ℕ) + 2 else -1
  feature i := if (i : ℕ) % 2 = 0 ∧ (i : ℕ) < 2 * n then 1 else -2
  threshold i := ((i : ℕ) + 1) / 2
  value i _ c := if (i : ℕ) = 2 * n then (c : ℕ) else 1 - (c : ℕ)
  nodeCount_pos := Nat.succ_pos _
  nOutputs_pos := Nat.one_pos
  nClasses_pos := Nat.two_pos
  left_inRange i h := by split_ifs at h ⊢ <;> omega
  right_inRange i h := by split_ifs at h ⊢ <;> omega
  feature_inRange i h := by split_ifs at h ⊢ <;> simp_all

def chainNode {n j : ℕ} (hj : j ≤ n) : Fin (chain n).nodeCount :=
  ⟨2 * j, by simp only [chain]; omega⟩

section Chain

variable {n : ℕ} {features : Fin maxFeatures → Fixed}

theorem chain_next_end : (chain n).next features (chainNode le_rfl) = none := by
  simp [SkTree.next, chain, chainNode]

theorem chain_next {j : ℕ} (hj : j < n)
    (hf : ¬ features featureTotalFwdPacket ≤ fixedFromFloat ((2 * j + 1) / 2)) :
    (chain n).next features (chainNode hj.le) = some (chainNode hj) := by
  have hin : 2 * j % 2 = 0 ∧ 2 * j < 2 * n := by omega
  have hne : (chain n).childrenLeft (chainNode hj.le) ≠
      (chain n).childrenRight (chainNode hj.le) := by
    simp only [chain, chainNode, if_pos hin]
    omega
  have hfeat : (chain n).featureIndex (chainNode hj.le) hne = featureTotalFwdPacket := by
    simp [SkTree.featureIndex, chain, chainNode, hj, featureTotalFwdPacket]
  have ht : (chain n).threshold (chainNode hj.le) = (2 * j + 1) / 2 := by
    simp [chain, chainNode]
  rw [SkTree.next, dif_neg hne, hfeat, ht, if_neg hf]
  congr 1
  apply Fin.ext
  simp only [SkTree.rightChild, chain, chainNode, if_pos hin]
  omega

theorem chain_classLabel : (chain n).classLabel (chainNode le_rfl) = 1 := by
  have hrow : (fun c : Fin 2 => if 2 * n = 2 * n then ((c : ℕ) : ℚ) else 1 - (c : ℕ)) =
      fun c : Fin 2 => ((c : ℕ) : ℚ) := funext fun c => if_pos rfl
  show ((npArgmax two_pos fun c : Fin 2 =>
    if 2 * n = 2 * n then ((c : ℕ) : ℚ) else 1 - (c : ℕ) : Fin 2) : ℕ) = 1
  rw [hrow]
  decide

theorem chain_walk (hf : ∀ j < n, ¬ features featureTotalFwdPacket ≤
      fixedFromFloat ((2 * (j : ℕ) + 1) / 2)) {k : ℕ} (hk : k ≤ n) :
    ((chain n).descent features).depth (chainNode (Nat.sub_le n k)) = k ∧
      ((chain n).descent features).last (chainNode (Nat.sub_le n k)) = chainNode le_rfl := by
  induction k with
  | zero => exact ⟨Descent.depth_of_none chain_next_end, Descent.last_of_none chain_next_end⟩
  | succ k ih =>
    obtain ⟨hd, hl⟩ := ih (by omega)
    have hlt : n - (k + 1) < n := by omega
    have hstep := chain_next hlt (hf _ hlt)
    have he : chainNode hlt = chainNode (Nat.sub_le n k) := by
      apply Fin.ext
      simp only [chainNode]
      omega
    rw [he] at hstep
    exact ⟨by rw [Descent.depth_of_some hstep, hd], by rw [Descent.last_of_some hstep, hl]⟩

end Chain

/-- The entry of a flow of 200 packets of 60 bytes, as `update_stats` hands it to `predict_dt`. -/
def longFlow : DataPoint :=
  let dp := { newFlow 0 60 with totalPkts := 200, totalBytes := 12000 }
  { dp with features := computeFeatures dp }

theorem longFlow_right {j : ℕ} (hj : j < 200) :
    ¬ longFlow.features featureTotalFwdPacket ≤ fixedFromFloat ((2 * j + 1) / 2) := by
  have hf : longFlow.features featureTotalFwdPacket = fixedFromUint 200 := rfl
  have h200 : (200 : UInt64).toNat = 200 := rfl
  have hj' : (j : ℚ) + 1 ≤ 200 := by exact_mod_cast hj
  have h0 : (0 : ℚ) ≤ (2 * j + 1) / 2 := by positivity
  rw [hf, fixed_le_iff (by decide) h0, wrapped_of_lt h0 (by unfold halfUlp; linarith), h200]
  unfold halfUlp
  push_cast
  linarith

theorem longFlow_leaf {n : ℕ} (hn : n ≤ 200) :
    (chain n).leafDepth longFlow.features = n ∧
      (chain n).classLabel ((chain n).leaf longFlow.features) = 1 := by
  have hroot : (chain n).root = chainNode (Nat.sub_le n n) := by
    apply Fin.ext
    simp [SkTree.root, chainNode]
  obtain ⟨hd, hl⟩ := chain_walk (n := n) (fun j hj => longFlow_right (by omega)) le_rfl
  rw [← hroot] at hd hl
  refine ⟨hd, ?_⟩
  rw [SkTree.leaf, hl, chain_classLabel]

def loadedChain {n : ℕ} (hn : 2 * n + 1 ≤ loaderMaxDtNodes) : LoadedTree := ⟨chain n, hn⟩

theorem predict_agrees_short_chain :
    loadDtModel ⟨some (chain 2)⟩ = .ok (⟨some (chain 2)⟩, loadedChain (n := 2) (by decide)) ∧
      predictDt longFlow (some (kernelTree (loadedChain (n := 2) (by decide)))) = 1 := by
  have hload : loadDtModel ⟨some (chain 2)⟩ =
      .ok (⟨some (chain 2)⟩, loadedChain (n := 2) (by decide)) := rfl
  obtain ⟨hd, hl⟩ := longFlow_leaf (n := 2) (by decide)
  have h := (predict_agrees_iff _ _ _ hload longFlow).mpr (by rw [hd]; decide)
  refine ⟨hload, h.1.trans ?_⟩
  rw [hl]
  rfl

/-- **A chain of `MAX_DT_DEPTH` internal nodes** is accepted, and a flow that the trained tree puts
in class `1` is called normal. -/
theorem chain_misclassified :
    loadDtModel ⟨some (chain 100)⟩ =
        .ok (⟨some (chain 100)⟩, loadedChain (n := 100) (by decide)) ∧
      (chain 100).classLabel ((chain 100).leaf longFlow.features) = 1 ∧
      predictDt longFlow (some (kernelTree (loadedChain (n := 100) (by decide)))) = 0 := by
  obtain ⟨hd, hl⟩ := longFlow_leaf (n := 100) (by decide)
  refine ⟨rfl, hl, ?_⟩
  rw [predictDt, predictExit_kernelTree, if_neg]
  · rfl
  · show ¬ (chain 100).leafDepth longFlow.features < maxDtDepth
    rw [hd]
    decide

end XdpDetector

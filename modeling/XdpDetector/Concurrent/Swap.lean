import XdpDetector.Kern.Checked
import XdpDetector.Model.Labels
import Mathlib.Tactic.IntervalCases

/-!
# A prediction while the model is replaced

`update_bpf_map` overwrites the value of `dt_map` in place, and a prediction on another CPU may be
under way: each of its loads sees memory as it is at that moment. The source names a field several
times where `xdp_prog_kern.ll`, compiled from it, loads the field once for a visit; the loads here
are those, with a fresh one of `num_nodes` before each visit.

* `predictRace?`: `predict_dt` over changing memory, with checked accesses;
* `tornNode`, `raceVisit?_eq`: the loads of a visit make up a node that may never have existed;
* `predictRace?_const`: memory at rest gives the prediction of its tree;
* `Mixed`, `Written`: memory between two images of the loader, and the fields it can then hold;
* `SkTree.Internal`, `torn_label`: a label and a mark from two images;
* **`label_while_swapping`**: the label that comes out.
-/

namespace XdpDetector

open ByteFmt

/-! ## The walk -/

section Race

variable (features : Fin maxFeatures → Fixed) (mem : ℕ → DtTree maxDtNodes)

/-- The body of the loop at node `i`, from load `n` on: `is_leaf`, `label` or `feature_idx`,
`split_value`, and a child. -/
def raceVisit? (n i : ℕ) : Option (Except Exit UInt32) := do
  let node ← (mem n).node? i
  if node.isLeaf ≠ 0 then
    let node ← (mem (n + 1)).node? i
    return .error (.leaf node.label)
  else
    let node ← (mem (n + 1)).node? i
    if node.featureIdx < 0 ∨ node.featureIdx ≥ Int32.ofNat maxFeatures then
      return .error .badFeature
    else
      let rawFeat ← featureAt? features node.featureIdx
      let node ← (mem (n + 2)).node? i
      if rawFeat ≤ node.splitValue then
        let node ← (mem (n + 3)).node? i
        return takeChild node.leftIdx
      else
        let node ← (mem (n + 3)).node? i
        return takeChild node.rightIdx

/-- The loop with `depth` iterations left, from load `n` on. -/
def raceLoop? : ℕ → ℕ → UInt32 → Option Exit
  | 0, _, _ => return .tooDeep
  | depth + 1, n, nodeIdx =>
    if nodeIdx ≥ (mem n).numNodes ∨ nodeIdx.toNat ≥ maxDtNodes then return .outOfBounds
    else do
      match ← raceVisit? features mem (n + 1) nodeIdx.toNat with
      | .error e => return e
      | .ok child => raceLoop? depth (n + 5) child

/-- `predict_dt` while memory changes; `none` is an access out of range. -/
def predictRace? (dp : DataPoint) (mem : ℕ → DtTree maxDtNodes) : Option Int32 :=
  if (mem 0).numNodes = 0 then return Exit.notLoaded.value
  else do
    let exit ← raceLoop? dp.features mem maxDtDepth 1 0
    return exit.value

/-- The node that the loads of a visit make up. -/
def tornNode (n i : ℕ) : DtNode where
  leftIdx := ((mem (n + 3)).node i).leftIdx
  rightIdx := ((mem (n + 3)).node i).rightIdx
  splitValue := ((mem (n + 2)).node i).splitValue
  featureIdx := ((mem (n + 1)).node i).featureIdx
  isLeaf := ((mem n).node i).isLeaf
  label := ((mem (n + 1)).node i).label

variable {features mem}

/-- **A visit** is one of the node made up by its loads. -/
theorem raceVisit?_eq (n : ℕ) {i : ℕ} (hi : i < maxDtNodes) :
    raceVisit? features mem n i = some (visitNode features (tornNode mem n i)) := by
  simp only [raceVisit?, DtTree.node?_of_lt hi, Option.bind_eq_bind, Option.bind_some]
  unfold visitNode
  by_cases hl : ((mem n).node i).isLeaf ≠ 0
  · have hl' : (tornNode mem n i).isLeaf ≠ 0 := hl
    rw [if_pos hl, if_pos hl']
    rfl
  have hl' : ¬ (tornNode mem n i).isLeaf ≠ 0 := hl
  rw [if_neg hl, if_neg hl']
  by_cases hf : ((mem (n + 1)).node i).featureIdx < 0 ∨
      ((mem (n + 1)).node i).featureIdx ≥ Int32.ofNat maxFeatures
  · have hf' : (tornNode mem n i).featureIdx < 0 ∨
        (tornNode mem n i).featureIdx ≥ Int32.ofNat maxFeatures := hf
    rw [if_pos hf, if_pos hf']
    rfl
  have hf' : ¬ ((tornNode mem n i).featureIdx < 0 ∨
      (tornNode mem n i).featureIdx ≥ Int32.ofNat maxFeatures) := hf
  rw [if_neg hf, if_neg hf', featureAt?_of_inRange hf, Option.bind_some]
  by_cases hs : featureAt features ((mem (n + 1)).node i).featureIdx ≤
      ((mem (n + 2)).node i).splitValue
  · have hs' : featureAt features (tornNode mem n i).featureIdx ≤
        (tornNode mem n i).splitValue := hs
    rw [if_pos hs, if_pos hs']
    rfl
  · have hs' : ¬ featureAt features (tornNode mem n i).featureIdx ≤
        (tornNode mem n i).splitValue := hs
    rw [if_neg hs, if_neg hs']
    rfl

variable (features) in
/-- **What a walk over changing memory can end in.** The indices it visits keep `P` when the
children stored in memory do; a label it returns is that of a visited node. -/
theorem raceLoop?_spec {P : ℕ → Prop}
    (hchild : ∀ m i, P i → ∀ j : UInt32, takeChild ((mem m).node i).leftIdx = .ok j ∨
      takeChild ((mem m).node i).rightIdx = .ok j → P j.toNat)
    (depth n : ℕ) {nodeIdx : UInt32} (hp : P nodeIdx.toNat) :
    ∃ e, raceLoop? features mem depth n nodeIdx = some e ∧ (e.value = 0 ∨
      ∃ m i, P i ∧ ((mem m).node i).isLeaf ≠ 0 ∧ e.value = ((mem (m + 1)).node i).label) := by
  induction depth generalizing n nodeIdx with
  | zero => exact ⟨.tooDeep, rfl, Or.inl rfl⟩
  | succ depth ih =>
    rw [raceLoop?]
    split_ifs with hbound
    · exact ⟨.outOfBounds, rfl, Or.inl rfl⟩
    have hlt : nodeIdx.toNat < maxDtNodes := not_le.mp fun hc => hbound (Or.inr hc)
    simp only [raceVisit?_eq (n + 1) hlt, Option.bind_eq_bind, Option.bind_some]
    cases hv : visitNode features (tornNode mem (n + 1) nodeIdx.toNat) with
    | error e =>
      refine ⟨e, rfl, ?_⟩
      unfold visitNode takeChild at hv
      split_ifs at hv with hl
      · cases hv
        exact Or.inr ⟨n + 1, nodeIdx.toNat, hp, hl, rfl⟩
      all_goals
        cases hv
        exact Or.inl rfl
    | ok child =>
      refine ih (n + 5) ?_
      unfold visitNode at hv
      split_ifs at hv
      · exact hchild (n + 4) _ hp child (Or.inl hv)
      · exact hchild (n + 4) _ hp child (Or.inr hv)

end Race

/-- Memory that does not change gives the prediction of its tree. -/
theorem predictRace?_const (dp : DataPoint) (tree : DtTree maxDtNodes) :
    predictRace? dp (fun _ => tree) = some (predictDt dp (some tree)) := by
  have htorn : ∀ n i, tornNode (fun _ => tree) n i = tree.node i := fun n i => rfl
  have hloop : ∀ depth n nodeIdx, raceLoop? dp.features (fun _ => tree) depth n nodeIdx =
      some (predictLoop dp.features tree depth nodeIdx) := by
    intro depth
    induction depth with
    | zero => exact fun n nodeIdx => rfl
    | succ depth ih =>
      intro n nodeIdx
      rw [raceLoop?, predictLoop]
      split_ifs with hbound
      · rfl
      have hlt : nodeIdx.toNat < maxDtNodes := not_le.mp fun hc => hbound (Or.inr hc)
      simp only [raceVisit?_eq (n + 1) hlt, htorn, Option.bind_eq_bind, Option.bind_some]
      cases visitNode dp.features (tree.node nodeIdx.toNat) with
      | error e => rfl
      | ok child => exact ih (n + 5) child
  rw [predictRace?, predictDt, predictExit, hloop]
  split_ifs <;> rfl

/-! ## Two images -/

/-- **Memory between two images**: every field is still the old one or already the new one. -/
structure Mixed (old new now : DtTree maxDtNodes) : Prop where
  numNodes : now.numNodes = old.numNodes ∨ now.numNodes = new.numNodes
  leftIdx : ∀ i, (now.node i).leftIdx = (old.node i).leftIdx ∨
    (now.node i).leftIdx = (new.node i).leftIdx
  rightIdx : ∀ i, (now.node i).rightIdx = (old.node i).rightIdx ∨
    (now.node i).rightIdx = (new.node i).rightIdx
  splitValue : ∀ i, (now.node i).splitValue = (old.node i).splitValue ∨
    (now.node i).splitValue = (new.node i).splitValue
  featureIdx : ∀ i, (now.node i).featureIdx = (old.node i).featureIdx ∨
    (now.node i).featureIdx = (new.node i).featureIdx
  isLeaf : ∀ i, (now.node i).isLeaf = (old.node i).isLeaf ∨
    (now.node i).isLeaf = (new.node i).isLeaf
  label : ∀ i, (now.node i).label = (old.node i).label ∨
    (now.node i).label = (new.node i).label

section Images

variable {t : LoadedTree} {behind : List UInt8}

/-- **What the loader writes into a node** for a model with `c` classes: its children are in the
array it writes, and its label is a class at a leaf and `-1` elsewhere. -/
structure Written (c : ℕ) (node : DtNode) : Prop where
  left : ∀ j, takeChild node.leftIdx = .ok j → j.toNat < loaderMaxDtNodes
  right : ∀ j, takeChild node.rightIdx = .ok j → j.toNat < loaderMaxDtNodes
  label : node.label = 0 ∨ (∃ k < c, node.label = Int32.ofNat k) ∨
    node.isLeaf = 0 ∧ node.label = -1

theorem takeChild_neg_one {j : UInt32} (h : takeChild (-1) = .ok j) : False := by
  rw [takeChild, if_pos (by decide)] at h
  cases h

theorem takeChild_ofInt_lt {c : ℤ} (h0 : 0 ≤ c) (h : c < t.nodeCount) {j : UInt32}
    (hj : takeChild (Int32.ofInt c) = .ok j) : j.toNat < loaderMaxDtNodes := by
  have hfit : t.nodeCount ≤ loaderMaxDtNodes := t.fits
  have hcap : (loaderMaxDtNodes : ℤ) ≤ maxDtNodes := by decide
  rw [takeChild_ofInt h0 (by omega)] at hj
  cases hj
  rw [UInt32.toNat_ofNat']
  exact (Nat.mod_le _ _).trans_lt (by omega)

theorem written_convertNode (i : Fin t.nodeCount) :
    Written t.nClasses (convertNode t.toSkTree i) := by
  by_cases hl : t.childrenLeft i = t.childrenRight i
  · rw [convertNode, if_pos hl]
    exact ⟨fun j hj => (takeChild_neg_one hj).elim, fun j hj => (takeChild_neg_one hj).elim,
      Or.inr (Or.inl ⟨_, (npArgmax t.nClasses_pos _).isLt, rfl⟩)⟩
  · obtain ⟨hl1, hl2⟩ := t.left_inRange i hl
    obtain ⟨hr1, hr2⟩ := t.right_inRange i hl
    rw [convertNode_of_internal hl]
    exact ⟨fun j hj => takeChild_ofInt_lt (by omega) hl2 hj,
      fun j hj => takeChild_ofInt_lt (by omega) hr2 hj, Or.inr (Or.inr ⟨rfl, rfl⟩)⟩

variable (t behind) in
/-- **A slot of the array** holds a node of the tree or is empty. -/
theorem image_cases {i : ℕ} (h : i < loaderMaxDtNodes) :
    (∃ hi : i < t.nodeCount, (updateBpfMap t behind).node i = convertNode t.toSkTree ⟨i, hi⟩) ∨
      t.nodeCount ≤ i ∧ (updateBpfMap t behind).node i = initNode := by
  rcases Nat.lt_or_ge i t.nodeCount with hi | hi
  · exact Or.inl ⟨hi, node_updateBpfMap t behind ⟨i, hi⟩⟩
  · refine Or.inr ⟨hi, ?_⟩
    rw [node_image h]
    exact node_convert_of_le _ hi

variable (t behind) in
theorem written_image {i : ℕ} (h : i < loaderMaxDtNodes) :
    Written t.nClasses ((updateBpfMap t behind).node i) := by
  rcases image_cases t behind h with ⟨hi, he⟩ | ⟨-, he⟩
  · rw [he]
    exact written_convertNode ⟨i, hi⟩
  · rw [he]
    exact ⟨fun j hj => (takeChild_neg_one hj).elim, fun j hj => (takeChild_neg_one hj).elim,
      Or.inl rfl⟩

/-- Slot `i` is an internal node of the tree. -/
def SkTree.Internal (t : SkTree) (i : ℕ) : Prop :=
  ∃ h : i < t.nodeCount, t.childrenLeft ⟨i, h⟩ ≠ t.childrenRight ⟨i, h⟩

/-- The mark of a slot says whether it is an internal node. -/
theorem isLeaf_image_iff {i : ℕ} (h : i < loaderMaxDtNodes) :
    ((updateBpfMap t behind).node i).isLeaf = 0 ↔ t.Internal i := by
  rcases image_cases t behind h with ⟨hi, he⟩ | ⟨hi, he⟩
  · by_cases hl : t.childrenLeft ⟨i, hi⟩ = t.childrenRight ⟨i, hi⟩
    · rw [he, convertNode, if_pos hl]
      refine iff_of_false UInt32.zero_ne_one.symm ?_
      rintro ⟨_, hne⟩
      exact hne hl
    · rw [he, convertNode_of_internal hl]
      exact iff_of_true rfl ⟨hi, hl⟩
  · rw [he]
    refine iff_of_false UInt32.zero_ne_one.symm ?_
    rintro ⟨hlt, -⟩
    omega

/-- **A label read apart from its mark** is one that the loader writes, and `-1` only where the mark
of another image was read. -/
theorem torn_label {t' : LoadedTree} {behind' : List UInt8} {i : ℕ} (hi : i < loaderMaxDtNodes)
    {isLeaf : UInt32} (hleaf : isLeaf ≠ 0)
    (h : isLeaf = ((updateBpfMap t behind).node i).isLeaf ∨
      isLeaf = ((updateBpfMap t' behind').node i).isLeaf) :
    ((updateBpfMap t behind).node i).label = 0 ∨
      (∃ k < t.nClasses, ((updateBpfMap t behind).node i).label = Int32.ofNat k) ∨
      ((updateBpfMap t behind).node i).label = -1 ∧ t.Internal i ∧ ¬ t'.Internal i := by
  rcases (written_image t behind hi).label with h0 | hclass | ⟨h0, hlabel⟩
  · exact Or.inl h0
  · exact Or.inr (Or.inl hclass)
  · refine Or.inr (Or.inr ⟨hlabel, (isLeaf_image_iff hi).mp h0, fun hc => ?_⟩)
    rcases h with h | h
    · exact hleaf (h.trans h0)
    · exact hleaf (h.trans ((isLeaf_image_iff hi).mpr hc))

end Images

/-- **The label while the model is replaced.** Whatever each load of a prediction sees of the old
image and of the new one, no access is out of range, and the label is `0`, a class of one of the two
models, or the `-1` of an internal node whose slot is a leaf or empty in the other image. -/
theorem label_while_swapping (dp : DataPoint) (old new : LoadedTree) (behind behind' : List UInt8)
    (mem : ℕ → DtTree maxDtNodes)
    (h : ∀ n, Mixed (updateBpfMap old behind) (updateBpfMap new behind') (mem n)) :
    ∃ l, predictRace? dp mem = some l ∧
      (l = 0 ∨ (∃ k, (k < old.nClasses ∨ k < new.nClasses) ∧ l = Int32.ofNat k) ∨
        l = -1 ∧ ∃ i, old.Internal i ∧ ¬ new.Internal i ∨ new.Internal i ∧ ¬ old.Internal i) := by
  have hchild : ∀ m i, i < loaderMaxDtNodes → ∀ j : UInt32,
      takeChild ((mem m).node i).leftIdx = .ok j ∨ takeChild ((mem m).node i).rightIdx = .ok j →
      j.toNat < loaderMaxDtNodes := by
    intro m i hi j hj
    have hold := written_image old behind hi
    have hnew := written_image new behind' hi
    rcases hj with hj | hj
    · rcases (h m).leftIdx i with he | he
      · exact hold.left j (he ▸ hj)
      · exact hnew.left j (he ▸ hj)
    · rcases (h m).rightIdx i with he | he
      · exact hold.right j (he ▸ hj)
      · exact hnew.right j (he ▸ hj)
  rw [predictRace?]
  split_ifs with hcount
  · exact ⟨0, rfl, Or.inl rfl⟩
  obtain ⟨e, he, hval⟩ := raceLoop?_spec dp.features hchild maxDtDepth 1
    (show (0 : UInt32).toNat < loaderMaxDtNodes by decide)
  refine ⟨e.value, by rw [he]; rfl, ?_⟩
  rcases hval with hzero | ⟨m, i, hi, hleaf, hlabel⟩
  · exact Or.inl hzero
  rcases (h (m + 1)).label i with hl | hl
  · rw [hlabel, hl]
    rcases torn_label hi hleaf ((h m).isLeaf i) with h0 | ⟨k, hk, hc⟩ | ⟨hneg, hne⟩
    · exact Or.inl h0
    · exact Or.inr (Or.inl ⟨k, Or.inl hk, hc⟩)
    · exact Or.inr (Or.inr ⟨hneg, i, Or.inl hne⟩)
  · rw [hlabel, hl]
    rcases torn_label hi hleaf ((h m).isLeaf i).symm with h0 | ⟨k, hk, hc⟩ | ⟨hneg, hne⟩
    · exact Or.inl h0
    · exact Or.inr (Or.inl ⟨k, Or.inr hk, hc⟩)
    · exact Or.inr (Or.inr ⟨hneg, i, Or.inr hne⟩)

/-- The mark of the root is read from a tree with one leaf, its label from one with a split. -/
def tornMemory (n : ℕ) : DtTree maxDtNodes :=
  if n = 2 then updateBpfMap (loadedChain (n := 0) (by decide)) countThree
  else updateBpfMap (loadedChain (n := 1) (by decide)) countThree

theorem Mixed.left (old new : DtTree maxDtNodes) : Mixed old new old :=
  ⟨Or.inl rfl, fun _ => Or.inl rfl, fun _ => Or.inl rfl, fun _ => Or.inl rfl, fun _ => Or.inl rfl,
    fun _ => Or.inl rfl, fun _ => Or.inl rfl⟩

theorem Mixed.right (old new : DtTree maxDtNodes) : Mixed old new new :=
  ⟨Or.inr rfl, fun _ => Or.inr rfl, fun _ => Or.inr rfl, fun _ => Or.inr rfl, fun _ => Or.inr rfl,
    fun _ => Or.inr rfl, fun _ => Or.inr rfl⟩

theorem mixed_tornMemory (n : ℕ) :
    Mixed (updateBpfMap (loadedChain (n := 0) (by decide)) countThree)
      (updateBpfMap (loadedChain (n := 1) (by decide)) countThree) (tornMemory n) := by
  unfold tornMemory
  split_ifs
  · exact Mixed.left _ _
  · exact Mixed.right _ _

theorem root_image {n : ℕ} (hn : 2 * n + 1 ≤ loaderMaxDtNodes) (behind : List UInt8) :
    (updateBpfMap (loadedChain hn) behind).node 0 = convertNode (chain n) (chain n).root :=
  node_updateBpfMap (loadedChain hn) behind (chain n).root

/-- The walk ends at once, with the label of a node that has none. -/
theorem predictRace?_tornMemory : predictRace? longFlow tornMemory = some (-1) := by
  have hcount : ∀ n, (tornMemory n).numNodes = 3 := by
    intro n
    unfold tornMemory
    split_ifs <;>
    · rw [numNodes_updateBpfMap]
      exact congrArg UInt32.ofNat countBehind_countThree
  have hleaf : (tornNode tornMemory 2 0).isLeaf ≠ 0 := by
    show ((tornMemory 2).node 0).isLeaf ≠ 0
    have hend : (chain 0).next longFlow.features (chain 0).root = none := chain_next_end
    rw [tornMemory, if_pos rfl, root_image]
    exact (convertNode_of_leaf (t := loadedChain (n := 0) (by decide)) hend).1
  have hlabel : (tornNode tornMemory 2 0).label = -1 := by
    show ((tornMemory 3).node 0).label = -1
    rw [tornMemory, if_neg (by decide), root_image]
    exact congrArg DtNode.label (convertNode_of_internal (t := loadedChain (n := 1) (by decide))
      (by decide))
  have hin : ¬ ((0 : UInt32) ≥ (tornMemory 1).numNodes ∨ (0 : UInt32).toNat ≥ maxDtNodes) := by
    rw [hcount]
    decide
  have hvisit : raceVisit? longFlow.features tornMemory 2 (0 : UInt32).toNat =
      some (.error (.leaf (-1))) := by
    rw [raceVisit?_eq 2 (by decide), UInt32.toNat_zero, visitNode, if_pos hleaf,
      hlabel]
  rw [predictRace?, if_neg (by rw [hcount]; decide)]
  rw [show maxDtDepth = (maxDtDepth - 1) + 1 from rfl, raceLoop?, if_neg hin, hvisit]
  rfl

theorem label_while_swapping_torn : predictRace? longFlow tornMemory = some (-1) ∧
    ∃ i, (chain 0).Internal i ∧ ¬ (chain 1).Internal i ∨
      (chain 1).Internal i ∧ ¬ (chain 0).Internal i := by
  obtain ⟨l, hl, hcases⟩ := label_while_swapping longFlow (loadedChain (n := 0) (by decide))
    (loadedChain (n := 1) (by decide)) countThree countThree tornMemory mixed_tornMemory
  rw [predictRace?_tornMemory] at hl
  cases hl
  refine ⟨predictRace?_tornMemory, ?_⟩
  rcases hcases with h | ⟨k, hk, h⟩ | ⟨-, h⟩
  · exact absurd h (by decide)
  · have hlt : k < 2 := hk.elim id id
    interval_cases k <;> exact absurd h (by decide)
  · exact h

end XdpDetector

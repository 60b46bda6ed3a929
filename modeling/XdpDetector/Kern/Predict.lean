import XdpDetector.Common
import Mathlib.Tactic.SplitIfs

/-!
# Decision tree inference

`predict_dt` walks the node array from index `0`, at most `MAX_DT_DEPTH` nodes, and returns `0`
whenever it cannot go on. The model keeps the return statement that was taken (`Exit`), so that a
leaf labelled `0` is told apart from the fallbacks.

* `visitNode`: one node, left either through a return or towards a child;
* `predictLoop`, `predictExit`, `predictDt`: the loop and the function;
* `predictLoop_of_leaf`, **`predictLoop_of_child`**: one iteration.
-/

namespace XdpDetector

/-- The return statements of `predict_dt`: the label of a leaf; no tree, or one without nodes; an
index at or beyond `num_nodes` or `MAX_DT_NODES`; a feature outside `0..5`; a child outside the node
array; `MAX_DT_DEPTH` nodes without a leaf. -/
inductive Exit
  | leaf (label : Int32)
  | notLoaded
  | outOfBounds
  | badFeature
  | badChild
  | tooDeep
deriving DecidableEq

/-- The value returned: every exit but a leaf returns `0`. -/
def Exit.value : Exit → Int32
  | .leaf label => label
  | _ => 0

def DtTree.node {cap : ℕ} (tree : DtTree cap) (i : ℕ) : DtNode :=
  if h : i < cap then tree.nodes ⟨i, h⟩ else DtNode.zero

def featureAt (features : Fin maxFeatures → Fixed) (i : Int32) : Fixed :=
  if h : i.toUInt32.toNat < maxFeatures then features ⟨i.toUInt32.toNat, h⟩ else 0

/-- The child to go to, unless it lies outside the node array. -/
def takeChild (idx : Int32) : Except Exit UInt32 :=
  if idx < 0 ∨ idx ≥ Int32.ofNat maxDtNodes then .error .badChild else .ok idx.toUInt32

/-- The body of the loop at a node in range. -/
def visitNode (features : Fin maxFeatures → Fixed) (node : DtNode) : Except Exit UInt32 :=
  if node.isLeaf ≠ 0 then .error (.leaf node.label)
  else if node.featureIdx < 0 ∨ node.featureIdx ≥ Int32.ofNat maxFeatures then .error .badFeature
  else if featureAt features node.featureIdx ≤ node.splitValue then takeChild node.leftIdx
  else takeChild node.rightIdx

/-- The loop of `predict_dt` with `depth` iterations left. -/
def predictLoop (features : Fin maxFeatures → Fixed) (tree : DtTree maxDtNodes) :
    ℕ → UInt32 → Exit
  | 0, _ => .tooDeep
  | depth + 1, nodeIdx =>
    if nodeIdx ≥ tree.numNodes ∨ nodeIdx.toNat ≥ maxDtNodes then .outOfBounds
    else match visitNode features (tree.node nodeIdx.toNat) with
      | .error e => e
      | .ok child => predictLoop features tree depth child

/-- The return statement `predict_dt` takes. -/
def predictExit (features : Fin maxFeatures → Fixed) : Option (DtTree maxDtNodes) → Exit
  | none => .notLoaded
  | some tree => if tree.numNodes = 0 then .notLoaded else predictLoop features tree maxDtDepth 0

/-- `predict_dt`. -/
def predictDt (dp : DataPoint) (tree : Option (DtTree maxDtNodes)) : Int32 :=
  (predictExit dp.features tree).value

/-! ## One iteration -/

section Loop

variable {features : Fin maxFeatures → Fixed} {tree : DtTree maxDtNodes} {depth : ℕ} {i : UInt32}

theorem not_outOfBounds (hi : i < tree.numNodes) (hm : i.toNat < maxDtNodes) :
    ¬ (i ≥ tree.numNodes ∨ i.toNat ≥ maxDtNodes) := by
  rintro (h | h)
  · exact absurd hi (UInt32.not_lt.mpr h)
  · omega

theorem predictLoop_of_leaf (hi : i < tree.numNodes) (hm : i.toNat < maxDtNodes)
    (hl : (tree.node i.toNat).isLeaf ≠ 0) :
    predictLoop features tree (depth + 1) i = .leaf (tree.node i.toNat).label := by
  rw [predictLoop, if_neg (not_outOfBounds hi hm), visitNode, if_pos hl]

/-- **An iteration that reaches a child.** -/
theorem predictLoop_of_child (hi : i < tree.numNodes) (hm : i.toNat < maxDtNodes) {j : UInt32}
    (hv : visitNode features (tree.node i.toNat) = .ok j) :
    predictLoop features tree (depth + 1) i = predictLoop features tree depth j := by
  rw [predictLoop, if_neg (not_outOfBounds hi hm), hv]

end Loop

/-- A tree of one leaf, which calls every flow an anomaly. -/
def alarmTree : DtTree maxDtNodes :=
  { DtTree.zero maxDtNodes with
    numNodes := 1
    nodes := fun _ => { DtNode.zero with isLeaf := 1, label := 1 } }

theorem predictDt_alarmTree (dp : DataPoint) : predictDt dp (some alarmTree) = 1 := by
  rw [predictDt, predictExit, if_neg (by decide : alarmTree.numNodes ≠ 0)]
  exact congrArg Exit.value (predictLoop_of_leaf (by decide) (by decide) (by decide))

end XdpDetector

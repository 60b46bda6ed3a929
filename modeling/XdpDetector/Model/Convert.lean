import XdpDetector.Kern.Predict
import XdpDetector.Model.Threshold
import Mathlib.Data.Fintype.Basic
import Mathlib.Data.List.MinMax

/-!
# Loading a trained tree

`load_dt_model` and `convert_tree_to_nodes` of `read_model_to_map.py`. A trained tree carries the
guarantees of the library that built it: node `0` is the root, and an internal node has two
distinct children of larger index and one of the six features.

* `SkTree`: the arrays of a trained tree;
* `loadDtModel`, `LoadedTree`: the check of the loader and the trees that pass it;
* `convertNode`, `convertTreeToNodes`: the node array written for a tree;
* **`node_convert`**: what both loops leave in the array.
-/

namespace XdpDetector

/-- `MAX_DT_NODES` of the loader. -/
def loaderMaxDtNodes : ℕ := 600

/-- **A trained tree**: `tree_` of a scikit-learn classifier. -/
structure SkTree where
  nodeCount : ℕ
  nOutputs : ℕ
  nClasses : ℕ
  childrenLeft : Fin nodeCount → ℤ
  childrenRight : Fin nodeCount → ℤ
  feature : Fin nodeCount → ℤ
  threshold : Fin nodeCount → ℚ
  value : Fin nodeCount → Fin nOutputs → Fin nClasses → ℚ
  nodeCount_pos : 0 < nodeCount
  nOutputs_pos : 0 < nOutputs
  nClasses_pos : 0 < nClasses
  left_inRange : ∀ i, childrenLeft i ≠ childrenRight i →
    (i : ℤ) < childrenLeft i ∧ childrenLeft i < nodeCount
  right_inRange : ∀ i, childrenLeft i ≠ childrenRight i →
    (i : ℤ) < childrenRight i ∧ childrenRight i < nodeCount
  feature_inRange : ∀ i, childrenLeft i ≠ childrenRight i →
    0 ≤ feature i ∧ feature i < maxFeatures

/-- A pickled model, which may lack the attribute `tree_`. -/
structure SkModel where
  tree_ : Option SkTree

/-- A tree within the node limit of the loader. -/
structure LoadedTree extends SkTree where
  fits : nodeCount ≤ loaderMaxDtNodes

/-- `load_dt_model`. -/
def loadDtModel (model : SkModel) : Except String (SkModel × LoadedTree) :=
  match model.tree_ with
  | none => .error "Not a valid Decision Tree model"
  | some tree =>
    if h : tree.nodeCount > loaderMaxDtNodes then
      .error s!"Tree has {tree.nodeCount} nodes, exceeds MAX_DT_NODES={loaderMaxDtNodes}"
    else .ok (model, ⟨tree, not_lt.mp h⟩)

/-- The loader accepts exactly the models whose tree is within the limit. -/
theorem loadDtModel_eq_ok {model m : SkModel} {t : LoadedTree} :
    loadDtModel model = .ok (m, t) ↔ m = model ∧ model.tree_ = some t.toSkTree := by
  unfold loadDtModel
  cases ht : model.tree_ with
  | none => simp
  | some tree =>
    dsimp only
    by_cases h : tree.nodeCount > loaderMaxDtNodes
    · rw [dif_pos h]
      constructor
      · intro hc
        cases hc
      · rintro ⟨-, hc⟩
        cases hc
        exact absurd t.fits (not_le.mpr h)
    · rw [dif_neg h]
      constructor
      · intro hc
        cases hc
        exact ⟨rfl, rfl⟩
      · rintro ⟨rfl, hc⟩
        cases hc
        rfl

/-! ## The node array -/

/-- `np.argmax` of a row: the first index of its maximum. -/
def npArgmax {n : ℕ} (hn : 0 < n) (row : Fin n → ℚ) : Fin n :=
  ((List.finRange n).argmax row).getD ⟨0, hn⟩

/-- The majority class of a node. -/
def SkTree.classLabel (t : SkTree) (i : Fin t.nodeCount) : ℕ :=
  npArgmax t.nClasses_pos (t.value i ⟨0, t.nOutputs_pos⟩)

def initNode : DtNode where
  leftIdx := -1
  rightIdx := -1
  splitValue := 0
  featureIdx := -1
  isLeaf := 1
  label := 0

/-- The fields written for node `i`. -/
def convertNode (t : SkTree) (i : Fin t.nodeCount) : DtNode :=
  if t.childrenLeft i = t.childrenRight i then
    { leftIdx := -1
      rightIdx := -1
      splitValue := 0
      featureIdx := -1
      isLeaf := 1
      label := Int32.ofNat (t.classLabel i) }
  else
    { leftIdx := Int32.ofInt (t.childrenLeft i)
      rightIdx := Int32.ofInt (t.childrenRight i)
      splitValue := fixedFromFloat (t.threshold i)
      featureIdx := Int32.ofInt (t.feature i)
      isLeaf := 0
      label := -1 }

/-- `convert_tree_to_nodes`. -/
def convertTreeToNodes (tree : LoadedTree) (dtTreeStruct : DtTree loaderMaxDtNodes) :
    DtTree loaderMaxDtNodes :=
  let nodes := (List.finRange loaderMaxDtNodes).foldl
    (fun nodes i => Function.update nodes i initNode) dtTreeStruct.nodes
  let nodes := (List.finRange tree.nodeCount).foldl
    (fun nodes i => Function.update nodes (i.castLE tree.fits) (convertNode tree.toSkTree i)) nodes
  { dtTreeStruct with nodes := nodes, numNodes := UInt32.ofNat tree.nodeCount }

theorem foldl_update_of_mem {ι κ β : Type} [DecidableEq κ] {f : ι → κ} (hf : Function.Injective f)
    (g : ι → β) (a : κ → β) {is : List ι} {j : ι} (hj : j ∈ is) :
    is.foldl (fun a i => Function.update a (f i) (g i)) a (f j) = g j := by
  induction is using List.reverseRecOn with
  | nil => cases hj
  | append_singleton is i ih =>
    rw [List.foldl_append, List.foldl_cons, List.foldl_nil]
    by_cases h : j = i
    · rw [h, Function.update_self]
    · rw [Function.update_of_ne (hf.ne h)]
      refine ih ?_
      simpa [h] using hj

theorem foldl_update_of_notMem {ι κ β : Type} [DecidableEq κ] {f : ι → κ} (g : ι → β) (a : κ → β)
    {is : List ι} {k : κ} (hk : ∀ i ∈ is, f i ≠ k) :
    is.foldl (fun a i => Function.update a (f i) (g i)) a k = a k := by
  induction is using List.reverseRecOn with
  | nil => rfl
  | append_singleton is i ih =>
    rw [List.foldl_append, List.foldl_cons, List.foldl_nil,
      Function.update_of_ne (hk i (by simp)).symm]
    exact ih fun j hj => hk j (by simp [hj])

/-- **Every node of the tree is in the array.** -/
theorem node_convert (t : LoadedTree) (s : DtTree loaderMaxDtNodes) (i : Fin t.nodeCount) :
    (convertTreeToNodes t s).nodes (i.castLE t.fits) = convertNode t.toSkTree i :=
  foldl_update_of_mem (Fin.castLE_injective t.fits) _ _ (List.mem_finRange i)

/-- The other slots are cleared. -/
theorem node_convert_of_le {t : LoadedTree} (s : DtTree loaderMaxDtNodes)
    {j : Fin loaderMaxDtNodes} (hj : t.nodeCount ≤ j) :
    (convertTreeToNodes t s).nodes j = initNode := by
  have hk : ∀ i ∈ List.finRange t.nodeCount, i.castLE t.fits ≠ j := by
    intro i _ hc
    have hlt : (i.castLE t.fits : ℕ) < t.nodeCount := i.isLt
    rw [hc] at hlt
    omega
  refine (foldl_update_of_notMem _ _ hk).trans ?_
  exact foldl_update_of_mem Function.injective_id _ _ (List.mem_finRange j)

/-! ## The tree as the kernel reads it -/

/-- The fields of a tree in a node array of another length. -/
def DtTree.resize {cap : ℕ} (cap' : ℕ) (t : DtTree cap) : DtTree cap' :=
  { t with nodes := fun i => t.node i }

/-- The tree `convert_tree_to_nodes` fills in a zeroed `DTTree()`, field by field. -/
def kernelTree (t : LoadedTree) : DtTree maxDtNodes :=
  (convertTreeToNodes t (DtTree.zero loaderMaxDtNodes)).resize maxDtNodes

theorem kernelTree_node (t : LoadedTree) (i : Fin t.nodeCount) :
    (kernelTree t).node i = convertNode t.toSkTree i := by
  have h600 : (i : ℕ) < loaderMaxDtNodes := i.isLt.trans_le t.fits
  have h5000 : (i : ℕ) < maxDtNodes := h600.trans_le (by decide)
  rw [← node_convert t (DtTree.zero loaderMaxDtNodes) i]
  simp only [kernelTree, DtTree.resize, DtTree.node, dif_pos h5000, dif_pos h600]
  rfl

theorem kernelTree_numNodes (t : LoadedTree) :
    (kernelTree t).numNodes = UInt32.ofNat t.nodeCount := rfl

end XdpDetector

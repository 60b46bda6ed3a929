import XdpDetector.Lib.Bytes
import XdpDetector.Model.Walk

/-!
# The byte image of the tree

The loader fills a `ctypes` structure and hands its address to `bpf_update_elem`, which copies the
value size of `dt_map` from there; the kernel reads the copy as a `dt_tree`. The two layouts are
written down separately, each from its own declaration. They agree on a node but not on the length
of the node array, so that `num_nodes` is read from bytes behind the structure that was passed.

* `pyDTNode`, `pyDTTree`: the layout of the loader;
* `cDtNode`, `cDtTree`: the layout of the kernel;
* `updateBpfMap`: the map value after an update, given the bytes behind the structure;
* `node_updateBpfMap`, `numNodes_updateBpfMap`: the nodes arrive, the count comes from behind;
* **`image_agrees_iff`**: when the kernel reads what the loader wrote.
-/

namespace XdpDetector

open ByteFmt

/-! ## The two layouts -/

/-- The fields of a node, in order. -/
def nodeFields : (((((Unit × Int32) × Int32) × Fixed) × Int32) × UInt32) × Int32 ≃ DtNode where
  toFun p := ⟨p.1.1.1.1.1.2, p.1.1.1.1.2, p.1.1.1.2, p.1.1.2, p.1.2, p.2⟩
  invFun n :=
    (((((((), n.leftIdx), n.rightIdx), n.splitValue), n.featureIdx), n.isLeaf), n.label)
  left_inv _ := rfl
  right_inv _ := rfl

def treeFields (cap : ℕ) :
    (((Unit × (Fin cap → DtNode)) × UInt32) × (Fin maxFeatures → Fixed)) ×
      (Fin maxFeatures → Fixed) ≃ DtTree cap where
  toFun p := ⟨p.1.1.1.2, p.1.1.2, p.1.2, p.2⟩
  invFun t := (((((), t.nodes), t.numNodes), t.minVals), t.maxVals)
  left_inv _ := rfl
  right_inv _ := rfl

/-- `DTNode` of the loader. -/
def pyDTNode : Fmt DtNode :=
  ((((((Fields.nil.snoc Fmt.i32).snoc Fmt.i32).snoc Fmt.u64).snoc Fmt.i32).snoc Fmt.u32).snoc
    Fmt.i32).close nodeFields

def pyNodes : Fields (Unit × (Fin loaderMaxDtNodes → DtNode)) :=
  Fields.nil.snoc (Fmt.array loaderMaxDtNodes pyDTNode)

/-- `DTTree` of the loader. -/
def pyDTTree : Fmt (DtTree loaderMaxDtNodes) :=
  (((pyNodes.snoc Fmt.u32).snoc (Fmt.array maxFeatures Fmt.u64)).snoc
    (Fmt.array maxFeatures Fmt.u64)).close (treeFields loaderMaxDtNodes)

/-- `dt_node` of the kernel. -/
def cDtNode : Fmt DtNode :=
  ((((((Fields.nil.snoc Fmt.i32).snoc Fmt.i32).snoc Fmt.u64).snoc Fmt.i32).snoc Fmt.u32).snoc
    Fmt.i32).close nodeFields

def cNodes : Fields (Unit × (Fin maxDtNodes → DtNode)) :=
  Fields.nil.snoc (Fmt.array maxDtNodes cDtNode)

/-- `dt_tree` of the kernel. -/
def cDtTree : Fmt (DtTree maxDtNodes) :=
  (((cNodes.snoc Fmt.u32).snoc (Fmt.array maxFeatures Fmt.u64)).snoc
    (Fmt.array maxFeatures Fmt.u64)).close (treeFields maxDtNodes)

theorem size_pyDTTree : pyDTTree.size = 19304 := by decide

theorem size_cDtTree : cDtTree.size = 160104 := by decide

/-- Where the kernel reads `num_nodes`. -/
theorem offset_numNodes : cNodes.offset Fmt.u32 = 160000 := by decide

/-! ## The map value -/

/-- The value of `dt_map` after `update_bpf_map`: the kernel copies the size of a `dt_tree` from the
address of the structure, and `behind` is the memory that follows the structure. -/
def updateBpfMap (tree : LoadedTree) (behind : List UInt8) : DtTree maxDtNodes :=
  let dtTree := convertTreeToNodes tree (DtTree.zero loaderMaxDtNodes)
  cDtTree.decode ((pyDTTree.encode dtTree ++ behind).take cDtTree.size)

theorem encode_pyDTTree (s : DtTree loaderMaxDtNodes) :
    ∃ tail, pyDTTree.encode s = (Fmt.array loaderMaxDtNodes pyDTNode).encode s.nodes ++ tail := by
  have h0 : Fields.nil.padded (Fmt.array loaderMaxDtNodes pyDTNode) () = [] :=
    List.eq_nil_of_length_eq_zero (Fields.length_padded _ _ _)
  have hn : pyNodes.encode ((), s.nodes) =
      (Fmt.array loaderMaxDtNodes pyDTNode).encode s.nodes := by
    show Fields.nil.padded _ () ++ _ = _
    rw [h0, List.nil_append]
  rw [← hn]
  simp only [pyDTTree, Fields.close, Fields.snoc, Fields.padded, List.append_assoc]
  exact ⟨_, rfl⟩

section Read

variable (t : LoadedTree) (behind : List UInt8)

variable {t behind} in
theorem node_image {i : ℕ} (h600 : i < loaderMaxDtNodes) : (updateBpfMap t behind).node i =
    (convertTreeToNodes t (DtTree.zero loaderMaxDtNodes)).nodes ⟨i, h600⟩ := by
  have h5000 : i < maxDtNodes := h600.trans_le (by decide)
  obtain ⟨tail, ht⟩ := encode_pyDTTree (convertTreeToNodes t (DtTree.zero loaderMaxDtNodes))
  have hlen : ((Fmt.array loaderMaxDtNodes pyDTNode).encode
      (convertTreeToNodes t (DtTree.zero loaderMaxDtNodes)).nodes).length ≤ cDtTree.size := by
    rw [Fmt.length_encode]
    decide
  rw [DtTree.node, dif_pos h5000]
  simp only [updateBpfMap]
  rw [ht, List.append_assoc, List.take_append, List.take_of_length_le hlen]
  exact decode_array_encode pyDTNode _ _ ⟨i, h5000⟩ h600

theorem node_updateBpfMap (i : Fin t.nodeCount) :
    (updateBpfMap t behind).node i = convertNode t.toSkTree i := by
  rw [node_image (i.isLt.trans_le t.fits)]
  exact node_convert t (DtTree.zero loaderMaxDtNodes) i

/-- The count is read from behind the structure. -/
theorem numNodes_updateBpfMap :
    (updateBpfMap t behind).numNodes = UInt32.ofNat (ofLe ((behind.drop 140696).take 4)) := by
  set image := pyDTTree.encode (convertTreeToNodes t (DtTree.zero loaderMaxDtNodes)) with hi
  have hlen : image.length = 19304 := by rw [hi, pyDTTree.length_encode, size_pyDTTree]
  have hdrop : (((image ++ behind).take cDtTree.size).drop (cNodes.offset Fmt.u32)).take 4 =
      (behind.drop 140696).take 4 := by
    rw [offset_numNodes, size_cDtTree, List.drop_take, List.take_take, List.drop_append, hlen,
      List.drop_eq_nil_of_le (by omega), List.nil_append]
    rfl
  rw [← hdrop]
  rfl

end Read

/-- **The two layouts.** For every tree the loader accepts and all memory behind the structure, the
kernel reads the number of nodes and the nodes that the loader wrote exactly when the four bytes
140696 behind the structure happen to hold that number. -/
theorem image_agrees_iff (tree : SkTree) (m : SkModel) (t : LoadedTree)
    (hload : loadDtModel ⟨some tree⟩ = .ok (m, t)) (behind : List UInt8) :
    ((updateBpfMap t behind).numNodes.toNat = tree.nodeCount ∧
        ∀ i < tree.nodeCount, (updateBpfMap t behind).node i =
          (convertTreeToNodes t (DtTree.zero loaderMaxDtNodes)).node i) ↔
      ofLe ((behind.drop 140696).take 4) = tree.nodeCount := by
  obtain ⟨-, ht⟩ := loadDtModel_eq_ok.mp hload
  cases ht
  have hlt : ofLe ((behind.drop 140696).take 4) < 2 ^ 32 := by
    have h := ofLe_lt ((behind.drop 140696).take 4)
    have hp : 256 ^ ((behind.drop 140696).take 4).length ≤ 256 ^ 4 :=
      Nat.pow_le_pow_right (by norm_num) (List.length_take_le _ _)
    omega
  have hcount : (updateBpfMap t behind).numNodes.toNat = ofLe ((behind.drop 140696).take 4) := by
    rw [numNodes_updateBpfMap, UInt32.toNat_ofNat', Nat.mod_eq_of_lt hlt]
  rw [hcount]
  apply and_iff_left
  intro i hi
  have h600 : i < loaderMaxDtNodes := hi.trans_le t.fits
  rw [node_updateBpfMap t behind ⟨i, hi⟩, ← node_convert t (DtTree.zero loaderMaxDtNodes),
    DtTree.node, dif_pos h600]
  rfl

/-- A tree with two splits, and memory behind the structure that holds its count of nodes. -/
theorem image_agrees_lucky :
    let t := loadedChain (n := 2) (by decide)
    let behind := List.replicate 140696 0 ++ (leBytes 4 5 ++ List.replicate 100 0)
    loadDtModel ⟨some (chain 2)⟩ = .ok (⟨some (chain 2)⟩, t) ∧
      (updateBpfMap t behind).numNodes.toNat = 5 ∧
      ∀ i < 5, (updateBpfMap t behind).node i =
        (convertTreeToNodes t (DtTree.zero loaderMaxDtNodes)).node i := by
  intro t behind
  have hload : loadDtModel ⟨some (chain 2)⟩ = .ok (⟨some (chain 2)⟩, t) := rfl
  refine ⟨hload, (image_agrees_iff _ _ _ hload _).mpr ?_⟩
  rw [List.drop_left' (by rw [List.length_replicate]), List.take_left' (length_leBytes 4 5),
    ofLe_leBytes]
  rfl

/-- **Zeroed memory behind the structure**: the tree of one leaf arrives without its count, and
every flow is called normal because no tree seems to be loaded. -/
theorem image_loses_count :
    loadDtModel ⟨some (chain 0)⟩ = .ok (⟨some (chain 0)⟩, loadedChain (n := 0) (by decide)) ∧
      (chain 0).nodeCount = 1 ∧
      (updateBpfMap (loadedChain (n := 0) (by decide)) (List.replicate 140800 0)).numNodes = 0 := by
  refine ⟨rfl, rfl, ?_⟩
  rw [numNodes_updateBpfMap, List.drop_replicate, List.take_replicate, ofLe_replicate_zero]
  rfl

end XdpDetector

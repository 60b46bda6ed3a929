import XdpDetector.Kern.Predict
import Mathlib.Data.Int.Notation

/-!
# Paths through an arbitrary tree

The node array may hold anything: cycles, shared or dangling children, feature indices out of
range. What `predict_dt` computes is still a property of paths: the features select at most one
path from a node to a leaf, and the function finds it if it is short enough.

* `Visitable`, `Edge`, `LeafPath`: the paths, in terms of the stored nodes alone;
* `LeafPath.unique`: at most one path starts at a node;
* `visitNode_eq_ok_iff`: the loop body takes exactly the edges;
* `predictLoop_eq_leaf_iff`: the loop finds exactly the paths of its length;
* **`predictDt_eq_label_of_path`**: the function, on every tree.
-/

namespace XdpDetector

section Paths

variable (features : Fin maxFeatures → Fixed) (tree : DtTree maxDtNodes)

/-- An index that the walk may look at. -/
def Visitable (i : ℕ) : Prop := i < tree.numNodes.toNat ∧ i < maxDtNodes

/-- The edge that the features select at an internal node. -/
def Edge (i j : ℕ) : Prop :=
  (tree.node i).isLeaf = 0 ∧ ∃ k : Fin maxFeatures, (tree.node i).featureIdx.toInt = (k : ℕ) ∧
    (j : ℤ) = if features k ≤ (tree.node i).splitValue then (tree.node i).leftIdx.toInt
      else (tree.node i).rightIdx.toInt

/-- **A path to a leaf**: the indices visited and the label of the leaf. -/
inductive LeafPath : List ℕ → Int32 → Prop
  | leaf {i : ℕ} (hi : Visitable tree i) (hl : (tree.node i).isLeaf ≠ 0) :
      LeafPath [i] (tree.node i).label
  | edge {i j : ℕ} {p : List ℕ} {l : Int32} (hi : Visitable tree i) (he : Edge features tree i j)
      (h : LeafPath (j :: p) l) : LeafPath (i :: j :: p) l

end Paths

variable {features : Fin maxFeatures → Fixed} {tree tree' : DtTree maxDtNodes}

theorem Edge.unique {i j j' : ℕ} (h : Edge features tree i j) (h' : Edge features tree i j') :
    j = j' := by
  obtain ⟨-, k, hk, hj⟩ := h
  obtain ⟨-, k', hk', hj'⟩ := h'
  have hkk : k = k' := Fin.ext (by omega)
  rw [hkk, ← hj'] at hj
  exact_mod_cast hj

/-- **At most one path starts at a node.** -/
theorem LeafPath.unique {p q : List ℕ} {l l' : Int32} (h : LeafPath features tree p l)
    (h' : LeafPath features tree q l') (hpq : p.head? = q.head?) : p = q ∧ l = l' := by
  induction h generalizing q with
  | leaf hi hl =>
    cases h' with
    | leaf hi' hl' =>
      obtain rfl := Option.some.inj hpq
      exact ⟨rfl, rfl⟩
    | edge hi' he' h' =>
      obtain rfl := Option.some.inj hpq
      exact absurd he'.1 hl
  | edge hi he h ih =>
    cases h' with
    | leaf hi' hl' =>
      obtain rfl := Option.some.inj hpq
      exact absurd he.1 hl'
    | edge hi' he' h' =>
      obtain rfl := Option.some.inj hpq
      obtain rfl := he.unique he'
      obtain ⟨hp, hl⟩ := ih h' rfl
      rw [hp]
      exact ⟨rfl, hl⟩

theorem LeafPath.visitable {i : ℕ} {p : List ℕ} {l : Int32}
    (h : LeafPath features tree (i :: p) l) : Visitable tree i := by
  cases h with
  | leaf hi _ => exact hi
  | edge hi _ _ => exact hi

/-- Paths only see the nodes below `num_nodes`. -/
theorem LeafPath.congr (hnum : tree'.numNodes = tree.numNodes)
    (hnode : ∀ i, i < tree.numNodes.toNat → tree'.node i = tree.node i) {p : List ℕ} {l : Int32}
    (h : LeafPath features tree p l) : LeafPath features tree' p l := by
  induction h with
  | leaf hi hl =>
    rw [← hnode _ hi.1] at hl ⊢
    exact .leaf (by rw [Visitable, hnum]; exact hi) hl
  | edge hi he h ih =>
    refine .edge (by rw [Visitable, hnum]; exact hi) ?_ ih
    rw [Edge, hnode _ hi.1]
    exact he

/-! ## The loop body takes the edges -/

theorem index_inRange_iff {i : Int32} {n : ℕ} (hn : n < 2 ^ 31) :
    ¬ (i < 0 ∨ i ≥ Int32.ofNat n) ↔ 0 ≤ i.toInt ∧ i.toInt < n := by
  rw [not_or, Int32.not_lt, ge_iff_le, Int32.not_le, Int32.le_iff_toInt_le, Int32.lt_iff_toInt_lt,
    Int32.toInt_ofNat_of_lt hn]
  rfl

theorem natCast_toNat_toUInt32 {i : Int32} (h : 0 ≤ i.toInt) :
    (i.toUInt32.toNat : ℤ) = i.toInt := by
  rw [Int32.toNat_toUInt32_of_le (Int32.le_iff_toInt_le.mpr h), ← Int32.toNat_toInt]
  exact Int.toNat_of_nonneg h

theorem takeChild_eq_ok_iff {idx : Int32} {c : UInt32} :
    takeChild idx = .ok c ↔ (c.toNat : ℤ) = idx.toInt ∧ c.toNat < maxDtNodes := by
  have hr := @index_inRange_iff idx maxDtNodes (by decide)
  rw [takeChild]
  split_ifs with h
  · have hn := not_iff_not.mpr hr |>.mp (not_not.mpr h)
    constructor
    · intro hc
      cases hc
    · rintro ⟨hc, hlt⟩
      exact absurd ⟨by omega, by omega⟩ hn
  · have hidx := natCast_toNat_toUInt32 (hr.mp h).1
    have hlt := (hr.mp h).2
    constructor
    · intro hc
      cases hc
      exact ⟨hidx, by omega⟩
    · rintro ⟨hc, -⟩
      congr 1
      apply UInt32.toNat_inj.mp
      omega

theorem featureAt_of_toInt_eq {idx : Int32} {k : Fin maxFeatures} (h : idx.toInt = (k : ℕ)) :
    featureAt features idx = features k := by
  have hn := natCast_toNat_toUInt32 (i := idx) (by omega)
  have hk : idx.toUInt32.toNat = k := by omega
  rw [featureAt, dif_pos (by rw [hk]; exact k.isLt)]
  congr 1
  exact Fin.ext hk

theorem visitNode_of_feature {node : DtNode} {k : Fin maxFeatures} (hl : node.isLeaf = 0)
    (hk : node.featureIdx.toInt = (k : ℕ)) :
    visitNode features node =
      if features k ≤ node.splitValue then takeChild node.leftIdx else takeChild node.rightIdx := by
  have hr := (@index_inRange_iff node.featureIdx maxFeatures (by decide)).mpr
    ⟨by omega, by omega⟩
  rw [visitNode, if_neg (not_not.mpr hl), if_neg hr, featureAt_of_toInt_eq hk]

/-- **The loop body takes exactly the edges** to indices of the node array. -/
theorem visitNode_eq_ok_iff {i : ℕ} {c : UInt32} :
    visitNode features (tree.node i) = .ok c ↔
      Edge features tree i c.toNat ∧ c.toNat < maxDtNodes := by
  by_cases hl : (tree.node i).isLeaf = 0
  · have hr := @index_inRange_iff (tree.node i).featureIdx maxFeatures (by decide)
    by_cases hf : 0 ≤ (tree.node i).featureIdx.toInt ∧ (tree.node i).featureIdx.toInt < maxFeatures
    · obtain ⟨k, hk⟩ : ∃ k : Fin maxFeatures, (tree.node i).featureIdx.toInt = (k : ℕ) :=
        ⟨⟨(tree.node i).featureIdx.toInt.toNat, by omega⟩, (Int.toNat_of_nonneg hf.1).symm⟩
      have hedge : Edge features tree i c.toNat ↔
          (c.toNat : ℤ) = if features k ≤ (tree.node i).splitValue then
            (tree.node i).leftIdx.toInt else (tree.node i).rightIdx.toInt := by
        constructor
        · rintro ⟨-, k', hk', hc⟩
          rwa [show k = k' from Fin.ext (by omega)]
        · intro hc
          exact ⟨hl, k, hk, hc⟩
      rw [visitNode_of_feature hl hk, hedge]
      split_ifs
      · exact takeChild_eq_ok_iff
      · exact takeChild_eq_ok_iff
    · have hout := not_not.mp (mt hr.mp hf)
      rw [visitNode, if_neg (not_not.mpr hl), if_pos hout]
      constructor
      · intro hc
        cases hc
      · rintro ⟨⟨-, k, hk, -⟩, -⟩
        exact absurd ⟨by omega, by omega⟩ hf
  · rw [visitNode, if_pos hl]
    constructor
    · intro hc
      cases hc
    · rintro ⟨⟨hz, -⟩, -⟩
      exact absurd hz hl

theorem visitNode_eq_leaf_iff {node : DtNode} {l : Int32} :
    visitNode features node = .error (.leaf l) ↔ node.isLeaf ≠ 0 ∧ node.label = l := by
  by_cases hl : node.isLeaf = 0
  · rw [visitNode, if_neg (not_not.mpr hl)]
    unfold takeChild
    split_ifs <;> simp [hl]
  · rw [visitNode, if_pos hl]
    simp [hl]

/-! ## The loop finds the paths -/

/-- **The loop finds exactly the paths** with fewer edges than it has iterations left. -/
theorem predictLoop_eq_leaf_iff {n : ℕ} {i : UInt32} {l : Int32} :
    predictLoop features tree n i = .leaf l ↔
      ∃ p, LeafPath features tree (i.toNat :: p) l ∧ p.length < n := by
  induction n generalizing i with
  | zero => simp [predictLoop]
  | succ n ih =>
    by_cases hi : Visitable tree i.toNat
    · rw [predictLoop, if_neg (not_outOfBounds (UInt32.lt_iff_toNat_lt.mpr hi.1) hi.2)]
      constructor
      · intro h
        cases hv : visitNode features (tree.node i.toNat) with
        | error e =>
          rw [hv] at h
          obtain rfl : e = .leaf l := h
          obtain ⟨hl, rfl⟩ := visitNode_eq_leaf_iff.mp hv
          exact ⟨[], .leaf hi hl, Nat.succ_pos n⟩
        | ok c =>
          rw [hv] at h
          obtain ⟨p, hp, hlen⟩ := ih.mp h
          exact ⟨c.toNat :: p, .edge hi (visitNode_eq_ok_iff.mp hv).1 hp, Nat.succ_lt_succ hlen⟩
      · rintro ⟨p, hp, hlen⟩
        cases hp with
        | leaf _ hl => rw [visitNode_eq_leaf_iff.mpr ⟨hl, rfl⟩]
        | @edge _ j p _ _ he hp =>
          have hj : j < maxDtNodes := hp.visitable.2
          have hc : (UInt32.ofNat j).toNat = j := by
            rw [UInt32.toNat_ofNat']
            exact Nat.mod_eq_of_lt (hj.trans (by decide))
          have hv : visitNode features (tree.node i.toNat) = .ok (UInt32.ofNat j) :=
            visitNode_eq_ok_iff.mpr (by rw [hc]; exact ⟨he, hj⟩)
          rw [hv]
          exact ih.mpr ⟨p, by rw [hc]; exact hp, Nat.lt_of_succ_lt_succ hlen⟩
    · have hout : i ≥ tree.numNodes ∨ i.toNat ≥ maxDtNodes := by
        rw [ge_iff_le, UInt32.le_iff_toNat_le]
        by_contra hc
        exact hi ⟨by omega, by omega⟩
      rw [predictLoop, if_pos hout]
      constructor
      · intro h
        cases h
      · rintro ⟨p, hp, -⟩
        exact absurd hp.visitable hi

theorem predictExit_eq_leaf_iff {l : Int32} :
    predictExit features (some tree) = .leaf l ↔
      ∃ p, LeafPath features tree (0 :: p) l ∧ p.length ≤ maxDtDepth - 1 := by
  have hlen : ∀ p : List ℕ, p.length ≤ maxDtDepth - 1 ↔ p.length < maxDtDepth := by
    intro p
    unfold maxDtDepth
    omega
  by_cases hz : tree.numNodes = 0
  · rw [predictExit, if_pos hz]
    constructor
    · intro h
      cases h
    · rintro ⟨p, hp, -⟩
      have hi : Visitable tree 0 := hp.visitable
      rw [Visitable, hz] at hi
      exact absurd hi.1 (Nat.lt_irrefl 0)
  · rw [predictExit, if_neg hz, predictLoop_eq_leaf_iff]
    simp only [hlen]
    rfl

theorem Exit.value_of_ne_leaf {e : Exit} (h : ∀ l, e ≠ .leaf l) : e.value = 0 := by
  cases e with
  | leaf l => exact absurd rfl (h l)
  | _ => rfl

/-- Trees with the same nodes below `num_nodes` are left through the same leaf, if any. -/
theorem predictExit_value_congr (hnum : tree'.numNodes = tree.numNodes)
    (hnode : ∀ i, i < tree.numNodes.toNat → tree'.node i = tree.node i) :
    (predictExit features (some tree')).value = (predictExit features (some tree)).value := by
  have hiff : ∀ l, predictExit features (some tree') = .leaf l ↔
      predictExit features (some tree) = .leaf l := by
    intro l
    rw [predictExit_eq_leaf_iff, predictExit_eq_leaf_iff]
    have hnode' : ∀ i, i < tree'.numNodes.toNat → tree.node i = tree'.node i := fun i hi =>
      (hnode i (by rwa [hnum] at hi)).symm
    exact exists_congr fun p => and_congr_left' ⟨.congr hnum.symm hnode', .congr hnum hnode⟩
  by_cases h : ∃ l, predictExit features (some tree) = .leaf l
  · obtain ⟨l, hl⟩ := h
    rw [hl, (hiff l).mpr hl]
  · have hno : ∀ l, predictExit features (some tree) ≠ .leaf l := fun l hl => h ⟨l, hl⟩
    rw [Exit.value_of_ne_leaf hno, Exit.value_of_ne_leaf fun l hl => hno l ((hiff l).mp hl)]

/-- **`predict_dt` on every tree**: a path of at most `MAX_DT_DEPTH - 1` edges from node `0` to a
leaf is unique and its label is returned; without one the result is `0`; and nothing but the
features and the nodes below `num_nodes` matters. -/
theorem predictDt_eq_label_of_path (dp : DataPoint) (tree : DtTree maxDtNodes) :
    (∀ p l, LeafPath dp.features tree (0 :: p) l → p.length ≤ maxDtDepth - 1 →
      predictDt dp (some tree) = l ∧ ∀ q l', LeafPath dp.features tree (0 :: q) l' → q = p) ∧
    ((¬ ∃ p l, LeafPath dp.features tree (0 :: p) l ∧ p.length ≤ maxDtDepth - 1) →
      predictDt dp (some tree) = 0) ∧
    (∀ (dp' : DataPoint) (tree' : DtTree maxDtNodes), dp'.features = dp.features →
      tree'.numNodes = tree.numNodes →
      (∀ i, i < tree.numNodes.toNat → tree'.node i = tree.node i) →
      predictDt dp' (some tree') = predictDt dp (some tree)) := by
  refine ⟨fun p l hp hlen => ⟨?_, fun q l' hq => ?_⟩, fun hno => ?_,
    fun dp' tree' hf hnum hnode => ?_⟩
  · rw [predictDt, predictExit_eq_leaf_iff.mpr ⟨p, hp, hlen⟩]
    rfl
  · exact List.tail_eq_of_cons_eq (hq.unique hp rfl).1
  · apply Exit.value_of_ne_leaf
    intro l hl
    obtain ⟨p, hp, hlen⟩ := predictExit_eq_leaf_iff.mp hl
    exact hno ⟨p, l, hp, hlen⟩
  · rw [predictDt, predictDt, hf]
    exact predictExit_value_congr hnum hnode

/-- A tree of one comparison, with an anomaly on its left. -/
def stump : DtTree maxDtNodes where
  nodes i :=
    if (i : ℕ) = 0 then ⟨1, 2, 0, 0, 0, -1⟩
    else ⟨-1, -1, 0, -2, 1, if (i : ℕ) = 1 then 1 else 0⟩
  numNodes := 3
  minVals := fun _ => 0
  maxVals := fun _ => 0

theorem predictDt_stump :
    predictDt ⟨0, 0, 0, 1, 0, 0, 0, fun _ => 0, 0⟩ (some stump) = 1 ∧
      ∀ q l', LeafPath (fun _ => 0) stump (0 :: q) l' → q = [1] :=
  (predictDt_eq_label_of_path ⟨0, 0, 0, 1, 0, 0, 0, fun _ => 0, 0⟩ stump).1 [1] 1
    (.edge ⟨by decide, by decide⟩ ⟨by decide, featureFlowDuration, by decide, by decide⟩
      (.leaf ⟨by decide, by decide⟩ (by decide)))
    (by decide)

end XdpDetector

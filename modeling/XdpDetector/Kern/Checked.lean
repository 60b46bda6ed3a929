import XdpDetector.Kern.Accept
import XdpDetector.Kern.Detector
import XdpDetector.Kern.Paths
import Mathlib.Data.Fintype.Basic
import Mathlib.Tactic.FinCases

/-!
# The entry point with checked accesses

The program once more, with every load from the frame and every access to `tree->nodes` and
`dp->features` checked: an access out of range makes the whole call `none`. Nothing else changes,
so that a call that is never `none` stays in range and computes what the unchecked model computes.

* `Frame.byte?`, `Frame.load16?`, `Frame.load32?`, `DtTree.node?`, `featureAt?`, `setFeature?`: the
  checked accesses;
* `parsePacketGetData?`, `predictDt?`, `updateStats?`, `xdpAnomalyDetector?`: the functions over
  them, each with the lemma that it never fails;
* **`detector_in_range`**: the entry point never fails.
-/

namespace XdpDetector

open ByteFmt

/-! ## Checked accesses -/

namespace Frame

variable (f : Frame)

def byte? (off : ℕ) : Option UInt8 := f.bytes[off]?

def load16? (off : ℕ) : Option UInt16 := do
  let b₀ ← f.byte? off
  let b₁ ← f.byte? (off + 1)
  return UInt16.ofNat (ofLe [b₀, b₁])

def load32? (off : ℕ) : Option UInt32 := do
  let b₀ ← f.byte? off
  let b₁ ← f.byte? (off + 1)
  let b₂ ← f.byte? (off + 2)
  let b₃ ← f.byte? (off + 3)
  return UInt32.ofNat (ofLe [b₀, b₁, b₂, b₃])

variable {f} {off : ℕ}

theorem byte?_of_lt (h : off < f.bytes.length) : f.byte? off = some (f.byte off) :=
  getElem?_eq_byte h

theorem load16?_of_le (h : off + 2 ≤ f.bytes.length) : f.load16? off = some (f.load16 off) := by
  rw [load16?, byte?_of_lt (by omega), byte?_of_lt (by omega), load16,
    drop_eq_byte_cons (by omega), drop_eq_byte_cons (by omega)]
  rfl

theorem load32?_of_le (h : off + 4 ≤ f.bytes.length) : f.load32? off = some (f.load32 off) := by
  rw [load32?, byte?_of_lt (by omega), byte?_of_lt (by omega), byte?_of_lt (by omega),
    byte?_of_lt (by omega), load32, drop_eq_byte_cons (by omega), drop_eq_byte_cons (by omega),
    drop_eq_byte_cons (by omega), drop_eq_byte_cons (by omega)]
  rfl

end Frame

/-- `tree->nodes[i]`. -/
def DtTree.node? {cap : ℕ} (tree : DtTree cap) (i : ℕ) : Option DtNode :=
  if h : i < cap then some (tree.nodes ⟨i, h⟩) else none

/-- `dp->features[i]`, for a signed index. -/
def featureAt? (features : Fin maxFeatures → Fixed) (i : Int32) : Option Fixed :=
  if h : 0 ≤ i.toInt ∧ i.toInt.toNat < maxFeatures then some (features ⟨i.toInt.toNat, h.2⟩)
  else none

/-- `dp->features[i] = v`. -/
def setFeature? (features : Fin maxFeatures → Fixed) (i : ℕ) (v : Fixed) :
    Option (Fin maxFeatures → Fixed) :=
  if h : i < maxFeatures then some (Function.update features ⟨i, h⟩ v) else none

theorem DtTree.node?_of_lt {cap : ℕ} {tree : DtTree cap} {i : ℕ} (h : i < cap) :
    tree.node? i = some (tree.node i) := by
  rw [node?, node, dif_pos h, dif_pos h]

theorem featureAt?_of_inRange {features : Fin maxFeatures → Fixed} {i : Int32}
    (h : ¬ (i < 0 ∨ i ≥ Int32.ofNat maxFeatures)) :
    featureAt? features i = some (featureAt features i) := by
  obtain ⟨h0, h6⟩ := (index_inRange_iff (by decide)).mp h
  have hlt : i.toInt.toNat < maxFeatures := by omega
  rw [featureAt?, dif_pos ⟨h0, hlt⟩]
  congr 1
  exact (@featureAt_of_toInt_eq features i ⟨i.toInt.toNat, hlt⟩ (Int.toNat_of_nonneg h0).symm).symm

/-! ## The parser -/

section Parser

variable (f : Frame) (key : FlowKey) (pktLen : UInt64)

/-- `(__u8 *)iph + iph->ihl * 4`, reading the header length. -/
def transportOff? : Option ℕ := do
  let b ← f.byte? sizeofEthhdr
  return sizeofEthhdr + (b &&& 0xf).toNat * 4

/-- The two ports behind a header of `size` bytes, or the refusal of a header that does not fit. -/
def portsAt? (size : ℕ) : Option Parsed := do
  let off ← transportOff? f
  if off + size > f.bytes.length then return ⟨-1, key, pktLen⟩
  else
    let sport ← f.load16? off
    let dport ← f.load16? (off + 2)
    return ⟨0, { key with srcPort := bpfNtohs sport, dstPort := bpfNtohs dport }, f.len⟩

def parsePorts? : Option Parsed :=
  if key.proto = ipprotoTcp then portsAt? f key pktLen sizeofTcphdr
  else if key.proto = ipprotoUdp then portsAt? f key pktLen sizeofUdphdr
  else return ⟨0, { key with srcPort := bpfNtohs 0, dstPort := bpfNtohs 0 }, f.len⟩

def parseTransport? : Option Parsed :=
  if key.proto = ipprotoIcmp then do
    let off ← transportOff? f
    if off + sizeofIcmphdr > f.bytes.length then return ⟨-1, key, pktLen⟩
    else
      let saddr ← f.load32? (sizeofEthhdr + 12)
      let daddr ← f.load32? (sizeofEthhdr + 16)
      let type ← f.byte? off
      if isLabEcho saddr daddr type then return ⟨1, key, pktLen⟩
      else parsePorts? f key pktLen
  else parsePorts? f key pktLen

def parsePacketGetData? : Option Parsed :=
  if sizeofEthhdr > f.bytes.length then return ⟨-1, key, pktLen⟩
  else do
    let hProto ← f.load16? 12
    if hProto = bpfNtohs ethPLldp then return ⟨-2, key, pktLen⟩
    else if hProto ≠ bpfNtohs ethPIp then return ⟨-1, key, pktLen⟩
    else if sizeofEthhdr + sizeofIphdr > f.bytes.length then return ⟨-1, key, pktLen⟩
    else
      let saddr ← f.load32? (sizeofEthhdr + 12)
      let daddr ← f.load32? (sizeofEthhdr + 16)
      let proto ← f.byte? (sizeofEthhdr + 9)
      parseTransport? f { key with srcIp := saddr, dstIp := daddr, proto := proto } pktLen

variable {f}

theorem transportOff?_of_le (h : 34 ≤ f.bytes.length) :
    transportOff? f = some (transportOff f) := by
  rw [transportOff?, Frame.byte?_of_lt (by unfold sizeofEthhdr; omega)]
  rfl

theorem portsAt?_of_le (h : 34 ≤ f.bytes.length) {size : ℕ} (h4 : 4 ≤ size) :
    portsAt? f key pktLen size = some
      (if transportOff f + size > f.bytes.length then ⟨-1, key, pktLen⟩
      else ⟨0, { key with
        srcPort := bpfNtohs (f.load16 (transportOff f))
        dstPort := bpfNtohs (f.load16 (transportOff f + 2)) }, f.len⟩) := by
  rw [portsAt?, transportOff?_of_le h]
  by_cases hlen : transportOff f + size > f.bytes.length
  · simp [hlen]
  · simp [hlen, Frame.load16?_of_le (show transportOff f + 2 ≤ f.bytes.length by omega),
      Frame.load16?_of_le (show transportOff f + 2 + 2 ≤ f.bytes.length by omega)]

theorem parsePorts?_of_le (h : 34 ≤ f.bytes.length) :
    parsePorts? f key pktLen = some (parsePorts f key pktLen) := by
  unfold parsePorts? parsePorts
  by_cases ht : key.proto = ipprotoTcp
  · rw [if_pos ht, portsAt?_of_le key pktLen h (by decide), if_pos ht]
  by_cases hu : key.proto = ipprotoUdp
  · rw [if_neg ht, if_pos hu, portsAt?_of_le key pktLen h (by decide), if_neg ht, if_pos hu]
  · simp only [if_neg ht, if_neg hu]
    rfl

theorem parseTransport?_of_le (h : 34 ≤ f.bytes.length) (hsrc : key.srcIp = f.load32 26)
    (hdst : key.dstIp = f.load32 30) :
    parseTransport? f key pktLen = some (parseTransport f key pktLen) := by
  unfold parseTransport? parseTransport
  by_cases hi : key.proto = ipprotoIcmp
  · rw [if_pos hi, if_pos hi, transportOff?_of_le h]
    by_cases hlen : transportOff f + sizeofIcmphdr > f.bytes.length
    · simp [hlen]
    · unfold sizeofIcmphdr at *
      simp only [hlen, hsrc, hdst, if_false, parsePorts?_of_le key pktLen h, sizeofEthhdr,
        Frame.load32?_of_le (show 26 + 4 ≤ f.bytes.length by omega),
        Frame.load32?_of_le (show 30 + 4 ≤ f.bytes.length by omega),
        Frame.byte?_of_lt (show transportOff f < f.bytes.length by omega), Option.bind_eq_bind,
        Option.bind_some]
      split_ifs <;> rfl
  · rw [if_neg hi, if_neg hi]
    exact parsePorts?_of_le key pktLen h

/-- **The parser stays inside the frame.** -/
theorem parsePacketGetData?_eq :
    parsePacketGetData? f key pktLen = some (parsePacketGetData f key pktLen) := by
  unfold parsePacketGetData? parsePacketGetData
  by_cases h14 : sizeofEthhdr > f.bytes.length
  · rw [if_pos h14, if_pos h14]
    rfl
  rw [if_neg h14, if_neg h14, Frame.load16?_of_le (by unfold sizeofEthhdr at h14; omega)]
  simp only [Option.bind_eq_bind, Option.bind_some]
  by_cases h34 : sizeofEthhdr + sizeofIphdr > f.bytes.length
  · simp only [if_pos h34]
    split_ifs <;> rfl
  unfold sizeofEthhdr sizeofIphdr at h34
  simp only [sizeofEthhdr, sizeofIphdr, h34, if_false,
    Frame.load32?_of_le (show 26 + 4 ≤ f.bytes.length by omega),
    Frame.load32?_of_le (show 30 + 4 ≤ f.bytes.length by omega),
    Frame.byte?_of_lt (show 23 < f.bytes.length by omega), Option.bind_some]
  rw [parseTransport?_of_le _ pktLen (by omega) rfl rfl]
  split_ifs <;> rfl

end Parser

/-! ## The tree -/

section Predict

variable (features : Fin maxFeatures → Fixed) (tree : DtTree maxDtNodes)

def visitNode? (node : DtNode) : Option (Except Exit UInt32) :=
  if node.isLeaf ≠ 0 then return .error (.leaf node.label)
  else if node.featureIdx < 0 ∨ node.featureIdx ≥ Int32.ofNat maxFeatures then
    return .error .badFeature
  else do
    let rawFeat ← featureAt? features node.featureIdx
    return if rawFeat ≤ node.splitValue then takeChild node.leftIdx else takeChild node.rightIdx

def predictLoop? : ℕ → UInt32 → Option Exit
  | 0, _ => return .tooDeep
  | depth + 1, nodeIdx =>
    if nodeIdx ≥ tree.numNodes ∨ nodeIdx.toNat ≥ maxDtNodes then return .outOfBounds
    else do
      let node ← tree.node? nodeIdx.toNat
      match ← visitNode? features node with
      | .error e => return e
      | .ok child => predictLoop? depth child

def predictExit? : Option (DtTree maxDtNodes) → Option Exit
  | none => return .notLoaded
  | some tree =>
    if tree.numNodes = 0 then return .notLoaded else predictLoop? features tree maxDtDepth 0

def predictDt? (dp : DataPoint) (tree : Option (DtTree maxDtNodes)) : Option Int32 := do
  let exit ← predictExit? dp.features tree
  return exit.value

variable {features tree}

theorem visitNode?_eq (node : DtNode) :
    visitNode? features node = some (visitNode features node) := by
  unfold visitNode? visitNode
  by_cases hl : node.isLeaf ≠ 0
  · rw [if_pos hl, if_pos hl]
    rfl
  by_cases hf : node.featureIdx < 0 ∨ node.featureIdx ≥ Int32.ofNat maxFeatures
  · rw [if_neg hl, if_pos hf, if_neg hl, if_pos hf]
    rfl
  · rw [if_neg hl, if_neg hf, if_neg hl, if_neg hf, featureAt?_of_inRange hf]
    rfl

theorem predictLoop?_eq (depth : ℕ) (nodeIdx : UInt32) :
    predictLoop? features tree depth nodeIdx = some (predictLoop features tree depth nodeIdx) := by
  induction depth generalizing nodeIdx with
  | zero => rfl
  | succ depth ih =>
    rw [predictLoop?, predictLoop]
    split_ifs with h
    · rfl
    · have hlt : nodeIdx.toNat < maxDtNodes := not_le.mp fun hc => h (Or.inr hc)
      rw [DtTree.node?_of_lt hlt]
      simp only [Option.bind_eq_bind, Option.bind_some, visitNode?_eq]
      cases visitNode features (tree.node nodeIdx.toNat) with
      | error e => rfl
      | ok child => exact ih child

/-- **The walk stays inside the node array and the features.** -/
theorem predictDt?_eq (dp : DataPoint) (tree : Option (DtTree maxDtNodes)) :
    predictDt? dp tree = some (predictDt dp tree) := by
  have hexit : predictExit? dp.features tree = some (predictExit dp.features tree) := by
    cases tree with
    | none => rfl
    | some tree =>
      rw [predictExit?, predictExit, predictLoop?_eq]
      split_ifs <;> rfl
  rw [predictDt?, hexit]
  rfl

end Predict

/-! ## The statistics -/

/-- `for (i = 0; i < MAX_FEATURES; i++) zero.features[i] = 0`. -/
def clearFeatures? (features : Fin maxFeatures → Fixed) : Option (Fin maxFeatures → Fixed) :=
  (List.range maxFeatures).foldlM (fun features i => setFeature? features i 0) features

/-- The six stores into `dp->features`. -/
def computeFeatures? (dp : DataPoint) : Option (Fin maxFeatures → Fixed) := do
  let fs ← setFeature? dp.features featureFlowDuration (fixedFromUint (durationUs dp))
  let fs ← setFeature? fs featureTotalFwdPacket (fixedFromUint dp.totalPkts.toUInt64)
  let fs ← setFeature? fs featureTotalLengthOfFwdPacket (fixedFromUint dp.totalBytes.toUInt64)
  let fs ← setFeature? fs featureFwdPacketLengthMax (fixedFromUint dp.maxPktLen.toUInt64)
  let fs ← setFeature? fs featureFwdPacketLengthMin (fixedFromUint dp.minPktLen.toUInt64)
  setFeature? fs featureFwdIatMin (fixedFromUint (iatUs dp))

theorem setFeature?_fin (features : Fin maxFeatures → Fixed) (i : Fin maxFeatures) (v : Fixed) :
    setFeature? features i v = some (Function.update features i v) := dif_pos i.isLt

theorem computeFeatures?_eq (dp : DataPoint) :
    computeFeatures? dp = some (computeFeatures dp) := by
  simp only [computeFeatures?, setFeature?_fin, Option.bind_eq_bind, Option.bind_some]
  congr 1
  funext i
  fin_cases i <;> rfl

theorem clearFeatures?_eq (features : Fin maxFeatures → Fixed) :
    clearFeatures? features = some fun _ => 0 := by
  show some _ = some _
  congr 1
  funext i
  fin_cases i <;> rfl

def newFlow? (tsNs pktLen : UInt64) : Option DataPoint := do
  let features ← clearFeatures? fun _ => 0
  return { newFlow tsNs pktLen with features := features }

def labelOf? (dp : DataPoint) : Option (DtTree maxDtNodes) → Option Int32
  | some tree => predictDt? dp (some tree)
  | none => return 0

def classify? (dp : DataPoint) (tsNs : UInt64) (tree : Option (DtTree maxDtNodes)) :
    Option DataPoint := do
  let dp := { dp with lastSeen := tsNs }
  let features ← computeFeatures? dp
  let dp := { dp with features := features }
  let label ← labelOf? dp tree
  return { dp with label := label }

def finishFlow? (s : Maps) (key : FlowKey) (dp : DataPoint) (tsNs : UInt64) : Option Maps := do
  let dp ← classify? dp tsNs (s.dtMap.lookup 0)
  return { s with xdpFlowTracking := writeBack s.xdpFlowTracking key dp }

def updateStats? (s : Maps) (key : FlowKey) (tsNs pktLen : UInt64) : Option (XdpAction × Maps) :=
  match s.xdpFlowTracking.lookup key with
  | none => do
    let zero ← newFlow? tsNs pktLen
    match s.xdpFlowTracking.update key zero with
    | none => return (.pass, s)
    | some flows =>
      match flows.lookup key with
      | none => return (.pass, { s with xdpFlowTracking := flows })
      | some dp =>
        let s ← finishFlow? { s with xdpFlowTracking := flows } key dp tsNs
        return (.pass, s)
  | some dp => do
    let s ← finishFlow? s key (countPacket dp tsNs pktLen) tsNs
    return (.pass, s)

/-- `xdp_anomaly_detector`; `none` is an access out of range. -/
def xdpAnomalyDetector? (s : Maps) (x : Input) : Option (XdpAction × Maps) := do
  let p ← parsePacketGetData? x.frame FlowKey.zero 0
  if p.ret = -2 then return (.drop, s)
  else if p.ret < 0 then return (.pass, s)
  else
    let (ret, s) ← updateStats? s p.key x.tsNs x.frame.len
    match s.accountingMap.lookup 0 with
    | none => return (ret, s)
    | some ac =>
      return (ret,
        { s with accountingMap := s.accountingMap.update 0 (account ac x.timeOut p.pktLen) })

theorem newFlow?_eq (tsNs pktLen : UInt64) : newFlow? tsNs pktLen = some (newFlow tsNs pktLen) := by
  rw [newFlow?, clearFeatures?_eq]
  rfl

theorem finishFlow?_eq (s : Maps) (key : FlowKey) (dp : DataPoint) (tsNs : UInt64) :
    finishFlow? s key dp tsNs = some (finishFlow s key dp tsNs) := by
  have hlabel : ∀ (dp : DataPoint) tree, labelOf? dp tree = some (labelOf dp tree) := by
    intro dp tree
    cases tree with
    | none => rfl
    | some tree => exact predictDt?_eq dp (some tree)
  have hclass : ∀ tree, classify? dp tsNs tree = some (classify dp tsNs tree) := by
    intro tree
    simp only [classify?, computeFeatures?_eq, hlabel, Option.bind_eq_bind, Option.bind_some]
    rfl
  rw [finishFlow?, hclass]
  rfl

theorem updateStats?_eq (s : Maps) (key : FlowKey) (tsNs pktLen : UInt64) :
    updateStats? s key tsNs pktLen = some (updateStats s key tsNs pktLen) := by
  unfold updateStats? updateStats
  cases s.xdpFlowTracking.lookup key with
  | some dp =>
    simp only [finishFlow?_eq]
    rfl
  | none =>
    simp only [newFlow?_eq, Option.bind_eq_bind, Option.bind_some, finishFlow?_eq]
    cases s.xdpFlowTracking.update key (newFlow tsNs pktLen) with
    | none => rfl
    | some flows =>
      cases h : flows.lookup key with
      | none => simp only [h]; rfl
      | some dp => simp only [h]; rfl

/-- **No access out of range**, on any frame, table or tree. -/
theorem detector_in_range (s : Maps) (x : Input) :
    xdpAnomalyDetector? s x = some (xdpAnomalyDetector s x) := by
  unfold xdpAnomalyDetector? xdpAnomalyDetector
  simp only [parsePacketGetData?_eq, Option.bind_eq_bind, Option.bind_some, updateStats?_eq]
  split_ifs
  · rfl
  · rfl
  · cases (updateStats s (parsePacketGetData x.frame FlowKey.zero 0).key x.tsNs
      x.frame.len).2.accountingMap.lookup 0 <;> rfl

end XdpDetector

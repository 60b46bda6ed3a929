import XdpDetector.Kern.Parse
import XdpDetector.Kern.Predict
import XdpDetector.Lib.Maps
import XdpDetector.Lib.Run

/-!
# Flow statistics and the entry point

`update_stats` and `xdp_anomaly_detector` as functions on the three maps of the program. A pointer
returned by a lookup is modelled by its value, and the stores through it by `BoundedMap.store`.

* `newFlow`, `countPacket`, `computeFeatures`, `classify`: the parts of `update_stats`;
* `updateStats`, `xdpAnomalyDetector`: the functions;
* `nextEntry`: the entry a packet leaves behind, from the entry before it;
* **`lookup_detector`**, `size_detector`: all that a packet does to the flow table.
-/

namespace XdpDetector

inductive XdpAction
  | drop
  | pass
deriving DecidableEq

/-- The maps `dt_map`, `xdp_flow_tracking` and `accounting_map`. -/
structure Maps where
  dtMap : ArrayMap (DtTree maxDtNodes) 1
  xdpFlowTracking : BoundedMap FlowKey DataPoint maxFlowSaved
  accountingMap : ArrayMap Accounting 1

/-- What one call reads from outside: the frame and the clock, in `update_stats` (`tsNs`) and at
the end of the entry point (`timeOut`). -/
structure Input where
  frame : Frame
  tsNs : UInt64
  timeOut : UInt64

/-! ## The parts of `update_stats` -/

/-- The sentinel of `min_IAT`. -/
def noIAT : UInt64 := 0xFFFFFFFFFFFFFFFF

/-- The entry created for a new flow. -/
def newFlow (tsNs pktLen : UInt64) : DataPoint where
  startTs := tsNs
  lastSeen := tsNs
  minIAT := noIAT
  totalPkts := 1
  maxPktLen := pktLen.toUInt32
  minPktLen := pktLen.toUInt32
  totalBytes := pktLen.toUInt32
  features := fun _ => 0
  label := 0

def iatNs (dp : DataPoint) (tsNs : UInt64) : UInt64 :=
  if dp.lastSeen > 0 ∧ tsNs ≥ dp.lastSeen then tsNs - dp.lastSeen else 0

/-- The statistics of a packet of a known flow. -/
def countPacket (dp : DataPoint) (tsNs pktLen : UInt64) : DataPoint :=
  { dp with
    totalPkts := dp.totalPkts + 1
    totalBytes := dp.totalBytes + pktLen.toUInt32
    minIAT := if iatNs dp tsNs > 0 ∧ iatNs dp tsNs < dp.minIAT then iatNs dp tsNs else dp.minIAT
    maxPktLen := if pktLen > dp.maxPktLen.toUInt64 then pktLen.toUInt32 else dp.maxPktLen
    minPktLen := if pktLen < dp.minPktLen.toUInt64 then pktLen.toUInt32 else dp.minPktLen }

def durationUs (dp : DataPoint) : UInt64 := (dp.lastSeen - dp.startTs) / 1000

def iatUs (dp : DataPoint) : UInt64 := if dp.minIAT ≠ noIAT then dp.minIAT / 1000 else 0

/-- The six features, in the order of the `FEATURE_*` indices. -/
def computeFeatures (dp : DataPoint) : Fin maxFeatures → Fixed :=
  ![fixedFromUint (durationUs dp),
    fixedFromUint dp.totalPkts.toUInt64,
    fixedFromUint dp.totalBytes.toUInt64,
    fixedFromUint dp.maxPktLen.toUInt64,
    fixedFromUint dp.minPktLen.toUInt64,
    fixedFromUint (iatUs dp)]

/-- The label of a classified entry; without a tree it is `0`. -/
def labelOf (dp : DataPoint) : Option (DtTree maxDtNodes) → Int32
  | some tree => predictDt dp (some tree)
  | none => 0

/-- From `dp->last_seen = ts_ns` to the assignment of the label. -/
def classify (dp : DataPoint) (tsNs : UInt64) (tree : Option (DtTree maxDtNodes)) : DataPoint :=
  let dp := { dp with lastSeen := tsNs }
  let dp := { dp with features := computeFeatures dp }
  { dp with label := labelOf dp tree }

/-- Store through `dp`, then write the element back; a refused write-back leaves the stores. -/
def writeBack (flows : BoundedMap FlowKey DataPoint maxFlowSaved) (key : FlowKey) (dp : DataPoint) :
    BoundedMap FlowKey DataPoint maxFlowSaved :=
  ((flows.store key dp).update key dp).getD (flows.store key dp)

/-! ## The functions -/

/-- The common end of `update_stats`, for the element `dp` of `key`. -/
def finishFlow (s : Maps) (key : FlowKey) (dp : DataPoint) (tsNs : UInt64) : Maps :=
  { s with xdpFlowTracking :=
      writeBack s.xdpFlowTracking key (classify dp tsNs (s.dtMap.lookup 0)) }

/-- `update_stats`. -/
def updateStats (s : Maps) (key : FlowKey) (tsNs pktLen : UInt64) : XdpAction × Maps :=
  match s.xdpFlowTracking.lookup key with
  | none =>
    match s.xdpFlowTracking.update key (newFlow tsNs pktLen) with
    | none => (.pass, s)
    | some flows =>
      match flows.lookup key with
      | none => (.pass, { s with xdpFlowTracking := flows })
      | some dp => (.pass, finishFlow { s with xdpFlowTracking := flows } key dp tsNs)
  | some dp => (.pass, finishFlow s key (countPacket dp tsNs pktLen) tsNs)

def account (ac : Accounting) (timeOut pktLen : UInt64) : Accounting :=
  { ac with
    procTime := ac.procTime + (timeOut - ac.timeIn)
    totalBytes := ac.totalBytes + pktLen.toUInt32
    totalPkts := ac.totalPkts + 1 }

/-- `xdp_anomaly_detector`. -/
def xdpAnomalyDetector (s : Maps) (x : Input) : XdpAction × Maps :=
  let p := parsePacketGetData x.frame FlowKey.zero 0
  if p.ret = -2 then (.drop, s)
  else if p.ret < 0 then (.pass, s)
  else
    let (ret, s) := updateStats s p.key x.tsNs x.frame.len
    match s.accountingMap.lookup 0 with
    | none => (ret, s)
    | some ac =>
      (ret, { s with accountingMap := s.accountingMap.update 0 (account ac x.timeOut p.pktLen) })

/-! ## What a packet does to the flow table -/

/-- The entry a packet leaves behind. -/
def nextEntry (old : Option DataPoint) (tsNs pktLen : UInt64) (tree : DtTree maxDtNodes) :
    DataPoint :=
  classify (old.elim (newFlow tsNs pktLen) fun dp => countPacket dp tsNs pktLen) tsNs (some tree)

/-- The table has an entry for the key, or room for one. -/
def Admits (s : Maps) (key : FlowKey) : Prop :=
  (s.xdpFlowTracking.lookup key).isSome ∨ s.xdpFlowTracking.size < maxFlowSaved

instance (s : Maps) (key : FlowKey) : Decidable (Admits s key) := by unfold Admits; infer_instance

theorem writeBack_spec {flows : BoundedMap FlowKey DataPoint maxFlowSaved} {key : FlowKey}
    (h : (flows.lookup key).isSome) (dp : DataPoint) :
    (∀ k, (writeBack flows key dp).lookup k = if k = key then some dp else flows.lookup k) ∧
      (writeBack flows key dp).size = flows.size := by
  have hs : ((flows.store key dp).lookup key).isSome := by
    rw [BoundedMap.lookup_store, if_pos ⟨rfl, h⟩]; rfl
  obtain ⟨m, hm⟩ := Option.isSome_iff_exists.mp
    ((BoundedMap.update_isSome_iff (flows.store key dp) key dp).mpr (Or.inl hs))
  have he : writeBack flows key dp = m := by rw [writeBack, hm, Option.getD_some]
  rw [he]
  constructor
  · intro k
    rw [BoundedMap.lookup_update hm, BoundedMap.lookup_store]
    split_ifs with hk h'
    · rfl
    · exact absurd h'.1 hk
    · rfl
  · rw [BoundedMap.size_update hm, if_pos hs, BoundedMap.size_store]

section UpdateStats

variable (s : Maps) (key : FlowKey) (tsNs pktLen : UInt64)

/-- The other two maps stay. -/
theorem updateStats_maps : (updateStats s key tsNs pktLen).2 =
    { s with xdpFlowTracking := (updateStats s key tsNs pktLen).2.xdpFlowTracking } := by
  unfold updateStats
  split
  · split
    · rfl
    · split <;> rfl
  · rfl

theorem updateStats_refused (h : ¬ Admits s key) : updateStats s key tsNs pktLen = (.pass, s) := by
  have hle := s.xdpFlowTracking.size_le_cap
  have hn : s.xdpFlowTracking.lookup key = none :=
    Option.not_isSome_iff_eq_none.mp fun hc => h (Or.inl hc)
  have hu : s.xdpFlowTracking.update key (newFlow tsNs pktLen) = none := by
    refine (BoundedMap.update_eq_none_iff _ _ _).mpr ⟨hn, ?_⟩
    by_contra hc
    exact h (Or.inr (by omega))
  simp only [updateStats, hn, hu]

/-- **An admitted key** gets the next entry; every other entry stays. -/
theorem updateStats_admitted (h : Admits s key) :
    (∀ k, (updateStats s key tsNs pktLen).2.xdpFlowTracking.lookup k =
      if k = key then
        some (nextEntry (s.xdpFlowTracking.lookup key) tsNs pktLen (s.dtMap.slot 0))
      else s.xdpFlowTracking.lookup k) ∧
    (updateStats s key tsNs pktLen).2.xdpFlowTracking.size =
      if (s.xdpFlowTracking.lookup key).isSome then s.xdpFlowTracking.size
      else s.xdpFlowTracking.size + 1 := by
  cases hl : s.xdpFlowTracking.lookup key with
  | some dp =>
    have hsome : (s.xdpFlowTracking.lookup key).isSome := by rw [hl]; rfl
    simp only [updateStats, hl, finishFlow, ArrayMap.lookup_zero, nextEntry, Option.elim_some,
      Option.isSome_some, if_true]
    exact writeBack_spec hsome _
  | none =>
    obtain ⟨flows, hu⟩ := Option.isSome_iff_exists.mp
      ((BoundedMap.update_isSome_iff s.xdpFlowTracking key (newFlow tsNs pktLen)).mpr h)
    have hnew : flows.lookup key = some (newFlow tsNs pktLen) := by
      rw [BoundedMap.lookup_update hu, if_pos rfl]
    have hsize := BoundedMap.size_update hu
    rw [hl] at hsize
    obtain ⟨hw, hws⟩ := @writeBack_spec flows key (by rw [hnew]; rfl)
      (classify (newFlow tsNs pktLen) tsNs (some (s.dtMap.slot 0)))
    simp only [updateStats, hl, hu, hnew, finishFlow, ArrayMap.lookup_zero, nextEntry,
      Option.elim_none]
    refine ⟨fun k => ?_, hws.trans hsize⟩
    rw [hw, BoundedMap.lookup_update hu]
    split_ifs <;> rfl

end UpdateStats

section Detector

variable (s : Maps) (x : Input)

theorem detector_refused (h : x.frame.flowKey? = none) : (xdpAnomalyDetector s x).2 = s := by
  have hret : (parsePacketGetData x.frame FlowKey.zero 0).ret < 0 := Frame.flowKey?_eq_none.mp h
  simp only [xdpAnomalyDetector]
  split_ifs <;> rfl

/-- **An accepted packet** goes to the statistics and to the accounting record. -/
theorem detector_accepted {k : FlowKey} (h : x.frame.flowKey? = some k) :
    (xdpAnomalyDetector s x).2 =
      { s with
        xdpFlowTracking := (updateStats s k x.tsNs x.frame.len).2.xdpFlowTracking
        accountingMap := s.accountingMap.update 0
          (account (s.accountingMap.slot 0) x.timeOut x.frame.parsed.pktLen) } := by
  obtain ⟨hret, hkey⟩ := Frame.flowKey?_eq_some.mp h
  unfold Frame.parsed at hret hkey ⊢
  have h2 : (parsePacketGetData x.frame FlowKey.zero 0).ret ≠ -2 := by omega
  simp only [xdpAnomalyDetector, if_neg hret, if_neg h2, hkey, ArrayMap.lookup_zero]
  rw [updateStats_maps]

theorem detector_dtMap : (xdpAnomalyDetector s x).2.dtMap = s.dtMap := by
  cases h : x.frame.flowKey? with
  | none => rw [detector_refused s x h]
  | some k => rw [detector_accepted s x h]

/-- **All that a packet does to the flow table.** -/
theorem lookup_detector (k : FlowKey) :
    (xdpAnomalyDetector s x).2.xdpFlowTracking.lookup k =
      if x.frame.flowKey? = some k ∧ Admits s k then
        some (nextEntry (s.xdpFlowTracking.lookup k) x.tsNs x.frame.len (s.dtMap.slot 0))
      else s.xdpFlowTracking.lookup k := by
  cases h : x.frame.flowKey? with
  | none => rw [detector_refused s x h, if_neg (by simp)]
  | some key =>
    rw [detector_accepted s x h]
    by_cases ha : Admits s key
    · rw [(updateStats_admitted s key x.tsNs x.frame.len ha).1]
      by_cases hk : k = key
      · subst hk; rw [if_pos rfl, if_pos ⟨rfl, ha⟩]
      · rw [if_neg hk, if_neg fun hc => hk (Option.some.inj hc.1).symm]
    · rw [updateStats_refused s key x.tsNs x.frame.len ha, if_neg]
      rintro ⟨hc, hk⟩
      rw [Option.some.inj hc] at ha
      exact ha hk

theorem size_detector :
    (xdpAnomalyDetector s x).2.xdpFlowTracking.size =
      if ∃ k, x.frame.flowKey? = some k ∧ s.xdpFlowTracking.lookup k = none ∧
        s.xdpFlowTracking.size < maxFlowSaved
      then s.xdpFlowTracking.size + 1 else s.xdpFlowTracking.size := by
  cases h : x.frame.flowKey? with
  | none => rw [detector_refused s x h, if_neg (by simp)]
  | some key =>
    rw [detector_accepted s x h]
    by_cases ha : Admits s key
    · rw [(updateStats_admitted s key x.tsNs x.frame.len ha).2]
      cases hl : s.xdpFlowTracking.lookup key with
      | some dp =>
        rw [if_pos (by simp), if_neg]
        rintro ⟨k, hk, hn, -⟩
        rw [Option.some.inj hk] at hl
        rw [hl] at hn
        cases hn
      | none =>
        have hlt := ha.resolve_left (by simp [hl])
        rw [if_neg (by simp), if_pos ⟨key, rfl, hl, hlt⟩]
    · rw [updateStats_refused s key x.tsNs x.frame.len ha, if_neg]
      rintro ⟨k, hk, -, hlt⟩
      exact ha (Or.inr hlt)

end Detector

end XdpDetector

import XdpDetector.System

/-!
# Labels are only observed

The tree in `dt_map` decides the labels of the flows and nothing else: which packets pass, what is
counted and which flows are stored is the same under every model and every replacement of it.

* `verdict`, `verdicts`: the actions returned along a run;
* `DataPoint.unlabelled`, `Alike`: maps that differ in the tree and in labels only;
* `alike_packet`, `alike_reload`: events keep maps alike;
* **`labels_only_observed`**: two runs over the same packets.
-/

namespace XdpDetector

/-- The action returned for a packet. -/
def verdict (s : Maps) (x : Input) : XdpAction := (xdpAnomalyDetector s x).1

/-- The actions returned along a run, in order. -/
def verdicts : Maps → List Event → List XdpAction
  | _, [] => []
  | s, .packet x :: es => verdict s x :: verdicts (step s (.packet x)) es
  | s, .reload tree :: es => verdicts (step s (.reload tree)) es

def Event.input? : Event → Option Input
  | .packet x => some x
  | .reload _ => none

def DataPoint.unlabelled (dp : DataPoint) : DataPoint := { dp with label := 0 }

/-- **The same maps, but for the tree and the labels.** -/
structure Alike (s s' : Maps) : Prop where
  entries : ∀ k, (s.entry k).map DataPoint.unlabelled = (s'.entry k).map DataPoint.unlabelled
  size : s.xdpFlowTracking.size = s'.xdpFlowTracking.size
  accounting : s.accountingMap = s'.accountingMap

theorem Alike.refl (s : Maps) : Alike s s := ⟨fun _ => rfl, rfl, rfl⟩

theorem updateStats_verdict (s : Maps) (key : FlowKey) (tsNs pktLen : UInt64) :
    (updateStats s key tsNs pktLen).1 = .pass := by
  unfold updateStats
  split
  · split
    · rfl
    · split <;> rfl
  · rfl

/-- **The verdict is a matter of the frame**: LLDP is dropped, all else passes. -/
theorem verdict_eq (s : Maps) (x : Input) :
    verdict s x = if x.frame.parsed.ret = -2 then .drop else .pass := by
  unfold verdict xdpAnomalyDetector Frame.parsed
  dsimp only
  split_ifs
  · rfl
  · rfl
  · rw [ArrayMap.lookup_zero]
    exact updateStats_verdict s _ _ _

section Step

variable {s s' : Maps}

theorem Alike.isSome_iff (h : Alike s s') (k : FlowKey) :
    (s.entry k).isSome ↔ (s'.entry k).isSome := by
  rw [← Option.isSome_map (f := DataPoint.unlabelled), h.entries, Option.isSome_map]

theorem Alike.admits_iff (h : Alike s s') (k : FlowKey) : Admits s k ↔ Admits s' k := by
  unfold Admits
  rw [← Maps.entry, ← Maps.entry, h.isSome_iff, h.size]

theorem unlabelled_classify (dp : DataPoint) (tsNs : UInt64) (tree : Option (DtTree maxDtNodes)) :
    (classify dp tsNs tree).unlabelled =
      { dp with
        lastSeen := tsNs
        features := computeFeatures { dp with lastSeen := tsNs }
        label := 0 } := rfl

theorem countPacket_unlabelled (dp : DataPoint) (tsNs pktLen : UInt64) :
    countPacket dp.unlabelled tsNs pktLen = (countPacket dp tsNs pktLen).unlabelled := rfl

/-- The entry a packet leaves behind, but for its label, comes from the one before it. -/
theorem unlabelled_nextEntry {old old' : Option DataPoint}
    (h : old.map DataPoint.unlabelled = old'.map DataPoint.unlabelled) (tsNs pktLen : UInt64)
    (tree tree' : DtTree maxDtNodes) :
    (nextEntry old tsNs pktLen tree).unlabelled =
      (nextEntry old' tsNs pktLen tree').unlabelled := by
  have hc : ∀ dp dp' : DataPoint, dp.unlabelled = dp'.unlabelled →
      (classify dp tsNs (some tree)).unlabelled = (classify dp' tsNs (some tree')).unlabelled := by
    intro dp dp' hu
    have hf : ∀ (d : DataPoint) (t : Option (DtTree maxDtNodes)),
        (classify d tsNs t).unlabelled = (classify d.unlabelled tsNs none).unlabelled := by
      intro d t
      rw [unlabelled_classify, unlabelled_classify]
      rfl
    rw [hf dp, hf dp', hu]
  unfold nextEntry
  cases old with
  | none =>
    cases old' with
    | none => exact hc _ _ rfl
    | some dp' => cases h
  | some dp =>
    cases old' with
    | none => cases h
    | some dp' =>
      have hu : dp.unlabelled = dp'.unlabelled := Option.some.inj h
      refine hc _ _ ?_
      rw [Option.elim_some, Option.elim_some, ← countPacket_unlabelled, ← countPacket_unlabelled,
        hu]

/-- **A packet keeps maps alike.** -/
theorem alike_packet (h : Alike s s') (x : Input) :
    Alike (step s (.packet x)) (step s' (.packet x)) := by
  cases hx : x.frame.flowKey? with
  | none =>
    rw [step, step, detector_refused s x hx, detector_refused s' x hx]
    exact h
  | some key =>
    constructor
    · intro k
      by_cases hk : x.frame.flowKey? = some k
      · have he := Event.pkt?_packet hk
        by_cases ha : Admits s k
        · rw [lookup_step_of_pkt he ha, lookup_step_of_pkt he ((h.admits_iff k).mp ha)]
          exact congrArg some (unlabelled_nextEntry (h.entries k) _ _ _ _)
        · rw [lookup_step_of_refused ha, lookup_step_of_refused (mt (h.admits_iff k).mpr ha)]
          exact h.entries k
      · have hn : (Event.packet x).pkt? k = none := if_neg hk
        rw [lookup_step_of_none hn, lookup_step_of_none hn]
        exact h.entries k
    · have hlook : ∀ k, s.xdpFlowTracking.lookup k = none ↔ s'.xdpFlowTracking.lookup k = none := by
        intro k
        rw [← Option.not_isSome_iff_eq_none, ← Option.not_isSome_iff_eq_none]
        exact not_congr (h.isSome_iff k)
      rw [step, step, size_detector, size_detector, h.size]
      simp only [hlook]
    · rw [step, step, detector_accepted s x hx, detector_accepted s' x hx, h.accounting]

/-- A replacement of the tree leaves maps alike. -/
theorem alike_reload (h : Alike s s') (tree : DtTree maxDtNodes) :
    Alike (step s (.reload tree)) s' := ⟨h.entries, h.size, h.accounting⟩

end Step

theorem alike_run {s s' : Maps} (h : Alike s s') (es : List Event) :
    Alike (run s es) (run s' ((es.filterMap Event.input?).map .packet)) := by
  induction es using List.reverseRecOn with
  | nil => exact h
  | append_singleton es e ih =>
    rw [run_snoc, List.filterMap_append, List.map_append]
    cases e with
    | reload tree =>
      rw [show (([Event.reload tree].filterMap Event.input?).map Event.packet) = [] from rfl,
        List.append_nil]
      exact alike_reload ih tree
    | packet x =>
      rw [show (([Event.packet x].filterMap Event.input?).map Event.packet) = [.packet x] from rfl,
        run_snoc]
      exact alike_packet ih x

theorem verdicts_eq (s : Maps) (es : List Event) :
    verdicts s es = (es.filterMap Event.input?).map fun x =>
      if x.frame.parsed.ret = -2 then .drop else .pass := by
  induction es generalizing s with
  | nil => rfl
  | cons e es ih =>
    cases e with
    | reload tree => exact ih _
    | packet x => rw [verdicts, verdict_eq, ih]; rfl

/-- **Labels are only observed.** Two runs over the same packets, from any two trees and with any
replacements of the tree in between, return the same verdicts, leave the same accounting record
behind and store the same flows with the same statistics and features. -/
theorem labels_only_observed (tree tree' : DtTree maxDtNodes) (ac : Accounting)
    (es es' : List Event) (h : es.filterMap Event.input? = es'.filterMap Event.input?) :
    verdicts (start tree ac) es = verdicts (start tree' ac) es' ∧
      (run (start tree ac) es).accountingMap = (run (start tree' ac) es').accountingMap ∧
      ∀ k, ((run (start tree ac) es).entry k).map DataPoint.unlabelled =
        ((run (start tree' ac) es').entry k).map DataPoint.unlabelled := by
  have h1 := alike_run (Alike.refl (start tree ac)) es
  have hstart : Alike (start tree' ac) (start tree ac) := ⟨fun _ => rfl, rfl, rfl⟩
  have h2 := alike_run hstart es'
  rw [h] at h1
  refine ⟨?_, h1.accounting.trans h2.accounting.symm, fun k => ?_⟩
  · rw [verdicts_eq, verdicts_eq, h]
  · rw [h1.entries, h2.entries]

theorem labels_only_observed_alarm :
    let x : Input := ⟨udpFrame 1 emptyPayload, 1000, 2000⟩
    verdicts zeroMaps [.reload alarmTree, .packet x] = verdicts zeroMaps [.packet x] ∧
      (run zeroMaps [.reload alarmTree, .packet x]).accountingMap =
        (run zeroMaps [.packet x]).accountingMap ∧
      ∀ k, ((run zeroMaps [.reload alarmTree, .packet x]).entry k).map DataPoint.unlabelled =
        ((run zeroMaps [.packet x]).entry k).map DataPoint.unlabelled :=
  labels_only_observed (DtTree.zero maxDtNodes) (DtTree.zero maxDtNodes) Accounting.zero _ _ rfl

end XdpDetector

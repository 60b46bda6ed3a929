import XdpDetector.System
import XdpDetector.Lib.Admission

/-!
# Flows in order of arrival

The flow table in closed form. It holds the first `MAX_FLOW_SAVED` distinct keys that arrive, and
the entry of each is the one its flow would have left behind alone, whatever the other flows did
in between.

* `Event.key?`, `arrivals`: the keys of the accepted packets;
* `flowStep`, `alone`: a flow by itself, with the replacements of the tree;
* `FirstCome`, `firstCome_step`, **`firstCome_run`**: the closed form, along every run;
* `flow_table_first_come`, `interleaving_irrelevant`: the table, and the order of other flows.
-/

namespace XdpDetector

open Admission

/-- The key of an accepted packet. -/
def Event.key? : Event → Option FlowKey
  | .packet x => x.frame.flowKey?
  | .reload _ => none

def arrivals (es : List Event) : List FlowKey := es.filterMap Event.key?

/-- One event for flow `k` alone: the tree in `dt_map` and the entry of the flow. -/
def flowStep (k : FlowKey) (s : DtTree maxDtNodes × Option DataPoint) :
    Event → DtTree maxDtNodes × Option DataPoint
  | .packet x =>
    if x.frame.flowKey? = some k then (s.1, some (nextEntry s.2 x.tsNs x.frame.len s.1)) else s
  | .reload tree => (tree, s.2)

/-- **The flow `k` by itself**, over the events of a run. -/
def alone (tree : DtTree maxDtNodes) (k : FlowKey) (es : List Event) :
    DtTree maxDtNodes × Option DataPoint :=
  Run.run (flowStep k) (tree, none) es

theorem alone_snoc (tree : DtTree maxDtNodes) (k : FlowKey) (es : List Event) (e : Event) :
    alone tree k (es ++ [e]) = flowStep k (alone tree k es) e := Run.run_snoc _ _ es e

theorem arrivals_snoc (es : List Event) (e : Event) :
    arrivals (es ++ [e]) = arrivals es ++ e.key?.toList := by
  rw [arrivals, List.filterMap_append]
  cases h : e.key? <;> simp [arrivals, h]

/-- A flow by itself has an entry from its first packet on. -/
theorem alone_isSome_iff (tree : DtTree maxDtNodes) (k : FlowKey) (es : List Event) :
    (alone tree k es).2.isSome ↔ k ∈ arrivals es := by
  induction es using List.reverseRecOn with
  | nil => simp [alone, arrivals]
  | append_singleton es e ih =>
    rw [alone_snoc, arrivals_snoc, List.mem_append, ← ih]
    cases e with
    | reload tree' => simp [flowStep, Event.key?]
    | packet x =>
      by_cases hk : x.frame.flowKey? = some k
      · simp [flowStep, Event.key?, hk]
      · simp [flowStep, Event.key?, hk]

/-! ## The closed form -/

/-- **The flow table in closed form.** -/
structure FirstCome (tree : DtTree maxDtNodes) (es : List Event) (s : Maps) : Prop where
  tree_eq : ∀ k, (alone tree k es).1 = s.tree
  size_eq : s.xdpFlowTracking.size = (admitted maxFlowSaved (arrivals es)).length
  entry_eq : ∀ k, s.entry k =
    if k ∈ admitted maxFlowSaved (arrivals es) then (alone tree k es).2 else none

theorem firstCome_start (tree : DtTree maxDtNodes) (ac : Accounting) :
    FirstCome tree [] (start tree ac) where
  tree_eq _ := rfl
  size_eq := rfl
  entry_eq k := by simp [arrivals, admitted, distinct]

section Step

variable {tree : DtTree maxDtNodes} {es : List Event} {s : Maps}

theorem FirstCome.isSome_iff (h : FirstCome tree es s) (k : FlowKey) :
    (s.entry k).isSome ↔ k ∈ admitted maxFlowSaved (arrivals es) := by
  rw [h.entry_eq]
  split_ifs with hk
  · rw [alone_isSome_iff, iff_true_right hk]
    exact mem_distinct.mp (List.mem_of_mem_take hk)
  · simp [hk]

/-- A flow is admitted to the table exactly when it is among the first or there is room. -/
theorem FirstCome.admits_iff (h : FirstCome tree es s) (k : FlowKey) :
    Admits s k ↔ k ∈ admitted maxFlowSaved (arrivals es) ∨
      (admitted maxFlowSaved (arrivals es)).length < maxFlowSaved := by
  rw [Admits, ← Maps.entry, h.isSome_iff, h.size_eq]

/-- The entry of an admitted flow is the one it has by itself. -/
theorem FirstCome.entry_of_admits (h : FirstCome tree es s) {k : FlowKey} (ha : Admits s k) :
    s.entry k = (alone tree k es).2 := by
  rw [h.entry_eq]
  split_ifs with hk
  · rfl
  · have hlt := ((h.admits_iff k).mp ha).resolve_left hk
    rw [mem_admitted_of_lt hlt, ← alone_isSome_iff tree] at hk
    exact (Option.not_isSome_iff_eq_none.mp hk).symm

/-- An event without a key keeps the closed form. -/
theorem FirstCome.step_of_none (h : FirstCome tree es s) {e : Event} (he : e.key? = none) :
    FirstCome tree (es ++ [e]) (step s e) := by
  have hn : ∀ k, e.pkt? k = none := by
    intro k
    cases e with
    | reload tree' => rfl
    | packet x =>
      rw [Event.key?] at he
      rw [Event.pkt?, he, if_neg (by simp)]
  have ha : arrivals (es ++ [e]) = arrivals es := by
    rw [arrivals_snoc, he, Option.toList_none, List.append_nil]
  have halone : ∀ k, (alone tree k (es ++ [e])).2 = (alone tree k es).2 := by
    intro k
    rw [alone_snoc]
    cases e with
    | reload tree' => rfl
    | packet x =>
      rw [Event.key?] at he
      rw [flowStep, he, if_neg (by simp)]
  refine ⟨fun k => ?_, ?_, fun k => ?_⟩
  · rw [alone_snoc]
    cases e with
    | reload tree' => rfl
    | packet x =>
      rw [Event.key?] at he
      rw [flowStep, he, if_neg (by simp), step_dtMap_packet, h.tree_eq]
  · rw [ha, ← h.size_eq]
    cases e with
    | reload tree' => rfl
    | packet x => rw [step, detector_refused s x he]
  · rw [lookup_step_of_none (hn k), ha, halone, h.entry_eq]

theorem FirstCome.size_of_packet (h : FirstCome tree es s) {x : Input} {key : FlowKey}
    (hx : x.frame.flowKey? = some key) :
    (step s (.packet x)).xdpFlowTracking.size =
      (admitted maxFlowSaved (arrivals es ++ [key])).length := by
  have hex : (∃ k, x.frame.flowKey? = some k ∧ s.xdpFlowTracking.lookup k = none ∧
      s.xdpFlowTracking.size < maxFlowSaved) ↔ key ∉ admitted maxFlowSaved (arrivals es) ∧
        (admitted maxFlowSaved (arrivals es)).length < maxFlowSaved := by
    rw [← h.isSome_iff, ← h.size_eq, Option.not_isSome_iff_eq_none]
    simp [hx, Maps.entry]
  rw [step, size_detector, admitted_snoc, if_congr hex rfl rfl, h.size_eq]
  split_ifs
  · rw [List.length_append, List.length_singleton]
  · rfl

/-- An accepted packet keeps the closed form. -/
theorem FirstCome.step_of_packet (h : FirstCome tree es s) {x : Input} {key : FlowKey}
    (hx : x.frame.flowKey? = some key) :
    FirstCome tree (es ++ [.packet x]) (step s (.packet x)) := by
  have harr : arrivals (es ++ [.packet x]) = arrivals es ++ [key] := by
    rw [arrivals_snoc, Event.key?, hx, Option.toList_some]
  refine ⟨fun k => ?_, by rw [harr, h.size_of_packet hx], fun k => ?_⟩
  · rw [alone_snoc, step_dtMap_packet, ← h.tree_eq k, flowStep]
    split_ifs <;> rfl
  · rw [harr, alone_snoc, flowStep]
    by_cases hk : k = key
    · subst hk
      have hin : k ∈ admitted maxFlowSaved (arrivals es ++ [k]) ↔ Admits s k := by
        rw [mem_admitted_snoc, h.admits_iff, eq_self_iff_true, true_and]
      rw [if_congr hin rfl rfl, if_pos hx]
      split_ifs with ha
      · rw [lookup_step_of_pkt (Event.pkt?_packet hx) ha, h.entry_of_admits ha, ← h.tree_eq k]
        rfl
      · rw [lookup_step_of_refused ha, h.entry_eq, if_neg]
        exact fun hc => ha ((h.admits_iff k).mpr (Or.inl hc))
    · have hne : x.frame.flowKey? ≠ some k := by
        rw [hx]
        exact fun hc => hk (Option.some.inj hc).symm
      have hin : k ∈ admitted maxFlowSaved (arrivals es ++ [key]) ↔
          k ∈ admitted maxFlowSaved (arrivals es) := by simp [mem_admitted_snoc, hk]
      have hpkt : (Event.packet x).pkt? k = none := if_neg hne
      rw [lookup_step_of_none hpkt, h.entry_eq, if_congr hin rfl rfl, if_neg hne]

end Step

theorem firstCome_step {tree : DtTree maxDtNodes} {es : List Event} {s : Maps}
    (h : FirstCome tree es s) (e : Event) : FirstCome tree (es ++ [e]) (step s e) := by
  cases e with
  | reload tree' => exact h.step_of_none rfl
  | packet x =>
    cases hx : x.frame.flowKey? with
    | none => exact h.step_of_none hx
    | some key => exact h.step_of_packet hx

/-- **Along every run the flow table has its closed form.** -/
theorem firstCome_run (tree : DtTree maxDtNodes) (ac : Accounting) (es : List Event) :
    FirstCome tree es (run (start tree ac) es) :=
  Run.run_induction step (firstCome_start tree ac) (fun _ e h => firstCome_step h e) es

/-- **The flow table after a run**: the first `MAX_FLOW_SAVED` distinct keys that arrived, each with
the entry its flow leaves behind by itself. -/
theorem flow_table_first_come (tree : DtTree maxDtNodes) (ac : Accounting) (es : List Event) :
    (∀ k, (run (start tree ac) es).entry k =
      if k ∈ admitted maxFlowSaved (arrivals es) then (alone tree k es).2 else none) ∧
    (run (start tree ac) es).xdpFlowTracking.size =
      min maxFlowSaved (distinct (arrivals es)).length := by
  have h := firstCome_run tree ac es
  exact ⟨h.entry_eq, h.size_eq.trans (length_admitted _ _)⟩

/-! ## The order of other flows -/

/-- The event is a packet of flow `k` or a replacement of the tree. -/
def Event.concerns (k : FlowKey) : Event → Bool
  | .packet x => x.frame.flowKey? = some k
  | .reload _ => true

/-- What flow `k` sees of a run. -/
def viewOf (k : FlowKey) (es : List Event) : List Event := es.filter (Event.concerns k)

theorem alone_viewOf (tree : DtTree maxDtNodes) (k : FlowKey) (es : List Event) :
    alone tree k (viewOf k es) = alone tree k es := by
  refine Run.run_filter (flowStep k) (fun s e he => ?_) (tree, none) es
  cases e with
  | reload tree' => cases he
  | packet x => exact if_neg (by simpa [Event.concerns] using he)

theorem mem_arrivals_viewOf {k : FlowKey} {es : List Event} :
    k ∈ arrivals (viewOf k es) ↔ k ∈ arrivals es := by
  rw [← alone_isSome_iff (DtTree.zero maxDtNodes), alone_viewOf, alone_isSome_iff]

/-- **The interleaving of flows is irrelevant.** Two runs that each flow sees alike, with no more
distinct keys than the table holds, leave the same entry behind for every flow. -/
theorem interleaving_irrelevant (tree : DtTree maxDtNodes) (ac ac' : Accounting)
    (es es' : List Event) (hview : ∀ k, viewOf k es = viewOf k es')
    (hcap : (distinct (arrivals es)).length ≤ maxFlowSaved) (k : FlowKey) :
    (run (start tree ac) es).entry k = (run (start tree ac') es').entry k := by
  have hmem : ∀ k, k ∈ arrivals es ↔ k ∈ arrivals es' := by
    intro k
    rw [← mem_arrivals_viewOf, hview, mem_arrivals_viewOf]
  have hperm : (distinct (arrivals es)).Perm (distinct (arrivals es')) := by
    refine (List.perm_ext_iff_of_nodup (nodup_distinct _) (nodup_distinct _)).mpr fun k => ?_
    rw [mem_distinct, mem_distinct, hmem]
  rw [(firstCome_run tree ac es).entry_eq, (firstCome_run tree ac' es').entry_eq,
    ← alone_viewOf tree k es, hview, alone_viewOf]
  refine if_congr ?_ rfl rfl
  rw [admitted_of_le hcap, admitted_of_le (hperm.length_eq ▸ hcap), hperm.mem_iff]

/-- An empty datagram of the `i`-th source. -/
def datagramFrom (i : ℕ) : Event := .packet ⟨udpFrame i emptyPayload, 1, 1⟩

theorem viewOf_swap (k : FlowKey) :
    viewOf k [datagramFrom 1, datagramFrom 2] = viewOf k [datagramFrom 2, datagramFrom 1] := by
  have hc : ∀ i, (datagramFrom i).concerns k = decide (udpKey i = k) := by
    intro i
    simp [datagramFrom, Event.concerns, flowKey?_udpFrame]
  have hne : udpKey 1 ≠ udpKey 2 := by decide
  simp only [viewOf, List.filter_cons, hc, List.filter_nil, decide_eq_true_eq]
  by_cases h1 : udpKey 1 = k
  · have h2 : udpKey 2 ≠ k := fun h2 => hne (h1.trans h2.symm)
    simp [h1, h2]
  · simp [h1]

theorem interleaving_two_flows :
    (distinct (arrivals [datagramFrom 1, datagramFrom 2])).length ≤ maxFlowSaved ∧
      (run zeroMaps [datagramFrom 1, datagramFrom 2]).entry (udpKey 1) =
        (run zeroMaps [datagramFrom 2, datagramFrom 1]).entry (udpKey 1) := by
  have harr : arrivals [datagramFrom 1, datagramFrom 2] = [udpKey 1, udpKey 2] := by
    simp [arrivals, datagramFrom, Event.key?, flowKey?_udpFrame]
  have hcap : (distinct (arrivals [datagramFrom 1, datagramFrom 2])).length ≤ maxFlowSaved := by
    rw [harr]
    decide
  exact ⟨hcap, interleaving_irrelevant (DtTree.zero maxDtNodes) Accounting.zero Accounting.zero _ _
    viewOf_swap hcap (udpKey 1)⟩

end XdpDetector

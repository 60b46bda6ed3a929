import XdpDetector.Kern.Detector

/-!
# Runs of the system

The kernel program processes packets one after another while user space may replace the tree in
`dt_map`. A run folds these events over the maps; its history for a key is the list of accepted
packets with that key.

* `Event`, `step`, `run`, `start`: the transition system, from an empty flow table;
* `Pkt`, `Event.pkt?`, `history`: what a flow has received;
* **`lookup_step`**, `size_step_le`: one event and the flow table;
* `lookup_step_of_pkt`: an admitted packet, in terms of the entry before it.
-/

namespace XdpDetector

/-- A packet reaches the program, or user space writes `dt_map`. -/
inductive Event
  | packet (x : Input)
  | reload (tree : DtTree maxDtNodes)

def step (s : Maps) : Event → Maps
  | .packet x => (xdpAnomalyDetector s x).2
  | .reload tree => { s with dtMap := s.dtMap.update 0 tree }

def run (s : Maps) (es : List Event) : Maps := Run.run step s es

/-- The maps with an empty flow table. -/
def start (tree : DtTree maxDtNodes) (ac : Accounting) : Maps :=
  ⟨⟨fun _ => tree⟩, BoundedMap.empty, ⟨fun _ => ac⟩⟩

def zeroMaps : Maps := start (DtTree.zero maxDtNodes) Accounting.zero

/-- What counts of a packet for its flow: its timestamp and its length. -/
structure Pkt where
  ts : UInt64
  len : ℕ
deriving DecidableEq

/-- The packet as one of flow `k`, if it is accepted under that key. -/
def Event.pkt? (k : FlowKey) : Event → Option Pkt
  | .packet x => if x.frame.flowKey? = some k then some ⟨x.tsNs, x.frame.bytes.length⟩ else none
  | .reload _ => none

/-- **The history of a flow**: its accepted packets, in order. -/
def history (k : FlowKey) (es : List Event) : List Pkt := es.filterMap (Event.pkt? k)

def Maps.tree (s : Maps) : DtTree maxDtNodes := s.dtMap.slot 0

def Maps.entry (s : Maps) (k : FlowKey) : Option DataPoint := s.xdpFlowTracking.lookup k

@[simp] theorem run_nil (s : Maps) : run s [] = s := rfl

theorem run_snoc (s : Maps) (es : List Event) (e : Event) :
    run s (es ++ [e]) = step (run s es) e := Run.run_snoc step s es e

theorem history_append (k : FlowKey) (es es' : List Event) :
    history k (es ++ es') = history k es ++ history k es' := List.filterMap_append

theorem history_snoc (k : FlowKey) (es : List Event) (e : Event) :
    history k (es ++ [e]) = history k es ++ (e.pkt? k).toList := by
  rw [history_append]
  cases h : e.pkt? k <;> simp [history, h]

@[simp] theorem entry_start (tree : DtTree maxDtNodes) (ac : Accounting) (k : FlowKey) :
    (start tree ac).entry k = none := BoundedMap.lookup_empty k

theorem Event.pkt?_eq_some {e : Event} {k : FlowKey} {p : Pkt} (h : e.pkt? k = some p) :
    ∃ x : Input, e = .packet x ∧ x.frame.flowKey? = some k ∧
      p = ⟨x.tsNs, x.frame.bytes.length⟩ := by
  cases e with
  | packet x =>
    rw [Event.pkt?] at h
    split_ifs at h with hk
    exact ⟨x, rfl, hk, (Option.some.inj h).symm⟩
  | reload tree => cases h

theorem Event.pkt?_packet {x : Input} {k : FlowKey} (h : x.frame.flowKey? = some k) :
    (Event.packet x).pkt? k = some ⟨x.tsNs, x.frame.bytes.length⟩ := if_pos h

theorem len_of_pkt? {e : Event} {k : FlowKey} {p : Pkt} (h : e.pkt? k = some p) :
    34 ≤ p.len ∧ p.len < 2 ^ 32 := by
  obtain ⟨x, -, hk, rfl⟩ := Event.pkt?_eq_some h
  exact ⟨Frame.length_of_flowKey? hk, x.frame.length_lt⟩

theorem len_of_mem_history {es : List Event} {k : FlowKey} {p : Pkt} (h : p ∈ history k es) :
    34 ≤ p.len ∧ p.len < 2 ^ 32 := by
  obtain ⟨e, -, he⟩ := List.mem_filterMap.mp h
  exact len_of_pkt? he

/-! ## One event and the flow table -/

theorem step_dtMap_packet (s : Maps) (x : Input) : (step s (.packet x)).tree = s.tree := by
  rw [Maps.tree, step, detector_dtMap]; rfl

/-- **One event and an entry**: only an admitted packet of the flow itself changes it. -/
theorem lookup_step (s : Maps) (e : Event) (k : FlowKey) :
    (step s e).entry k = (e.pkt? k).elim (s.entry k) fun p =>
      if Admits s k then some (nextEntry (s.entry k) p.ts (UInt64.ofNat p.len) s.tree)
      else s.entry k := by
  cases e with
  | reload tree => rfl
  | packet x =>
    rw [Maps.entry, step, lookup_detector, Event.pkt?]
    by_cases hk : x.frame.flowKey? = some k
    · rw [if_pos hk, Option.elim_some]
      exact if_congr (and_iff_right hk) rfl rfl
    · rw [if_neg hk, if_neg fun hc => hk hc.1, Option.elim_none]
      rfl

theorem lookup_step_of_none {s : Maps} {e : Event} {k : FlowKey} (h : e.pkt? k = none) :
    (step s e).entry k = s.entry k := by rw [lookup_step, h, Option.elim_none]

theorem lookup_step_of_pkt {s : Maps} {e : Event} {k : FlowKey} {p : Pkt} (h : e.pkt? k = some p)
    (ha : Admits s k) :
    (step s e).entry k = some (nextEntry (s.entry k) p.ts (UInt64.ofNat p.len) s.tree) := by
  rw [lookup_step, h, Option.elim_some, if_pos ha]

theorem lookup_step_of_refused {s : Maps} {e : Event} {k : FlowKey} (h : ¬ Admits s k) :
    (step s e).entry k = s.entry k := by
  rw [lookup_step]
  cases e.pkt? k with
  | none => rfl
  | some p => exact if_neg h

theorem admits_of_entry {s : Maps} {k : FlowKey} {dp : DataPoint} (h : s.entry k = some dp) :
    Admits s k := Or.inl (by rw [← Maps.entry, h]; rfl)

theorem size_step_le (s : Maps) (e : Event) :
    s.xdpFlowTracking.size ≤ (step s e).xdpFlowTracking.size := by
  cases e with
  | reload tree => exact le_rfl
  | packet x =>
    rw [step, size_detector]
    split_ifs <;> omega

theorem size_step_le_succ (s : Maps) (e : Event) :
    (step s e).xdpFlowTracking.size ≤ s.xdpFlowTracking.size + 1 := by
  cases e with
  | reload tree => exact Nat.le_succ _
  | packet x =>
    rw [step, size_detector]
    split_ifs <;> omega

/-- A run stores at most one flow for each event. -/
theorem size_run_le_length (tree : DtTree maxDtNodes) (ac : Accounting) (es : List Event) :
    (run (start tree ac) es).xdpFlowTracking.size ≤ es.length := by
  refine Run.run_induction step (P := fun es s => s.xdpFlowTracking.size ≤ es.length) le_rfl ?_ es
  intro es e h
  have hstep := size_step_le_succ (run (start tree ac) es) e
  rw [List.length_append]
  exact hstep.trans (Nat.succ_le_succ h)

/-- Two flows take turns, and the tree is replaced on the way. -/
def twoFlows : List Event :=
  [.packet ⟨udpFrame 1 emptyPayload, 1000, 2000⟩, .packet ⟨udpFrame 2 fullPayload, 3000, 4000⟩,
    .reload alarmTree, .packet ⟨udpFrame 1 fullPayload, 5000, 6000⟩]

theorem frame_of_mem_twoFlows {x : Input} (h : .packet x ∈ twoFlows) :
    ∃ i n, x.frame = udpFrame i n := by
  simp only [twoFlows, List.mem_cons, Event.packet.injEq, reduceCtorEq, false_or,
    List.not_mem_nil, or_false] at h
  rcases h with rfl | rfl | rfl
  · exact ⟨1, emptyPayload, rfl⟩
  · exact ⟨2, fullPayload, rfl⟩
  · exact ⟨1, fullPayload, rfl⟩

end XdpDetector

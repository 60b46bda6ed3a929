import XdpDetector.Flow.Summary

/-!
# The flow table refines the packet history

Along every run the flow table is an abstraction of the packets received: an entry summarises all
accepted packets of its flow. A flow without entry has received nothing or met a full table, and a
full table stays full, so a flow refused once is refused for good.

* `Tracks`, `tracks_step`, **`tracks_run`**: the invariant of the table;
* `flow_table_refines`: entries, refused frames, other flows and the bound;
* `tracked_iff_admitted`: when the next packet is tracked; `flood` fills the table.
-/

namespace XdpDetector

/-- **The flow table against the events so far.** -/
structure Tracks (es : List Event) (s : Maps) : Prop where
  missing : ∀ k, s.entry k = none → history k es = [] ∨ s.xdpFlowTracking.size = maxFlowSaved
  present : ∀ k dp, s.entry k = some dp → Summarizes dp (history k es)

theorem tracks_start (tree : DtTree maxDtNodes) (ac : Accounting) : Tracks [] (start tree ac) where
  missing _ _ := Or.inl rfl
  present k dp h := by rw [entry_start] at h; cases h

theorem Tracks.full_step {s : Maps} (e : Event) (h : s.xdpFlowTracking.size = maxFlowSaved) :
    (step s e).xdpFlowTracking.size = maxFlowSaved := by
  have h₁ := size_step_le s e
  have h₂ := (step s e).xdpFlowTracking.size_le_cap
  omega

theorem Tracks.history_eq_nil {es : List Event} {s : Maps} (h : Tracks es s) {k : FlowKey}
    (hn : s.entry k = none) (ha : Admits s k) : history k es = [] := by
  apply (h.missing k hn).resolve_right
  intro hfull
  have hlt := ha.resolve_left (by rw [← Maps.entry, hn]; simp)
  omega

theorem Tracks.summarizes {es : List Event} {s : Maps} (h : Tracks es s) {e : Event} {k : FlowKey}
    {p : Pkt} (he : e.pkt? k = some p) (ha : Admits s k) :
    Summarizes (nextEntry (s.entry k) p.ts (UInt64.ofNat p.len) s.tree) (history k es ++ [p]) :=
  summarizes_nextEntry p (len_of_pkt? he).2 (fun hn => h.history_eq_nil hn ha) (h.present k) s.tree

/-- **One event keeps the table in step with the history.** -/
theorem tracks_step {es : List Event} {s : Maps} (h : Tracks es s) (e : Event) :
    Tracks (es ++ [e]) (step s e) := by
  constructor
  · intro k hn
    cases he : e.pkt? k with
    | none =>
      rw [lookup_step_of_none he] at hn
      rw [history_snoc, he, Option.toList_none, List.append_nil]
      exact (h.missing k hn).imp_right (Tracks.full_step e)
    | some p =>
      by_cases ha : Admits s k
      · rw [lookup_step_of_pkt he ha] at hn; cases hn
      · -- the key was refused, so the table is full and stays so
        have hle := s.xdpFlowTracking.size_le_cap
        refine Or.inr (Tracks.full_step e ?_)
        by_contra hc
        exact ha (Or.inr (by omega))
  · intro k dp hdp
    cases he : e.pkt? k with
    | none =>
      rw [lookup_step_of_none he] at hdp
      rw [history_snoc, he, Option.toList_none, List.append_nil]
      exact h.present k dp hdp
    | some p =>
      by_cases ha : Admits s k
      · rw [lookup_step_of_pkt he ha] at hdp
        rw [history_snoc, he, Option.toList_some, ← Option.some.inj hdp]
        exact h.summarizes he ha
      · rw [lookup_step_of_refused ha] at hdp
        exact absurd (admits_of_entry hdp) ha

/-- **Along every run the table is in step with the history.** -/
theorem tracks_run (tree : DtTree maxDtNodes) (ac : Accounting) (es : List Event) :
    Tracks es (run (start tree ac) es) :=
  Run.run_induction step (tracks_start tree ac) (fun _ e h => tracks_step h e) es

/-- **The flow table refines the history**: an entry summarises all accepted packets of its flow, a
flow is missing only if it has received nothing or the table is full, refused frames and packets of
other flows change nothing, and the table stays within its bound. -/
theorem flow_table_refines (tree : DtTree maxDtNodes) (ac : Accounting) (es : List Event) :
    (∀ k, ((run (start tree ac) es).entry k = none ∧
        (history k es = [] ∨ (run (start tree ac) es).xdpFlowTracking.size = maxFlowSaved)) ∨
      ∃ dp, (run (start tree ac) es).entry k = some dp ∧ Summarizes dp (history k es)) ∧
    (∀ x : Input, x.frame.flowKey? = none →
      ∀ k, (run (start tree ac) (es ++ [.packet x])).entry k = (run (start tree ac) es).entry k) ∧
    (∀ (x : Input) (k : FlowKey), x.frame.flowKey? ≠ some k →
      (run (start tree ac) (es ++ [.packet x])).entry k = (run (start tree ac) es).entry k) ∧
    (run (start tree ac) es).xdpFlowTracking.size ≤ maxFlowSaved := by
  have hother : ∀ (x : Input) (k : FlowKey), x.frame.flowKey? ≠ some k →
      (run (start tree ac) (es ++ [.packet x])).entry k = (run (start tree ac) es).entry k := by
    intro x k hk
    rw [run_snoc]
    exact lookup_step_of_none (if_neg hk)
  refine ⟨fun k => ?_, fun x hx k => hother x k (by simp [hx]), hother,
    BoundedMap.size_le_cap _⟩
  cases hdp : (run (start tree ac) es).entry k with
  | none => exact Or.inl ⟨rfl, (tracks_run tree ac es).missing k hdp⟩
  | some dp => exact Or.inr ⟨dp, rfl, (tracks_run tree ac es).present k dp hdp⟩

/-! ## Which packets are tracked -/

/-- After the packet `x` of flow `k`, the entry of `k` counts it and carries a label computed for
it, by the tree in `dt_map`. -/
def Tracked (s : Maps) (es : List Event) (x : Input) (k : FlowKey) : Prop :=
  ∃ dp, (run s (es ++ [.packet x])).entry k = some dp ∧
    Summarizes dp (history k es ++ [⟨x.tsNs, x.frame.bytes.length⟩]) ∧
    dp.features = computeFeatures dp ∧ dp.label = predictDt dp (some (run s es).tree)

theorem nextEntry_features (old : Option DataPoint) (tsNs pktLen : UInt64)
    (tree : DtTree maxDtNodes) :
    (nextEntry old tsNs pktLen tree).features = computeFeatures (nextEntry old tsNs pktLen tree) :=
  rfl

theorem nextEntry_label (old : Option DataPoint) (tsNs pktLen : UInt64)
    (tree : DtTree maxDtNodes) :
    (nextEntry old tsNs pktLen tree).label =
      predictDt (nextEntry old tsNs pktLen tree) (some tree) := rfl

theorem tracked_of_admits {tree : DtTree maxDtNodes} {ac : Accounting} {es : List Event} {x : Input}
    {k : FlowKey} (hk : x.frame.flowKey? = some k) (ha : Admits (run (start tree ac) es) k) :
    Tracked (start tree ac) es x k := by
  have he := Event.pkt?_packet hk
  refine ⟨_, ?_, (tracks_run tree ac es).summarizes he ha, nextEntry_features _ _ _ _,
    nextEntry_label _ _ _ _⟩
  rw [run_snoc]
  exact lookup_step_of_pkt he ha

theorem not_tracked_of_not_admits {s : Maps} {es : List Event} {x : Input} {k : FlowKey}
    (ha : ¬ Admits (run s es) k) : ¬ Tracked s es x k := by
  rintro ⟨dp, hdp, -⟩
  rw [run_snoc, lookup_step_of_refused ha] at hdp
  exact ha (admits_of_entry hdp)

/-- **The next accepted packet is tracked** if and only if its flow has an entry or the table has
room for one. -/
theorem tracked_iff_admitted (tree : DtTree maxDtNodes) (ac : Accounting) (es : List Event)
    (x : Input) (k : FlowKey) (hk : x.frame.flowKey? = some k) :
    Tracked (start tree ac) es x k ↔
      ((run (start tree ac) es).entry k).isSome ∨
        (run (start tree ac) es).xdpFlowTracking.size < maxFlowSaved := by
  constructor
  · intro h
    by_contra ha
    exact not_tracked_of_not_admits ha h
  · exact tracked_of_admits hk

/-! ## Filling the table -/

/-- One datagram from each of the first `n` source addresses. -/
def flood (n : ℕ) : List Event :=
  (List.range n).map fun i => .packet ⟨udpFrame i emptyPayload, 1, 1⟩

theorem flood_succ (n : ℕ) :
    flood (n + 1) = flood n ++ [.packet ⟨udpFrame n emptyPayload, 1, 1⟩] := by
  rw [flood, List.range_succ, List.map_append]; rfl

theorem entry_flood {n : ℕ} (hn : n ≤ maxFlowSaved) :
    ∀ i, n ≤ i → i ≤ maxFlowSaved → (run zeroMaps (flood n)).entry (udpKey i) = none := by
  induction n with
  | zero => exact fun i _ _ => entry_start _ _ _
  | succ n ih =>
    intro i hi hi'
    unfold maxFlowSaved at hn hi'
    rw [flood_succ, run_snoc, lookup_step_of_none]
    · exact ih (by unfold maxFlowSaved; omega) i (by omega) hi'
    · apply if_neg
      intro h
      have := udpKey_injective (by omega) (by omega)
        (Option.some.inj ((flowKey?_udpFrame n emptyPayload) ▸ h))
      omega

theorem size_flood {n : ℕ} (hn : n ≤ maxFlowSaved) :
    (run zeroMaps (flood n)).xdpFlowTracking.size = n := by
  induction n with
  | zero => rfl
  | succ n ih =>
    have hsize := ih (by omega)
    rw [flood_succ, run_snoc, step, size_detector, if_pos, hsize]
    exact ⟨udpKey n, flowKey?_udpFrame n emptyPayload,
      entry_flood (by omega) n le_rfl (by omega), by omega⟩

theorem entry_flood_last {n : ℕ} (hn : n < maxFlowSaved) :
    ((run zeroMaps (flood (n + 1))).entry (udpKey n)).isSome := by
  have he := Event.pkt?_packet (x := ⟨udpFrame n emptyPayload, 1, 1⟩)
    (flowKey?_udpFrame n emptyPayload)
  have ha : Admits (run zeroMaps (flood n)) (udpKey n) :=
    Or.inr ((size_flood hn.le).trans_lt hn)
  rw [flood_succ, run_snoc, lookup_step_of_pkt he ha]
  rfl

/-- The last free slot is given away, and its flow stays tracked when the table is full. -/
theorem tracked_at_capacity :
    Tracked zeroMaps (flood 9999) ⟨udpFrame 9999 emptyPayload, 1, 1⟩ (udpKey 9999) ∧
      Tracked zeroMaps (flood maxFlowSaved) ⟨udpFrame 9999 emptyPayload, 2, 2⟩ (udpKey 9999) := by
  have hk := flowKey?_udpFrame 9999 emptyPayload
  have hlt : 9999 < maxFlowSaved := by decide
  constructor
  · exact (tracked_iff_admitted _ _ _ ⟨udpFrame 9999 emptyPayload, 1, 1⟩ _ hk).mpr
      (Or.inr ((size_flood hlt.le).trans_lt hlt))
  · exact (tracked_iff_admitted _ _ _ ⟨udpFrame 9999 emptyPayload, 2, 2⟩ _ hk).mpr
      (Or.inl (entry_flood_last hlt))

/-- **A full table loses the next flow**: after `MAX_FLOW_SAVED` sources, the datagram of one more
is accepted and not tracked. -/
theorem flood_not_tracked :
    (udpFrame maxFlowSaved emptyPayload).flowKey? = some (udpKey maxFlowSaved) ∧
      ¬ Tracked zeroMaps (flood maxFlowSaved) ⟨udpFrame maxFlowSaved emptyPayload, 1, 1⟩
        (udpKey maxFlowSaved) := by
  refine ⟨flowKey?_udpFrame _ _, not_tracked_of_not_admits ?_⟩
  rintro (h | h)
  · have hn := entry_flood le_rfl maxFlowSaved le_rfl le_rfl
    rw [Maps.entry] at hn
    rw [hn] at h
    cases h
  · rw [size_flood le_rfl] at h
    exact lt_irrefl _ h

end XdpDetector

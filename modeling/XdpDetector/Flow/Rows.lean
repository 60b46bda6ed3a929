import XdpDetector.Flow.Table

/-!
# Stored rows

A flow entry holds statistics, the features derived from them and a label derived from the
features. All three are rewritten by each packet of the flow and by nothing else, also while user
space replaces the tree.

* `RowOf`, `rowOf_step`, **`rowOf_run`**: every entry is the row of its flow's latest packet;
* `rows_self_consistent`: features and label of a stored row can be recomputed from the row;
* `isSome_entry_of_later`: a flow tracked in the end was tracked from its first packet.
-/

namespace XdpDetector

/-- **`dp` is the row of the latest packet of `k`**: its features are those of its statistics, and
its label is the prediction on them by the tree in `dt_map` at that packet. -/
def RowOf (s : Maps) (k : FlowKey) (es : List Event) (dp : DataPoint) : Prop :=
  dp.features = computeFeatures dp ∧
    ∃ es₁ x es₂, es = es₁ ++ Event.packet x :: es₂ ∧ x.frame.flowKey? = some k ∧
      history k es₂ = [] ∧ dp.label = predictDt dp (some (run s es₁).tree)

theorem rowOf_step {s : Maps} {k : FlowKey} {es : List Event} (e : Event)
    (h : ∀ dp, (run s es).entry k = some dp → RowOf s k es dp) (dp : DataPoint)
    (hdp : (step (run s es) e).entry k = some dp) : RowOf s k (es ++ [e]) dp := by
  cases he : e.pkt? k with
  | none =>
    rw [lookup_step_of_none he] at hdp
    obtain ⟨hf, es₁, x, es₂, rfl, hx, hes₂, hl⟩ := h dp hdp
    refine ⟨hf, es₁, x, es₂ ++ [e], by simp, hx, ?_, hl⟩
    rw [history_snoc, hes₂, he]; rfl
  | some p =>
    obtain ⟨x, rfl, hx, rfl⟩ := Event.pkt?_eq_some he
    have ha : Admits (run s es) k := by
      by_contra ha
      rw [lookup_step_of_refused ha] at hdp
      exact ha (admits_of_entry hdp)
    rw [lookup_step_of_pkt he ha] at hdp
    obtain rfl := Option.some.inj hdp
    exact ⟨nextEntry_features _ _ _ _, es, x, [], rfl, hx, rfl, nextEntry_label _ _ _ _⟩

/-- **Along every run each entry is the row of its flow's latest packet.** -/
theorem rowOf_run (tree : DtTree maxDtNodes) (ac : Accounting) (k : FlowKey) (es : List Event) :
    ∀ dp, (run (start tree ac) es).entry k = some dp → RowOf (start tree ac) k es dp := by
  induction es using List.reverseRecOn with
  | nil => intro dp h; rw [run_nil, entry_start] at h; cases h
  | append_singleton es e ih => rw [run_snoc]; exact rowOf_step e ih

theorem entry_first (tree : DtTree maxDtNodes) (ac : Accounting) {x : Input} {k : FlowKey}
    (hx : x.frame.flowKey? = some k) :
    (run (start tree ac) [.packet x]).entry k =
      some (nextEntry none x.tsNs (UInt64.ofNat x.frame.bytes.length) tree) :=
  lookup_step_of_pkt (Event.pkt?_packet hx) (Or.inr (by decide : (0 : ℕ) < maxFlowSaved))

theorem entry_snoc {s : Maps} {es : List Event} {x : Input} {k : FlowKey} {dp : DataPoint}
    (h : (run s es).entry k = some dp) (hx : x.frame.flowKey? = some k) :
    (run s (es ++ [.packet x])).entry k =
      some (nextEntry (some dp) x.tsNs (UInt64.ofNat x.frame.bytes.length) (run s es).tree) := by
  rw [run_snoc, lookup_step_of_pkt (Event.pkt?_packet hx) (admits_of_entry h), h]

/-- **Stored rows are self-consistent.** In every state reached by packets and replacements of the
tree, the features of an entry are those recomputed from its statistics, and its label is the
prediction on them by the tree that was in `dt_map` when the flow's latest packet was processed. -/
theorem rows_self_consistent (ac : Accounting) (es : List Event) (k : FlowKey) (dp : DataPoint)
    (h : (run (start (DtTree.zero maxDtNodes) ac) es).entry k = some dp) :
    dp.features = computeFeatures dp ∧
      ∃ es₁ x es₂, es = es₁ ++ Event.packet x :: es₂ ∧ x.frame.flowKey? = some k ∧
        history k es₂ = [] ∧
        dp.label = predictDt dp (some (run (start (DtTree.zero maxDtNodes) ac) es₁).tree) :=
  rowOf_run _ ac k es dp h

/-- The tree is replaced between two packets of a flow: the label is that of the new tree. -/
theorem row_across_reload :
    ∃ dp, (run zeroMaps [.packet ⟨udpFrame 0 emptyPayload, 1, 1⟩, .reload alarmTree,
        .packet ⟨udpFrame 0 emptyPayload, 2, 2⟩]).entry (udpKey 0) = some dp ∧
      dp.features = computeFeatures dp ∧ dp.label = 1 := by
  have hk := flowKey?_udpFrame 0 emptyPayload
  have h₁ : (run zeroMaps [.packet ⟨udpFrame 0 emptyPayload, 1, 1⟩, .reload alarmTree]).entry
      (udpKey 0) = _ := entry_first _ _ (x := ⟨udpFrame 0 emptyPayload, 1, 1⟩) hk
  have h₂ := entry_snoc (x := ⟨udpFrame 0 emptyPayload, 2, 2⟩) h₁ hk
  obtain ⟨hf, es₁, x, es₂, hes, -, hlast, hl⟩ := rows_self_consistent Accounting.zero _ _ _ h₂
  refine ⟨_, h₂, hf, ?_⟩
  -- the latest packet is the one behind the replacement
  rcases es₁ with _ | ⟨e₁, _ | ⟨e₂, _ | ⟨e₃, es₁⟩⟩⟩
  · rw [← (List.cons.inj hes).2] at hlast
    have hmem : (Event.packet ⟨udpFrame 0 emptyPayload, 2, 2⟩) ∈
        [.reload alarmTree, .packet ⟨udpFrame 0 emptyPayload, 2, 2⟩] := by simp
    exact absurd (List.filterMap_eq_nil_iff.mp hlast _ hmem) (by rw [Event.pkt?_packet hk]; simp)
  · cases (List.cons.inj (List.cons.inj hes).2).1
  · obtain ⟨rfl, htail⟩ := List.cons.inj hes
    obtain ⟨rfl, -⟩ := List.cons.inj htail
    rw [hl]
    exact predictDt_alarmTree _
  · cases es₁ <;> cases hes

theorem features_of_entry {tree : DtTree maxDtNodes} {ac : Accounting} {es : List Event}
    {k : FlowKey} {dp : DataPoint} (h : (run (start tree ac) es).entry k = some dp) :
    dp.features = computeFeatures dp := (rowOf_run tree ac k es dp h).1

/-! ## Entries persist -/

theorem isSome_entry_step {s : Maps} {k : FlowKey} (e : Event) (h : (s.entry k).isSome) :
    ((step s e).entry k).isSome := by
  rw [lookup_step]
  cases e.pkt? k with
  | none => exact h
  | some p =>
    have ha : Admits s k := Or.inl h
    rw [Option.elim_some, if_pos ha]; rfl

theorem isSome_entry_append {s : Maps} {k : FlowKey} {es : List Event}
    (h : ((run s es).entry k).isSome) (es' : List Event) :
    ((run s (es ++ es')).entry k).isSome := by
  rw [run, Run.run_append]
  exact Run.run_invariant step (I := fun s => (s.entry k).isSome) (fun _ e => isSome_entry_step e) h
    es'

theorem not_admits_step {s : Maps} {k : FlowKey} (e : Event) (h : ¬ Admits s k) :
    ¬ Admits (step s e) k := by
  have hle := s.xdpFlowTracking.size_le_cap
  have hsize := size_step_le s e
  rintro (hs | hs)
  · rw [← Maps.entry, lookup_step_of_refused h] at hs
    exact h (Or.inl hs)
  · exact h (Or.inr (by omega))

/-- **A flow tracked in the end was tracked from its first packet.** -/
theorem isSome_entry_of_later {tree : DtTree maxDtNodes} {ac : Accounting} {es es' : List Event}
    {k : FlowKey} (h : ((run (start tree ac) (es ++ es')).entry k).isSome)
    (hne : history k es ≠ []) : ((run (start tree ac) es).entry k).isSome := by
  by_contra hn
  rw [Option.not_isSome_iff_eq_none] at hn
  have hfull := ((tracks_run tree ac es).missing k hn).resolve_left hne
  have hna : ¬ Admits (run (start tree ac) es) k := by
    rintro (hs | hs)
    · rw [← Maps.entry, hn] at hs; cases hs
    · omega
  have hlater := Run.run_invariant step (I := fun s => ¬ Admits s k)
    (fun _ e => not_admits_step e) hna es'
  rw [run, Run.run_append] at h
  exact hlater (Or.inl h)

end XdpDetector

import XdpDetector.Flow.Rows

/-!
# The flow duration

`update_stats` guards the inter-arrival time against a clock that runs backwards, but not
`duration_us = (last_seen - start_ts) / 1000`. The duration of a flow is right after every packet
if and only if its packets are applied in the order of their timestamps.

* `DurationSound`: what one packet must leave behind;
* `durationSound_of_sorted`, `sorted_of_durationSound`, **`duration_sound_iff_sorted`**;
* `backwards`: a flow whose second packet is applied with an earlier timestamp.
-/

namespace XdpDetector

/-- **The duration of flow `k` is sound after the packet at the end of `es`**: `start_ts` is at most
`last_seen`, `last_seen` has not decreased, and the feature decodes to the microseconds between
them, computed without underflow. -/
def DurationSound (s : Maps) (k : FlowKey) (es : List Event) (x : Input) : Prop :=
  ∃ dp, (run s (es ++ [.packet x])).entry k = some dp ∧ dp.startTs ≤ dp.lastSeen ∧
    (∀ old, (run s es).entry k = some old → old.lastSeen ≤ dp.lastSeen) ∧
    (fixedToUint (dp.features featureFlowDuration)).toNat =
      (dp.lastSeen.toNat - dp.startTs.toNat) / 1000

/-- The timestamps of a flow lie less than `2 ^ 48` microseconds apart. -/
def SpreadBelow (ps : List Pkt) : Prop :=
  ∀ p ∈ ps, ∀ q ∈ ps, (p.ts.toNat - q.ts.toNat) / 1000 < 2 ^ 48

instance (ps : List Pkt) : Decidable (SpreadBelow ps) := by unfold SpreadBelow; infer_instance

theorem toNat_durationUs {dp : DataPoint} (h : dp.startTs ≤ dp.lastSeen) :
    (durationUs dp).toNat = (dp.lastSeen.toNat - dp.startTs.toNat) / 1000 := by
  rw [durationUs, UInt64.toNat_div, UInt64.toNat_sub_of_le _ _ h]
  rfl

theorem fixedToUint_duration {dp : DataPoint} (hf : dp.features = computeFeatures dp)
    (h : dp.startTs ≤ dp.lastSeen)
    (hlt : (dp.lastSeen.toNat - dp.startTs.toNat) / 1000 < 2 ^ 48) :
    (fixedToUint (dp.features featureFlowDuration)).toNat =
      (dp.lastSeen.toNat - dp.startTs.toNat) / 1000 := by
  have hd := toNat_durationUs h
  rw [hf]
  show (fixedToUint (fixedFromUint (durationUs dp))).toNat = _
  rw [fixedToUint_fixedFromUint (by omega), hd]

theorem Summarizes.startTs_mem {dp : DataPoint} {ps : List Pkt} (h : Summarizes dp ps) :
    ∃ p ∈ ps, p.ts = dp.startTs := by
  obtain ⟨p, hp, he⟩ := List.mem_map.mp (List.mem_of_mem_head? h.startTs)
  exact ⟨p, hp, UInt64.toNat_inj.mp he⟩

theorem Summarizes.lastSeen_mem {dp : DataPoint} {ps : List Pkt} (h : Summarizes dp ps) :
    ∃ p ∈ ps, p.ts = dp.lastSeen := by
  obtain ⟨p, hp, he⟩ := List.mem_map.mp (List.mem_of_mem_getLast? h.lastSeen)
  exact ⟨p, hp, UInt64.toNat_inj.mp he⟩

/-- Among sorted timestamps the last one stored is the greatest. -/
theorem Summarizes.le_lastSeen {dp : DataPoint} {ps : List Pkt} (h : Summarizes dp ps)
    (hs : (timestamps ps).Pairwise (· ≤ ·)) {t : ℕ} (ht : t ∈ timestamps ps) :
    t ≤ dp.lastSeen.toNat := by
  obtain ⟨l, hl⟩ := List.getLast?_eq_some_iff.mp h.lastSeen
  rw [hl] at hs ht
  rcases List.mem_append.mp ht with hm | hm
  · exact (List.pairwise_append.mp hs).2.2 _ hm _ List.mem_cons_self
  · exact le_of_eq (List.mem_singleton.mp hm)

theorem Summarizes.startTs_le_lastSeen {dp : DataPoint} {ps : List Pkt} (h : Summarizes dp ps)
    (hs : (timestamps ps).Pairwise (· ≤ ·)) : dp.startTs ≤ dp.lastSeen := by
  rw [UInt64.le_iff_toNat_le]
  exact h.le_lastSeen hs (List.mem_of_mem_head? h.startTs)

section Run

variable {tree : DtTree maxDtNodes} {ac : Accounting} {k : FlowKey} {es : List Event}

theorem durationSound_of_sorted {x : Input} (hx : x.frame.flowKey? = some k)
    (hk : ((run (start tree ac) (es ++ [.packet x])).entry k).isSome)
    (hs : (timestamps (history k (es ++ [.packet x]))).Pairwise (· ≤ ·))
    (hb : SpreadBelow (history k (es ++ [.packet x]))) : DurationSound (start tree ac) k es x := by
  obtain ⟨dp, hdp⟩ := Option.isSome_iff_exists.mp hk
  have hsum := (tracks_run tree ac _).present k dp hdp
  have hle := hsum.startTs_le_lastSeen hs
  refine ⟨dp, hdp, hle, fun old hold => ?_, fixedToUint_duration (features_of_entry hdp) hle ?_⟩
  · -- the last timestamp before `x` precedes the timestamp of `x`
    have hlast := List.mem_of_mem_getLast? ((tracks_run tree ac es).present k old hold).lastSeen
    rw [UInt64.le_iff_toNat_le]
    refine hsum.le_lastSeen hs ?_
    rw [history_snoc, Event.pkt?_packet hx, Option.toList_some, timestamps_snoc]
    exact List.mem_append_left _ hlast
  · obtain ⟨p, hp, hp'⟩ := hsum.lastSeen_mem
    obtain ⟨q, hq, hq'⟩ := hsum.startTs_mem
    rw [← hp', ← hq']
    exact hb p hp q hq

theorem sorted_of_durationSound (es : List Event)
    (h : ∀ es₁ x es₂, es = es₁ ++ Event.packet x :: es₂ → x.frame.flowKey? = some k →
      DurationSound (start tree ac) k es₁ x) :
    (timestamps (history k es)).Pairwise (· ≤ ·) := by
  induction es using List.reverseRecOn with
  | nil => exact List.Pairwise.nil
  | append_singleton es e ih =>
    have hes := ih fun es₁ x es₂ he hx => h es₁ x (es₂ ++ [e]) (by simp [he]) hx
    cases he : e.pkt? k with
    | none => rw [history_snoc, he, Option.toList_none, List.append_nil]; exact hes
    | some p =>
      obtain ⟨x, rfl, hx, rfl⟩ := Event.pkt?_eq_some he
      rw [history_snoc, he, Option.toList_some, timestamps_snoc, List.pairwise_append]
      refine ⟨hes, List.pairwise_singleton _ _, fun a ha b hb => ?_⟩
      obtain ⟨dp, hdp, -, hmono, -⟩ := h es x [] rfl hx
      -- the flow had an entry before `x`, holding the greatest timestamp so far
      have hne : history k es ≠ [] := by rintro h0; rw [h0] at ha; cases ha
      obtain ⟨old, hold⟩ := Option.isSome_iff_exists.mp
        (isSome_entry_of_later (by rw [hdp]; rfl) hne)
      have hsum := (tracks_run tree ac es).present k old hold
      have hlast : dp.lastSeen = x.tsNs := by
        have hl := ((tracks_run tree ac _).present k dp hdp).lastSeen
        rw [history_snoc, he, Option.toList_some, timestamps_snoc, List.getLast?_concat] at hl
        exact (UInt64.toNat_inj.mp (Option.some.inj hl)).symm
      have hle := UInt64.le_iff_toNat_le.mp (hmono old hold)
      rw [List.mem_singleton.mp hb, ← hlast]
      exact (hsum.le_lastSeen hes ha).trans hle

theorem SpreadBelow.mono {ps qs : List Pkt} (h : SpreadBelow (ps ++ qs)) : SpreadBelow ps :=
  fun p hp q hq => h p (List.mem_append_left _ hp) q (List.mem_append_left _ hq)

end Run

/-- **The duration of a tracked flow is sound after every packet** if and only if its packets are
applied in the order of their timestamps. -/
theorem duration_sound_iff_sorted (tree : DtTree maxDtNodes) (ac : Accounting) (es : List Event)
    (k : FlowKey) (hk : ((run (start tree ac) es).entry k).isSome)
    (hb : SpreadBelow (history k es)) :
    (∀ es₁ x es₂, es = es₁ ++ Event.packet x :: es₂ → x.frame.flowKey? = some k →
      DurationSound (start tree ac) k es₁ x) ↔
    (timestamps (history k es)).Pairwise (· ≤ ·) := by
  constructor
  · exact sorted_of_durationSound es
  intro hs es₁ x es₂ he hx
  have hsplit : es = (es₁ ++ [.packet x]) ++ es₂ := by rw [he]; simp
  rw [hsplit] at hk hs hb
  rw [history_append] at hs hb
  rw [timestamps, List.map_append, List.pairwise_append] at hs
  refine durationSound_of_sorted hx (isSome_entry_of_later hk ?_) hs.1 hb.mono
  rw [history_snoc, Event.pkt?_packet hx]
  simp

/-! ## Two packets of one flow -/

def datagramAt (ts : UInt64) : Input := ⟨udpFrame 0 emptyPayload, ts, ts⟩

theorem flowKey?_datagramAt (ts : UInt64) : (datagramAt ts).frame.flowKey? = some (udpKey 0) :=
  flowKey?_udpFrame 0 emptyPayload

theorem entry_two_datagrams (t u : UInt64) :
    (run zeroMaps [.packet (datagramAt t), .packet (datagramAt u)]).entry (udpKey 0) =
      some (nextEntry (some (nextEntry none t 42 zeroMaps.tree)) u 42 zeroMaps.tree) := by
  have hlen : (udpFrame 0 emptyPayload).bytes.length = 42 := length_udpFrame 0 emptyPayload
  have h₁ := entry_first (DtTree.zero maxDtNodes) Accounting.zero (flowKey?_datagramAt t)
  have h₂ := entry_snoc h₁ (flowKey?_datagramAt u)
  have ht : (run zeroMaps [.packet (datagramAt t)]).tree = zeroMaps.tree :=
    step_dtMap_packet zeroMaps (datagramAt t)
  simp only [datagramAt, hlen] at h₂ ht
  rw [← zeroMaps, ht] at h₂
  exact h₂

theorem history_two_datagrams (t u : UInt64) :
    history (udpKey 0) [.packet (datagramAt t), .packet (datagramAt u)] = [⟨t, 42⟩, ⟨u, 42⟩] := by
  have hp : ∀ v, (Event.packet (datagramAt v)).pkt? (udpKey 0) = some ⟨v, 42⟩ := fun v => by
    rw [Event.pkt?_packet (flowKey?_datagramAt v), datagramAt, length_udpFrame]; rfl
  simp [history, hp]

theorem duration_sound_in_order :
    DurationSound zeroMaps (udpKey 0) [.packet (datagramAt 3000)] (datagramAt 5000) := by
  have h := duration_sound_iff_sorted (DtTree.zero maxDtNodes) Accounting.zero
    [.packet (datagramAt 3000), .packet (datagramAt 5000)] (udpKey 0)
    (by rw [← zeroMaps, entry_two_datagrams]; rfl)
    (by rw [history_two_datagrams]; decide)
  refine h.mpr ?_ [.packet (datagramAt 3000)] (datagramAt 5000) [] rfl (flowKey?_datagramAt 5000)
  rw [history_two_datagrams]
  decide

/-- **Datagrams out of order**: with timestamps `5000` and `3000`, `last_seen` falls below
`start_ts` and the duration feature decodes to the low bits of an underflowed difference. -/
theorem duration_out_of_order :
    ∃ dp, (run zeroMaps [.packet (datagramAt 5000), .packet (datagramAt 3000)]).entry (udpKey 0) =
        some dp ∧
      dp.lastSeen < dp.startTs ∧
      (fixedToUint (dp.features featureFlowDuration)).toNat = 150870587516909 := by
  refine ⟨_, entry_two_datagrams 5000 3000, ?_, ?_⟩ <;> decide

end XdpDetector

import XdpDetector.Flow.Counters
import XdpDetector.Flow.Duration

/-!
# Consistency of the feature vector

With a clock that never runs backwards the six features of a flow fit together: the byte count lies
between the packet count times the extreme lengths, and the least inter-arrival time is at most the
duration. Each inequality is one of the packet history, read through the summary.

* `clock`: the timestamps of a run; `timestamps_sublist` finds those of a flow in it;
* `Summarizes.lengths_consistent`, **`Summarizes.minIAT_consistent`**: the statistics;
* `decode_pkts`, `decode_bytes`, `decode_iat`, ...: the features as integers;
* `feature_vector_consistent`: statistics and features of every entry.
-/

namespace XdpDetector

open Series

/-! ## The clock of a run -/

/-- The clock value an event reads. -/
def Event.ts? : Event → Option ℕ
  | .packet x => some x.tsNs.toNat
  | .reload _ => none

def clock (es : List Event) : List ℕ := es.filterMap Event.ts?

theorem timestamps_sublist (k : FlowKey) (es : List Event) :
    (timestamps (history k es)).Sublist (clock es) := by
  induction es with
  | nil => exact List.Sublist.refl _
  | cons e es ih =>
    cases e with
    | reload tree => exact ih
    | packet x =>
      by_cases hk : x.frame.flowKey? = some k
      · have hp := Event.pkt?_packet hk
        simp only [history, List.filterMap_cons, hp]
        exact ih.cons_cons _
      · have hp : (Event.packet x).pkt? k = none := if_neg hk
        simp only [history, List.filterMap_cons, hp]
        exact ih.cons _

/-! ## The statistics -/

section Stats

variable {dp : DataPoint} {ps : List Pkt}

theorem Summarizes.lengths_consistent (h : Summarizes dp ps) (hlen : ∀ p ∈ ps, 34 ≤ p.len) :
    1 ≤ dp.minPktLen.toNat ∧ dp.minPktLen.toNat ≤ dp.maxPktLen.toNat ∧
      ps.length * dp.minPktLen.toNat ≤ byteSum ps ∧
      byteSum ps ≤ ps.length * dp.maxPktLen.toNat := by
  have hmem := (List.min?_eq_some_iff.mp h.minPktLen).1
  obtain ⟨p, hp, hpl⟩ := List.mem_map.mp hmem
  have hle := le_of_max? h.maxPktLen _ hmem
  have hsum := sum_bounds h.minPktLen h.maxPktLen
  rw [lengths, List.length_map] at hsum
  refine ⟨?_, hle, hsum⟩
  have := hlen p hp
  omega

/-- **The least inter-arrival time is absent or at most the duration.** -/
theorem Summarizes.minIAT_consistent (h : Summarizes dp ps)
    (hs : (timestamps ps).Pairwise (· ≤ ·)) :
    dp.minIAT = noIAT ∨
      0 < dp.minIAT.toNat ∧ dp.minIAT.toNat ≤ dp.lastSeen.toNat - dp.startTs.toNat := by
  cases hg : (gaps (timestamps ps)).min? with
  | none =>
    have he := h.minIAT
    rw [hg] at he
    exact Or.inl (UInt64.toNat_inj.mp he)
  | some g =>
    have hmem := (List.min?_eq_some_iff.mp hg).1
    have he := h.minIAT
    rw [hg, Option.getD_some] at he
    rw [he]
    exact Or.inr ⟨pos_of_mem_gaps hmem, gap_le_span hs h.startTs h.lastSeen hmem⟩

theorem Summarizes.single (h : Summarizes dp ps) (h1 : ps.length = 1) :
    dp.startTs = dp.lastSeen ∧ dp.minIAT = noIAT ∧ dp.minPktLen = dp.maxPktLen ∧
      dp.maxPktLen.toNat = byteSum ps := by
  obtain ⟨p, rfl⟩ := List.length_eq_one_iff.mp h1
  refine ⟨?_, UInt64.toNat_inj.mp h.minIAT, ?_, ?_⟩
  · exact UInt64.toNat_inj.mp (Option.some.inj (h.startTs.symm.trans h.lastSeen))
  · exact UInt32.toNat_inj.mp (Option.some.inj (h.minPktLen.symm.trans h.maxPktLen))
  · exact (Option.some.inj h.maxPktLen).symm

end Stats

/-! ## The features as integers -/

def decode (dp : DataPoint) (i : Fin maxFeatures) : ℕ := (fixedToUint (dp.features i)).toNat

section Decode

variable {dp : DataPoint}

theorem decode_u32 (n : UInt32) : (fixedToUint (fixedFromUint n.toUInt64)).toNat = n.toNat := by
  have h := n.toNat_lt
  rw [fixedToUint_fixedFromUint (by rw [UInt32.toNat_toUInt64]; omega), UInt32.toNat_toUInt64]

theorem decode_pkts (hf : dp.features = computeFeatures dp) :
    decode dp featureTotalFwdPacket = dp.totalPkts.toNat := by
  rw [decode, hf]; exact decode_u32 _

theorem decode_bytes (hf : dp.features = computeFeatures dp) :
    decode dp featureTotalLengthOfFwdPacket = dp.totalBytes.toNat := by
  rw [decode, hf]; exact decode_u32 _

theorem decode_max (hf : dp.features = computeFeatures dp) :
    decode dp featureFwdPacketLengthMax = dp.maxPktLen.toNat := by
  rw [decode, hf]; exact decode_u32 _

theorem decode_min (hf : dp.features = computeFeatures dp) :
    decode dp featureFwdPacketLengthMin = dp.minPktLen.toNat := by
  rw [decode, hf]; exact decode_u32 _

theorem decode_iat_none (hf : dp.features = computeFeatures dp) (h : dp.minIAT = noIAT) :
    decode dp featureFwdIatMin = 0 := by
  have hz : iatUs dp = 0 := by rw [iatUs, if_neg (not_not.mpr h)]
  rw [decode, hf]
  show (fixedToUint (fixedFromUint (iatUs dp))).toNat = 0
  rw [hz]
  rfl

theorem decode_iat (hf : dp.features = computeFeatures dp) (h : dp.minIAT ≠ noIAT)
    (hlt : dp.minIAT.toNat / 1000 < 2 ^ 48) :
    decode dp featureFwdIatMin = dp.minIAT.toNat / 1000 := by
  have hz : (iatUs dp).toNat = dp.minIAT.toNat / 1000 := by
    rw [iatUs, if_pos h, UInt64.toNat_div]; rfl
  rw [decode, hf]
  show (fixedToUint (fixedFromUint (iatUs dp))).toNat = _
  rw [fixedToUint_fixedFromUint (by omega), hz]

end Decode

/-- The decoded features of a flow fit together. -/
structure FeaturesConsistent (dp : DataPoint) : Prop where
  pkts : 1 ≤ decode dp featureTotalFwdPacket
  bytes_ge : decode dp featureTotalFwdPacket * decode dp featureFwdPacketLengthMin ≤
    decode dp featureTotalLengthOfFwdPacket
  bytes_le : decode dp featureTotalLengthOfFwdPacket ≤
    decode dp featureTotalFwdPacket * decode dp featureFwdPacketLengthMax
  iat_le : decode dp featureFwdIatMin ≤ decode dp featureFlowDuration
  single : decode dp featureTotalFwdPacket = 1 →
    decode dp featureFlowDuration = 0 ∧ decode dp featureFwdIatMin = 0 ∧
      decode dp featureFwdPacketLengthMin = decode dp featureFwdPacketLengthMax ∧
      decode dp featureFwdPacketLengthMax = decode dp featureTotalLengthOfFwdPacket

theorem featuresConsistent_of_summarizes {dp : DataPoint} {ps : List Pkt} (h : Summarizes dp ps)
    (hf : dp.features = computeFeatures dp) (hlen : ∀ p ∈ ps, 34 ≤ p.len)
    (hs : (timestamps ps).Pairwise (· ≤ ·)) (hbytes : byteSum ps < 2 ^ 32)
    (hdur : (dp.lastSeen.toNat - dp.startTs.toNat) / 1000 < 2 ^ 48) : FeaturesConsistent dp := by
  obtain ⟨-, -, hlo, hhi⟩ := h.lengths_consistent hlen
  have hcount := length_le_byteSum hlen
  have hpos := List.length_pos_of_ne_nil h.ne_nil
  have hpkts : dp.totalPkts.toNat = ps.length := by rw [h.totalPkts]; omega
  have htot : dp.totalBytes.toNat = byteSum ps := by rw [h.totalBytes]; omega
  have hd : decode dp featureFlowDuration = (dp.lastSeen.toNat - dp.startTs.toNat) / 1000 :=
    fixedToUint_duration hf (h.startTs_le_lastSeen hs) hdur
  constructor
  · rw [decode_pkts hf]; omega
  · rw [decode_pkts hf, decode_bytes hf, decode_min hf, hpkts, htot]; exact hlo
  · rw [decode_pkts hf, decode_bytes hf, decode_max hf, hpkts, htot]; exact hhi
  · by_cases hn : dp.minIAT = noIAT
    · rw [decode_iat_none hf hn]; exact Nat.zero_le _
    · have hle := Nat.div_le_div_right (c := 1000) ((h.minIAT_consistent hs).resolve_left hn).2
      rw [decode_iat hf hn (by omega), hd]
      exact hle
  · rw [decode_pkts hf, hpkts]
    intro h1
    obtain ⟨hts, hiat, hml, hmb⟩ := h.single h1
    rw [hd, decode_iat_none hf hiat, decode_min hf, decode_max hf, decode_bytes hf, hml, hts, htot]
    exact ⟨by rw [Nat.sub_self], rfl, rfl, hmb⟩

/-- **The feature vector is consistent.** With non-decreasing timestamps, every flow entry has
`start_ts ≤ last_seen`, `1 ≤ min_pkt_len ≤ max_pkt_len` and a `min_IAT` that is absent or positive
and at most the duration; and as long as the flow has sent less than `2 ^ 32` bytes in less than
`2 ^ 48` microseconds, its decoded features fit together. -/
theorem feature_vector_consistent (tree : DtTree maxDtNodes) (ac : Accounting) (es : List Event)
    (hclock : (clock es).Pairwise (· ≤ ·)) (k : FlowKey) (dp : DataPoint)
    (h : (run (start tree ac) es).entry k = some dp) :
    dp.startTs ≤ dp.lastSeen ∧
    (1 ≤ dp.minPktLen ∧ dp.minPktLen ≤ dp.maxPktLen) ∧
    (dp.minIAT.toNat = 2 ^ 64 - 1 ∨ 0 < dp.minIAT ∧ dp.minIAT ≤ dp.lastSeen - dp.startTs) ∧
    (byteSum (history k es) < 2 ^ 32 → (dp.lastSeen - dp.startTs).toNat / 1000 < 2 ^ 48 →
      FeaturesConsistent dp) := by
  have hsum := (tracks_run tree ac es).present k dp h
  have hs := hclock.sublist (timestamps_sublist k es)
  have hlen : ∀ p ∈ history k es, 34 ≤ p.len := fun p hp => (len_of_mem_history hp).1
  have hle := hsum.startTs_le_lastSeen hs
  have hsub := UInt64.toNat_sub_of_le _ _ hle
  obtain ⟨hmin, hmax, -, -⟩ := hsum.lengths_consistent hlen
  refine ⟨hle, ⟨UInt32.le_iff_toNat_le.mpr hmin, UInt32.le_iff_toNat_le.mpr hmax⟩, ?_, ?_⟩
  · refine (hsum.minIAT_consistent hs).imp (fun hn => by rw [hn]; rfl) fun hp => ?_
    rw [UInt64.lt_iff_toNat_lt, UInt64.le_iff_toNat_le, hsub]
    exact hp
  · intro hbytes hdur
    rw [hsub] at hdur
    exact featuresConsistent_of_summarizes hsum (features_of_entry h) hlen hs hbytes hdur

theorem feature_vector_two_datagrams :
    ∃ dp, (run zeroMaps [.packet (datagramAt 3000), .packet (datagramAt 5000)]).entry (udpKey 0) =
      some dp ∧ FeaturesConsistent dp := by
  refine ⟨_, entry_two_datagrams 3000 5000, ?_⟩
  refine (feature_vector_consistent (DtTree.zero maxDtNodes) Accounting.zero
    [.packet (datagramAt 3000), .packet (datagramAt 5000)] (by decide) (udpKey 0) _
    (entry_two_datagrams 3000 5000)).2.2.2 ?_ (by decide)
  rw [history_two_datagrams]
  decide

end XdpDetector

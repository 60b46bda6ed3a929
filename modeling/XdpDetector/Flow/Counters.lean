import XdpDetector.Flow.Rows

/-!
# The cumulative features

`TOTAL_FWD_PACKET` and `TOTAL_LENGTH_OF_FWD_PACKET` are read off 32-bit counters. They are the true
totals of a flow, and grow with it, as long as the flow has sent less than `2 ^ 32` bytes; since a
tracked packet has at least 34 bytes, the packet counter then does not wrap either.

* `CountersFaithful`, **`countersFaithful_iff`**: the two features against the history of the flow;
* `cumulative_iff_bytes_lt`: two successive packets of a flow;
* `bulk`: a bulk transfer whose byte feature drops.
-/

namespace XdpDetector

theorem toNat_fixedFromUint_u32 (n : UInt32) :
    (fixedFromUint n.toUInt64).toNat = n.toNat * fixedScale := by
  have h := n.toNat_lt
  rw [toNat_fixedFromUint_of_lt (by rw [UInt32.toNat_toUInt64]; omega), UInt32.toNat_toUInt64]

/-- **The cumulative features of `dp` are the true totals of `ps`.** -/
def CountersFaithful (dp : DataPoint) (ps : List Pkt) : Prop :=
  (dp.features featureTotalFwdPacket).toNat = fixedScale * ps.length ∧
    (dp.features featureTotalLengthOfFwdPacket).toNat = fixedScale * byteSum ps

theorem length_le_byteSum {ps : List Pkt} (h : ∀ p ∈ ps, 34 ≤ p.len) :
    34 * ps.length ≤ byteSum ps := by
  have hl : ∀ n ∈ lengths ps, 34 ≤ n := by
    intro n hn
    obtain ⟨p, hp, rfl⟩ := List.mem_map.mp hn
    exact h p hp
  have hs := List.card_nsmul_le_sum (lengths ps) 34 hl
  simpa [lengths, byteSum, Nat.mul_comm] using hs

section Entry

variable {tree : DtTree maxDtNodes} {ac : Accounting} {es : List Event} {k : FlowKey}
  {dp : DataPoint}

theorem toNat_feature_pkts (h : (run (start tree ac) es).entry k = some dp) :
    (dp.features featureTotalFwdPacket).toNat =
      (history k es).length % 2 ^ 32 * fixedScale := by
  rw [features_of_entry h, ← ((tracks_run tree ac es).present k dp h).totalPkts]
  exact toNat_fixedFromUint_u32 dp.totalPkts

theorem toNat_feature_bytes (h : (run (start tree ac) es).entry k = some dp) :
    (dp.features featureTotalLengthOfFwdPacket).toNat =
      byteSum (history k es) % 2 ^ 32 * fixedScale := by
  rw [features_of_entry h, ← ((tracks_run tree ac es).present k dp h).totalBytes]
  exact toNat_fixedFromUint_u32 dp.totalBytes

/-- **The cumulative features are the true totals below `2 ^ 32` bytes, and only there.** -/
theorem countersFaithful_iff (h : (run (start tree ac) es).entry k = some dp) :
    CountersFaithful dp (history k es) ↔ byteSum (history k es) < 2 ^ 32 := by
  have hlen := @length_le_byteSum (history k es) fun p hp => (len_of_mem_history hp).1
  rw [CountersFaithful, toNat_feature_pkts h, toNat_feature_bytes h, fixedScale]
  omega

end Entry

theorem history_successive {k : FlowKey} {es₂ : List Event} {y : Input} (es₁ : List Event)
    (hy : y.frame.flowKey? = some k) (hes₂ : history k es₂ = []) :
    history k (es₁ ++ es₂ ++ [.packet y]) =
      history k es₁ ++ [⟨y.tsNs, y.frame.bytes.length⟩] := by
  rw [history_snoc, history_append, hes₂, Event.pkt?_packet hy, List.append_nil]
  rfl

/-- **The cumulative features never go backwards below `2 ^ 32` bytes.** Let `dp` be the entry left
by a packet of a flow, `y` its next packet and `dp'` the entry after it. The features of both are
the true totals and grow from `dp` to `dp'`, if and only if the flow has sent less than `2 ^ 32`
bytes up to and including `y`. -/
theorem cumulative_iff_bytes_lt (tree : DtTree maxDtNodes) (ac : Accounting) (es₁ es₂ : List Event)
    (y : Input) (k : FlowKey) (dp dp' : DataPoint) (hy : y.frame.flowKey? = some k)
    (hes₂ : history k es₂ = []) (h : (run (start tree ac) es₁).entry k = some dp)
    (h' : (run (start tree ac) (es₁ ++ es₂ ++ [.packet y])).entry k = some dp') :
    (CountersFaithful dp (history k es₁) ∧
      CountersFaithful dp' (history k (es₁ ++ es₂ ++ [.packet y])) ∧
      dp.features featureTotalFwdPacket < dp'.features featureTotalFwdPacket ∧
      dp.features featureTotalLengthOfFwdPacket ≤ dp'.features featureTotalLengthOfFwdPacket) ↔
    byteSum (history k (es₁ ++ es₂ ++ [.packet y])) < 2 ^ 32 := by
  rw [← countersFaithful_iff h']
  constructor
  · intro hc
    exact hc.2.1
  intro hc
  have hlt := (countersFaithful_iff h').mp hc
  have hsplit := history_successive es₁ hy hes₂
  have hsum : byteSum (history k es₁) ≤ byteSum (history k (es₁ ++ es₂ ++ [.packet y])) := by
    rw [hsplit, byteSum_append]; omega
  have hlen : (history k (es₁ ++ es₂ ++ [.packet y])).length = (history k es₁).length + 1 := by
    rw [hsplit, List.length_append, List.length_singleton]
  have hf := (countersFaithful_iff h).mpr (lt_of_le_of_lt hsum hlt)
  refine ⟨hf, hc, ?_, ?_⟩
  · rw [UInt64.lt_iff_toNat_lt, hf.1, hc.1, hlen]
    unfold fixedScale
    omega
  · rw [UInt64.le_iff_toNat_le, hf.2, hc.2]
    exact Nat.mul_le_mul_left _ hsum

/-! ## A bulk transfer -/

def bulkInput : Input := ⟨udpFrame 0 fullPayload, 1, 1⟩

def bulk (n : ℕ) : List Event := List.replicate n (.packet bulkInput)

theorem flowKey?_bulkInput : bulkInput.frame.flowKey? = some (udpKey 0) :=
  flowKey?_udpFrame 0 fullPayload

theorem bulk_succ (n : ℕ) : bulk (n + 1) = bulk n ++ [.packet bulkInput] :=
  List.replicate_succ'

theorem history_bulk (n : ℕ) : history (udpKey 0) (bulk n) = List.replicate n ⟨1, 1514⟩ := by
  induction n with
  | zero => rfl
  | succ n ih =>
    have hlen : bulkInput.frame.bytes.length = 1514 := length_udpFrame 0 fullPayload
    rw [bulk_succ, history_snoc, ih, Event.pkt?_packet flowKey?_bulkInput, hlen,
      List.replicate_succ']
    rfl

theorem byteSum_bulk (n : ℕ) : byteSum (history (udpKey 0) (bulk n)) = n * 1514 := by
  rw [history_bulk, byteSum, lengths, List.map_replicate, List.sum_replicate_nat]

theorem isSome_entry_bulk (n : ℕ) : ((run zeroMaps (bulk (n + 1))).entry (udpKey 0)).isSome := by
  have h : ((run zeroMaps [.packet bulkInput]).entry (udpKey 0)).isSome := by
    rw [zeroMaps, entry_first _ _ flowKey?_bulkInput]; rfl
  exact isSome_entry_append h (bulk n)

theorem cumulative_two_datagrams :
    ∃ dp dp', (run zeroMaps (bulk 1)).entry (udpKey 0) = some dp ∧
      (run zeroMaps (bulk 2)).entry (udpKey 0) = some dp' ∧
      dp.features featureTotalFwdPacket < dp'.features featureTotalFwdPacket ∧
      dp.features featureTotalLengthOfFwdPacket ≤ dp'.features featureTotalLengthOfFwdPacket := by
  obtain ⟨dp, h⟩ := Option.isSome_iff_exists.mp (isSome_entry_bulk 0)
  obtain ⟨dp', h'⟩ := Option.isSome_iff_exists.mp (isSome_entry_bulk 1)
  have hlt : byteSum (history (udpKey 0) (bulk 2)) < 2 ^ 32 := by rw [byteSum_bulk]; norm_num
  exact ⟨dp, dp', h, h', ((cumulative_iff_bytes_lt _ _ (bulk 1) [] bulkInput _ dp dp'
    flowKey?_bulkInput rfl h h').mpr hlt).2.2⟩

/-- **A bulk transfer looks small**: at its 2836835th full-size datagram the byte feature of a flow
drops, and it is no longer `65536` times the bytes sent. -/
theorem bulk_bytes_drop :
    ∃ dp dp', (run zeroMaps (bulk 2836834)).entry (udpKey 0) = some dp ∧
      (run zeroMaps (bulk 2836834 ++ [.packet bulkInput])).entry (udpKey 0) =
        some dp' ∧
      dp'.features featureTotalLengthOfFwdPacket < dp.features featureTotalLengthOfFwdPacket ∧
      (dp'.features featureTotalLengthOfFwdPacket).toNat ≠
        65536 * byteSum (history (udpKey 0) (bulk 2836835)) := by
  obtain ⟨dp, h⟩ := Option.isSome_iff_exists.mp (isSome_entry_bulk 2836833)
  obtain ⟨dp', h'⟩ := Option.isSome_iff_exists.mp (isSome_entry_bulk 2836834)
  have hb := toNat_feature_bytes h
  have hb' := toNat_feature_bytes h'
  rw [byteSum_bulk] at hb hb'
  rw [bulk_succ] at h'
  refine ⟨dp, dp', h, h', ?_, ?_⟩
  · rw [UInt64.lt_iff_toNat_lt, hb, hb']
    norm_num [fixedScale]
  · rw [hb', byteSum_bulk]
    norm_num [fixedScale]

end XdpDetector

import XdpDetector.System
import XdpDetector.Lib.Series

/-!
# What a flow entry summarises

The purpose of a flow entry is to summarise the packets of its flow. `Summarizes` states this in
terms of the packets alone: the first and last timestamp, count and length sum as 32-bit numbers,
the extreme lengths, and the least gap between consecutive packets.

* `Summarizes`: the statistics of an entry are those of a list of packets;
* `summarizes_newFlow`, **`summarizes_countPacket`**: the create and the update path;
* `summarizes_nextEntry`: both paths, for the entry a packet leaves behind.
-/

namespace XdpDetector

open Series

def timestamps (ps : List Pkt) : List ℕ := ps.map fun p => p.ts.toNat

def lengths (ps : List Pkt) : List ℕ := ps.map Pkt.len

/-- The true byte count of a list of packets. -/
def byteSum (ps : List Pkt) : ℕ := (lengths ps).sum

/-- **The statistics of `dp` are those of the packets `ps`.** -/
structure Summarizes (dp : DataPoint) (ps : List Pkt) : Prop where
  startTs : (timestamps ps).head? = some dp.startTs.toNat
  lastSeen : (timestamps ps).getLast? = some dp.lastSeen.toNat
  totalPkts : dp.totalPkts.toNat = ps.length % 2 ^ 32
  totalBytes : dp.totalBytes.toNat = byteSum ps % 2 ^ 32
  maxPktLen : (lengths ps).max? = some dp.maxPktLen.toNat
  minPktLen : (lengths ps).min? = some dp.minPktLen.toNat
  minIAT : dp.minIAT.toNat = (gaps (timestamps ps)).min?.getD (2 ^ 64 - 1)

theorem timestamps_snoc (ps : List Pkt) (p : Pkt) :
    timestamps (ps ++ [p]) = timestamps ps ++ [p.ts.toNat] := List.map_append

theorem lengths_snoc (ps : List Pkt) (p : Pkt) : lengths (ps ++ [p]) = lengths ps ++ [p.len] :=
  List.map_append

theorem byteSum_append (ps qs : List Pkt) : byteSum (ps ++ qs) = byteSum ps + byteSum qs := by
  simp [byteSum, lengths]

theorem byteSum_snoc (ps : List Pkt) (p : Pkt) : byteSum (ps ++ [p]) = byteSum ps + p.len := by
  rw [byteSum_append]
  simp [byteSum, lengths]

theorem Summarizes.ne_nil {dp : DataPoint} {ps : List Pkt} (h : Summarizes dp ps) : ps ≠ [] := by
  rintro rfl
  cases h.startTs

theorem toNat_toUInt32_of_lt {len : UInt64} (h : len.toNat < 2 ^ 32) :
    len.toUInt32.toNat = len.toNat := by
  rw [UInt64.toNat_toUInt32, Nat.mod_eq_of_lt h]

/-! ## The create path -/

theorem summarizes_newFlow (ts len : UInt64) (hlen : len.toNat < 2 ^ 32)
    (tree : Option (DtTree maxDtNodes)) :
    Summarizes (classify (newFlow ts len) ts tree) [⟨ts, len.toNat⟩] := by
  have hl := toNat_toUInt32_of_lt hlen
  have hmod : len.toNat % 2 ^ 32 = len.toNat := Nat.mod_eq_of_lt hlen
  refine ⟨rfl, rfl, rfl, ?_, ?_, ?_, rfl⟩
  · simp only [byteSum, lengths, List.map_cons, List.map_nil, List.sum_cons, List.sum_nil,
      Nat.add_zero, hmod]
    exact hl
  · exact congrArg some hl.symm
  · exact congrArg some hl.symm

/-! ## The update path -/

section Update

variable {dp : DataPoint} {ts len : UInt64}

theorem toNat_iatNs : (iatNs dp ts).toNat =
    if 0 < dp.lastSeen.toNat ∧ dp.lastSeen.toNat ≤ ts.toNat then ts.toNat - dp.lastSeen.toNat
    else 0 := by
  unfold iatNs
  by_cases h : dp.lastSeen > 0 ∧ ts ≥ dp.lastSeen
  · have h0 : 0 < dp.lastSeen.toNat := UInt64.lt_iff_toNat_lt.mp h.1
    have hle : dp.lastSeen.toNat ≤ ts.toNat := UInt64.le_iff_toNat_le.mp h.2
    rw [if_pos h, if_pos ⟨h0, hle⟩, UInt64.toNat_sub_of_le _ _ h.2]
  · rw [if_neg h, if_neg]
    · rfl
    · rintro ⟨h0, hle⟩
      exact h ⟨UInt64.lt_iff_toNat_lt.mpr h0, UInt64.le_iff_toNat_le.mpr hle⟩

theorem toNat_countPacket_minIAT : (countPacket dp ts len).minIAT.toNat =
    if 0 < dp.lastSeen.toNat ∧ dp.lastSeen.toNat < ts.toNat then
      min dp.minIAT.toNat (ts.toNat - dp.lastSeen.toNat) else dp.minIAT.toNat := by
  have hiat := @toNat_iatNs dp ts
  show (if iatNs dp ts > 0 ∧ iatNs dp ts < dp.minIAT then iatNs dp ts else dp.minIAT).toNat = _
  simp only [gt_iff_lt, UInt64.lt_iff_toNat_lt, UInt64.toNat_zero]
  split_ifs at hiat ⊢ <;> omega

theorem toNat_countPacket_maxPktLen (hlen : len.toNat < 2 ^ 32) :
    (countPacket dp ts len).maxPktLen.toNat = max dp.maxPktLen.toNat len.toNat := by
  have hl := toNat_toUInt32_of_lt hlen
  show (if len > dp.maxPktLen.toUInt64 then len.toUInt32 else dp.maxPktLen).toNat = _
  simp only [gt_iff_lt, UInt64.lt_iff_toNat_lt, UInt32.toNat_toUInt64]
  split_ifs <;> omega

theorem toNat_countPacket_minPktLen (hlen : len.toNat < 2 ^ 32) :
    (countPacket dp ts len).minPktLen.toNat = min dp.minPktLen.toNat len.toNat := by
  have hl := toNat_toUInt32_of_lt hlen
  show (if len < dp.minPktLen.toUInt64 then len.toUInt32 else dp.minPktLen).toNat = _
  simp only [UInt64.lt_iff_toNat_lt, UInt32.toNat_toUInt64]
  split_ifs <;> omega

theorem min?_gaps_getD_concat (l : List ℕ) (a : ℕ) (c : Prop) [Decidable c] (ha : a < 2 ^ 64) :
    (l ++ if c then [a] else []).min?.getD (2 ^ 64 - 1) =
      if c then min (l.min?.getD (2 ^ 64 - 1)) a else l.min?.getD (2 ^ 64 - 1) := by
  split_ifs
  · rw [min?_concat]
    cases l.min? with
    | none => simp only [Option.elim_none, Option.getD_some, Option.getD_none]; omega
    | some m => rfl
  · rw [List.append_nil]

/-- **A packet of a known flow** extends the summary. -/
theorem summarizes_countPacket {ps : List Pkt} (h : Summarizes dp ps) (hlen : len.toNat < 2 ^ 32)
    (tree : Option (DtTree maxDtNodes)) :
    Summarizes (classify (countPacket dp ts len) ts tree) (ps ++ [⟨ts, len.toNat⟩]) := by
  constructor
  · rw [timestamps_snoc, List.head?_append, h.startTs]; rfl
  · rw [timestamps_snoc, List.getLast?_concat]; rfl
  · show (dp.totalPkts + 1).toNat = _
    rw [UInt32.toNat_add, h.totalPkts, List.length_append]
    simp
  · show (dp.totalBytes + len.toUInt32).toNat = _
    rw [UInt32.toNat_add, h.totalBytes, UInt64.toNat_toUInt32, byteSum_snoc, ← Nat.add_mod]
  · rw [lengths_snoc, max?_concat, h.maxPktLen]
    exact congrArg some (@toNat_countPacket_maxPktLen dp ts len hlen).symm
  · rw [lengths_snoc, min?_concat, h.minPktLen]
    exact congrArg some (@toNat_countPacket_minPktLen dp ts len hlen).symm
  · have hts := ts.toNat_lt
    rw [timestamps_snoc, gaps_concat h.lastSeen,
      min?_gaps_getD_concat _ _ _ (Nat.lt_of_le_of_lt (Nat.sub_le _ _) hts), ← h.minIAT]
    exact @toNat_countPacket_minIAT dp ts len

end Update

/-- **The entry a packet leaves behind** summarises one packet more. -/
theorem summarizes_nextEntry {old : Option DataPoint} {ps : List Pkt} (p : Pkt)
    (hlen : p.len < 2 ^ 32) (hnone : old = none → ps = [])
    (hsome : ∀ dp, old = some dp → Summarizes dp ps) (tree : DtTree maxDtNodes) :
    Summarizes (nextEntry old p.ts (UInt64.ofNat p.len) tree) (ps ++ [p]) := by
  have hl : (UInt64.ofNat p.len).toNat = p.len := by
    rw [UInt64.toNat_ofNat', Nat.mod_eq_of_lt (by omega)]
  have hlen' : (UInt64.ofNat p.len).toNat < 2 ^ 32 := by rw [hl]; exact hlen
  have hp : (⟨p.ts, (UInt64.ofNat p.len).toNat⟩ : Pkt) = p := by rw [hl]
  cases old with
  | none =>
    have h := summarizes_newFlow p.ts (UInt64.ofNat p.len) hlen' (some tree)
    rw [hp] at h
    rw [hnone rfl]
    exact h
  | some dp =>
    have h := @summarizes_countPacket dp p.ts _ ps (hsome dp rfl) hlen' (some tree)
    rw [hp] at h
    exact h

end XdpDetector

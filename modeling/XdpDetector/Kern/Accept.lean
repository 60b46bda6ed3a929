import XdpDetector.Kern.Parse

/-!
# The frames the parser accepts

All that `parse_packet_get_data` checks is that the fixed headers it reads end inside the frame. The
header length of the IPv4 header is used unchecked, so that a short one moves the transport header
back into the addresses, and one beyond the frame goes unnoticed for the protocols without a
transport header to read.

* `fixedHeaderSize`, `Fits`: what the parser checks;
* `parsePacketGetData_of_fits`, `parsePacketGetData_of_not_fits`: all that the parser computes;
* `toNat_load16`, `toNat_bpfNtohs`: fields as bytes;
* `Sound`, **`sound_iff_header_length`**: the accepted frames whose headers lie one after another.
-/

namespace XdpDetector

open ByteFmt

/-- The transport header that the parser reads. -/
def fixedHeaderSize (proto : UInt8) : Option ℕ :=
  if proto = ipprotoIcmp then some sizeofIcmphdr
  else if proto = ipprotoTcp then some sizeofTcphdr
  else if proto = ipprotoUdp then some sizeofUdphdr
  else none

namespace Frame

variable (f : Frame)

/-- The header length of the IPv4 header, in words. -/
def ihl : ℕ := (f.byte 14).toNat % 16

/-- The checks of the parser. -/
def Fits : Prop :=
  34 ≤ f.bytes.length ∧ f.load16 12 = bpfNtohs ethPIp ∧
    ∀ n, fixedHeaderSize (f.byte 23) = some n → transportOff f + n ≤ f.bytes.length

/-- One of the two whitelisted echo messages. -/
def isEcho : Prop :=
  f.byte 23 = ipprotoIcmp ∧ isLabEcho (f.load32 26) (f.load32 30) (f.byte (transportOff f)) = true

instance : Decidable f.isEcho := by unfold isEcho; infer_instance

/-- The port at an offset of the transport header; `0` for a protocol without ports. -/
def port (off : ℕ) : UInt16 :=
  if f.byte 23 = ipprotoTcp ∨ f.byte 23 = ipprotoUdp then bpfNtohs (f.load16 (transportOff f + off))
  else 0

theorem transportOff_eq : transportOff f = 14 + 4 * f.ihl := by
  have h : (f.byte 14 &&& 0xf).toNat = (f.byte 14).toNat % 16 := by
    rw [UInt8.toNat_and]
    exact Nat.and_two_pow_sub_one_eq_mod (f.byte 14).toNat 4
  rw [transportOff, sizeofEthhdr, h, ihl, Nat.mul_comm]

end Frame

/-! ## All that the parser computes -/

section Parse

variable {f : Frame} (key : FlowKey) (pktLen : UInt64)

theorem fixedHeaderSize_cases (proto : UInt8) :
    (proto = ipprotoIcmp ∧ fixedHeaderSize proto = some sizeofIcmphdr) ∨
    (proto = ipprotoTcp ∧ fixedHeaderSize proto = some sizeofTcphdr) ∨
    (proto = ipprotoUdp ∧ fixedHeaderSize proto = some sizeofUdphdr) ∨
    ((proto ≠ ipprotoIcmp ∧ proto ≠ ipprotoTcp ∧ proto ≠ ipprotoUdp) ∧
      fixedHeaderSize proto = none) := by
  unfold fixedHeaderSize
  split_ifs with hi ht hu
  · exact Or.inl ⟨hi, rfl⟩
  · exact Or.inr (Or.inl ⟨ht, rfl⟩)
  · exact Or.inr (Or.inr (Or.inl ⟨hu, rfl⟩))
  · exact Or.inr (Or.inr (Or.inr ⟨⟨hi, ht, hu⟩, rfl⟩))

theorem parseTransport_of_fits (hproto : key.proto = f.byte 23) (hsrc : key.srcIp = f.load32 26)
    (hdst : key.dstIp = f.load32 30)
    (hfit : ∀ n, fixedHeaderSize (f.byte 23) = some n → transportOff f + n ≤ f.bytes.length) :
    parseTransport f key pktLen =
      if f.isEcho then ⟨1, key, pktLen⟩
      else ⟨0, { key with srcPort := f.port 0, dstPort := f.port 2 }, f.len⟩ := by
  have hz : bpfNtohs 0 = 0 := by decide
  rw [← hproto] at hfit
  rcases fixedHeaderSize_cases key.proto with ⟨hp, hs⟩ | ⟨hp, hs⟩ | ⟨hp, hs⟩ | ⟨⟨hi, ht, hu⟩, -⟩
  · have hlen := hfit _ hs
    simp only [parseTransport, parsePorts, Frame.isEcho, Frame.port, ← hproto, hp, if_true,
      if_neg (not_lt.mpr hlen), hsrc, hdst, true_and, hz,
      show ipprotoIcmp ≠ ipprotoTcp by decide, show ipprotoIcmp ≠ ipprotoUdp by decide, if_false,
      or_self]
  · have hlen := hfit _ hs
    simp only [parseTransport, parsePorts, Frame.isEcho, Frame.port, ← hproto, hp, if_true,
      if_neg (not_lt.mpr hlen), show ipprotoTcp ≠ ipprotoIcmp by decide, if_false, false_and,
      true_or, Nat.add_zero]
  · have hlen := hfit _ hs
    simp only [parseTransport, parsePorts, Frame.isEcho, Frame.port, ← hproto, hp, if_true,
      if_neg (not_lt.mpr hlen), show ipprotoUdp ≠ ipprotoIcmp by decide,
      show ipprotoUdp ≠ ipprotoTcp by decide, if_false, false_and, or_true, Nat.add_zero]
  · simp only [parseTransport, parsePorts, Frame.isEcho, Frame.port, ← hproto, hi, ht, hu, if_false,
      false_and, or_self, hz]

theorem parseTransport_of_not_fits {n : ℕ} (hs : fixedHeaderSize key.proto = some n)
    (hlen : ¬ transportOff f + n ≤ f.bytes.length) :
    parseTransport f key pktLen = ⟨-1, key, pktLen⟩ := by
  rw [not_le] at hlen
  rcases fixedHeaderSize_cases key.proto with ⟨hp, hs'⟩ | ⟨hp, hs'⟩ | ⟨hp, hs'⟩ | ⟨-, hs'⟩
  all_goals rw [hs'] at hs; cases hs
  · rw [parseTransport, if_pos hp, if_pos hlen]
  · rw [parseTransport, hp, if_neg (by decide), parsePorts, if_pos hp, if_pos hlen]
  · rw [parseTransport, hp, if_neg (by decide), parsePorts, hp, if_neg (by decide), if_pos rfl,
      if_pos hlen]

/-- **What the parser computes on the frames it accepts.** -/
theorem parsePacketGetData_of_fits (h : f.Fits) :
    parsePacketGetData f key pktLen =
      if f.isEcho then
        ⟨1, ⟨f.load32 26, key.srcPort, f.load32 30, key.dstPort, f.byte 23⟩, pktLen⟩
      else ⟨0, ⟨f.load32 26, f.port 0, f.load32 30, f.port 2, f.byte 23⟩, f.len⟩ := by
  obtain ⟨hlen, heth, hfit⟩ := h
  rw [parsePacketGetData, if_neg (by unfold sizeofEthhdr; omega), heth, if_neg (by decide),
    if_neg (by simp), if_neg (by unfold sizeofEthhdr sizeofIphdr; omega)]
  exact parseTransport_of_fits _ pktLen rfl rfl rfl hfit

theorem parsePacketGetData_of_not_fits (h : ¬ f.Fits) :
    (parsePacketGetData f key pktLen).ret < 0 := by
  unfold parsePacketGetData
  split_ifs with h14 hlldp heth h34
  · simp
  · simp
  · simp
  · simp
  · have hfit : ¬ ∀ n, fixedHeaderSize (f.byte 23) = some n →
        transportOff f + n ≤ f.bytes.length := by
      intro hc
      unfold sizeofEthhdr sizeofIphdr at h34
      exact h ⟨by omega, not_not.mp heth, hc⟩
    obtain ⟨n, hn⟩ := not_forall.mp hfit
    obtain ⟨hs, hlen⟩ := Classical.not_imp.mp hn
    rw [parseTransport_of_not_fits _ pktLen hs hlen]
    simp

/-- **The frames the parser accepts.** -/
theorem accepted_iff_fits :
    ((parsePacketGetData f key pktLen).ret = 0 ∨ (parsePacketGetData f key pktLen).ret = 1) ↔
      f.Fits := by
  constructor
  · intro h
    by_contra hn
    have := parsePacketGetData_of_not_fits key pktLen hn
    omega
  · intro h
    rw [parsePacketGetData_of_fits key pktLen h]
    split_ifs
    · exact Or.inr rfl
    · exact Or.inl rfl

end Parse

/-! ## Fields as bytes -/

theorem getElem?_eq_byte {f : Frame} {off : ℕ} (h : off < f.bytes.length) :
    f.bytes[off]? = some (f.byte off) := by
  rw [Frame.byte, List.getD_eq_getElem?_getD, List.getElem?_eq_getElem h, Option.getD_some]

theorem drop_eq_byte_cons {f : Frame} {off : ℕ} (h : off < f.bytes.length) :
    f.bytes.drop off = f.byte off :: f.bytes.drop (off + 1) := by
  have hb := getElem?_eq_byte h
  rw [List.getElem?_eq_getElem h] at hb
  rw [List.drop_eq_getElem_cons h, Option.some.inj hb]

theorem toNat_load16 {f : Frame} {off : ℕ} (h : off + 2 ≤ f.bytes.length) :
    (f.load16 off).toNat = (f.byte off).toNat + 256 * (f.byte (off + 1)).toNat := by
  have h0 := (f.byte off).toNat_lt
  have h1 := (f.byte (off + 1)).toNat_lt
  rw [Frame.load16, drop_eq_byte_cons (show off < f.bytes.length by omega),
    drop_eq_byte_cons (show off + 1 < f.bytes.length by omega), UInt16.toNat_ofNat']
  show ((f.byte off).toNat + 256 * ((f.byte (off + 1)).toNat + 256 * 0)) % 2 ^ 16 = _
  omega

theorem toNat_bpfNtohs (x : UInt16) :
    (bpfNtohs x).toNat = 256 * (x.toNat % 256) + x.toNat / 256 := by
  have hlt := x.toNat_lt
  have hl : (x <<< 8).toNat = 2 ^ 8 * (x.toNat % 256) := by
    rw [UInt16.toNat_shiftLeft, Nat.shiftLeft_eq]
    show x.toNat * 2 ^ 8 % 2 ^ 16 = _
    omega
  have hr : (x >>> 8).toNat = x.toNat / 256 := by
    rw [UInt16.toNat_shiftRight, Nat.shiftRight_eq_div_pow]
    rfl
  rw [bpfNtohs, UInt16.toNat_or, hl, hr, ← Nat.two_pow_add_eq_or_of_lt (by omega)]

theorem toNat_ntohs_load16 {f : Frame} {off : ℕ} (h : off + 2 ≤ f.bytes.length) :
    (bpfNtohs (f.load16 off)).toNat =
      256 * (f.byte off).toNat + (f.byte (off + 1)).toNat := by
  have h0 := (f.byte off).toNat_lt
  have h1 := (f.byte (off + 1)).toNat_lt
  rw [toNat_bpfNtohs, toNat_load16 h]
  omega

theorem load16_eq_ethPIp_iff {f : Frame} (h : 14 ≤ f.bytes.length) :
    f.load16 12 = bpfNtohs ethPIp ↔ f.byte 12 = 0x08 ∧ f.byte 13 = 0x00 := by
  have h0 := (f.byte 12).toNat_lt
  rw [← UInt16.toNat_inj, ← UInt8.toNat_inj, ← UInt8.toNat_inj, toNat_load16 h]
  show (f.byte 12).toNat + 256 * (f.byte 13).toNat = 8 ↔
    (f.byte 12).toNat = 8 ∧ (f.byte 13).toNat = 0
  omega

/-! ## Soundness -/

/-- **The headers lie one after another**, and a port of the key is two bytes of the transport
header. -/
structure Sound (f : Frame) (key : FlowKey) : Prop where
  etherType : 14 ≤ f.bytes.length ∧ f.byte 12 = 0x08 ∧ f.byte 13 = 0x00
  five_le_ihl : 5 ≤ f.ihl
  header_le : 14 + 4 * f.ihl ≤ f.bytes.length
  transport_le : ∀ n, fixedHeaderSize (f.byte 23) = some n →
    34 ≤ 14 + 4 * f.ihl ∧ 14 + 4 * f.ihl + n ≤ f.bytes.length
  ports : f.byte 23 = ipprotoTcp ∨ f.byte 23 = ipprotoUdp → 34 ≤ 14 + 4 * f.ihl ∧
    key.srcPort.toNat =
      256 * (f.byte (14 + 4 * f.ihl)).toNat + (f.byte (14 + 4 * f.ihl + 1)).toNat ∧
    key.dstPort.toNat =
      256 * (f.byte (14 + 4 * f.ihl + 2)).toNat + (f.byte (14 + 4 * f.ihl + 3)).toNat

theorem four_le_fixedHeaderSize {proto : UInt8} (h : proto = ipprotoTcp ∨ proto = ipprotoUdp) :
    ∃ n, fixedHeaderSize proto = some n ∧ 4 ≤ n := by
  rcases h with rfl | rfl
  · exact ⟨sizeofTcphdr, rfl, by decide⟩
  · exact ⟨sizeofUdphdr, rfl, by decide⟩

/-- **The accepted frames whose headers lie one after another**: those with a header length of at
least five words that ends in the frame. For ICMP, TCP and UDP the end is checked along with that
of the transport header. -/
theorem sound_iff_header_length (f : Frame) (key : FlowKey) (pktLen : UInt64)
    (h : (parsePacketGetData f key pktLen).ret = 0 ∨ (parsePacketGetData f key pktLen).ret = 1) :
    Sound f (parsePacketGetData f key pktLen).key ↔
      5 ≤ f.ihl ∧ (f.byte 23 ∈ [ipprotoIcmp, ipprotoTcp, ipprotoUdp] ∨
        14 + 4 * f.ihl ≤ f.bytes.length) := by
  have hfits := (accepted_iff_fits key pktLen).mp h
  obtain ⟨hlen, heth, hfit⟩ := id hfits
  rw [f.transportOff_eq] at hfit
  constructor
  · intro hs
    exact ⟨hs.five_le_ihl, Or.inr hs.header_le⟩
  · rintro ⟨hihl, hend⟩
    refine ⟨⟨by omega, (load16_eq_ethPIp_iff (by omega)).mp heth⟩, hihl, ?_, ?_, ?_⟩
    · rcases hend with hproto | hend
      · rcases fixedHeaderSize_cases (f.byte 23) with ⟨-, hs⟩ | ⟨-, hs⟩ | ⟨-, hs⟩ | ⟨hno, -⟩
        · have := hfit _ hs; omega
        · have := hfit _ hs; omega
        · have := hfit _ hs; omega
        · simp [hno] at hproto
      · exact hend
    · intro n hn
      exact ⟨by omega, hfit n hn⟩
    · intro hproto
      obtain ⟨n, hn, h4⟩ := four_le_fixedHeaderSize hproto
      have hle := hfit n hn
      have hecho : ¬ f.isEcho := by
        rintro ⟨hi, -⟩
        rw [hi] at hproto
        revert hproto
        decide
      rw [parsePacketGetData_of_fits key pktLen hfits, if_neg hecho]
      simp only [Frame.port, if_pos hproto, f.transportOff_eq]
      exact ⟨by omega, toNat_ntohs_load16 (by omega), toNat_ntohs_load16 (by omega)⟩

theorem sound_udpFrame : Sound (udpFrame 1 emptyPayload) (udpKey 1) := by
  refine (sound_iff_header_length (udpFrame 1 emptyPayload) FlowKey.zero 0 (by decide)).mpr ?_
  decide

/-- A UDP frame of 34 bytes whose header length is `0`: the ports are read off the IPv4 header. -/
def zeroIhlFrame : Frame where
  bytes := [0, 0, 0, 0, 0, 1, 0, 0, 0, 0, 0, 2, 8, 0] ++
    [0x40, 0, 0, 20, 0, 0, 0, 0, 64, 17, 0, 0, 10, 0, 0, 1, 192, 168, 50, 4]
  length_lt := by decide

theorem zeroIhlFrame_not_sound :
    zeroIhlFrame.parsed.ret = 0 ∧ zeroIhlFrame.parsed.key.srcPort = 0x4000 ∧
      ¬ Sound zeroIhlFrame zeroIhlFrame.parsed.key := by
  refine ⟨by decide, by decide, fun hs => ?_⟩
  have h5 := hs.five_le_ihl
  revert h5
  decide

end XdpDetector

import XdpDetector.Common
import XdpDetector.Lib.Bytes
import Mathlib.Tactic.SplitIfs

/-!
# Packet parsing

`parse_packet_get_data`: the flow key and length of a frame, or a refusal. The program runs on a
little-endian machine, so a multi-byte header field is loaded with its bytes reversed and turned
around by `bpf_ntohs` and `bpf_ntohl`.

* `Frame`: the bytes between `data` and `data_end`; both are 32-bit offsets of `struct xdp_md`;
* `parsePacketGetData`, with `parseTransport` and `parsePorts` for its later parts;
* `Frame.flowKey?`: the key under which the entry point accounts a frame;
* `length_of_flowKey?`: an accepted frame holds the Ethernet and the fixed IPv4 header;
* `flowKey?_udp`, `udpFrame`: the key of a plain UDP datagram, and a family of them.
-/

namespace XdpDetector

open ByteFmt

/-- **A frame**: the bytes of `[data, data_end)`. -/
structure Frame where
  bytes : List UInt8
  length_lt : bytes.length < 2 ^ 32

namespace Frame

/-- `data_end - data`. -/
def len (f : Frame) : UInt64 := UInt64.ofNat f.bytes.length

def byte (f : Frame) (off : ℕ) : UInt8 := f.bytes.getD off 0

def load16 (f : Frame) (off : ℕ) : UInt16 := UInt16.ofNat (ofLe ((f.bytes.drop off).take 2))

def load32 (f : Frame) (off : ℕ) : UInt32 := UInt32.ofNat (ofLe ((f.bytes.drop off).take 4))

end Frame

/-- `bpf_htons` and `bpf_ntohs`. -/
def bpfNtohs (x : UInt16) : UInt16 := x <<< 8 ||| x >>> 8

def bpfNtohl (x : UInt32) : UInt32 :=
  x <<< 24 ||| (x &&& (0xff00 : UInt32)) <<< 8 ||| (x >>> 8 &&& (0xff00 : UInt32)) ||| x >>> 24

/-! ## Protocol numbers and header sizes -/

def ethPIp : UInt16 := 0x0800

def ethPLldp : UInt16 := 0x88cc

def ipprotoIcmp : UInt8 := 1

def ipprotoTcp : UInt8 := 6

def ipprotoUdp : UInt8 := 17

def sizeofEthhdr : ℕ := 14

def sizeofIphdr : ℕ := 20

def sizeofIcmphdr : ℕ := 8

def sizeofTcphdr : ℕ := 20

def sizeofUdphdr : ℕ := 8

/-! ## The parser -/

/-- The result and out-parameters of `parse_packet_get_data`. -/
structure Parsed where
  ret : ℤ
  key : FlowKey
  pktLen : UInt64
deriving DecidableEq

/-- The offset of the transport header: `(__u8 *)iph + iph->ihl * 4`. -/
def transportOff (f : Frame) : ℕ := sizeofEthhdr + (f.byte sizeofEthhdr &&& 0xf).toNat * 4

/-- The echo request or reply between `192.168.50.3` and `192.168.50.4`. -/
def isLabEcho (saddr daddr : UInt32) (icmpType : UInt8) : Bool :=
  let src := bpfNtohl saddr
  let dst := bpfNtohl daddr
  (src == 0xC0A83203 && dst == 0xC0A83204 && icmpType == 8) ||
    (src == 0xC0A83204 && dst == 0xC0A83203 && icmpType == 0)

/-- The ports and the length, once ICMP has been dealt with. -/
def parsePorts (f : Frame) (key : FlowKey) (pktLen : UInt64) : Parsed :=
  let finish (sport dport : UInt16) : Parsed :=
    ⟨0, { key with srcPort := bpfNtohs sport, dstPort := bpfNtohs dport }, f.len⟩
  if key.proto = ipprotoTcp then
    if transportOff f + sizeofTcphdr > f.bytes.length then ⟨-1, key, pktLen⟩
    else finish (f.load16 (transportOff f)) (f.load16 (transportOff f + 2))
  else if key.proto = ipprotoUdp then
    if transportOff f + sizeofUdphdr > f.bytes.length then ⟨-1, key, pktLen⟩
    else finish (f.load16 (transportOff f)) (f.load16 (transportOff f + 2))
  else finish 0 0

/-- The transport header, once the addresses and the protocol are in the key. -/
def parseTransport (f : Frame) (key : FlowKey) (pktLen : UInt64) : Parsed :=
  if key.proto = ipprotoIcmp then
    if transportOff f + sizeofIcmphdr > f.bytes.length then ⟨-1, key, pktLen⟩
    -- the whitelisted echo returns before the ports and the length are written
    else if isLabEcho key.srcIp key.dstIp (f.byte (transportOff f)) then ⟨1, key, pktLen⟩
    else parsePorts f key pktLen
  else parsePorts f key pktLen

/-- `parse_packet_get_data`, from the caller's `key` and `pkt_len`. -/
def parsePacketGetData (f : Frame) (key : FlowKey) (pktLen : UInt64) : Parsed :=
  if sizeofEthhdr > f.bytes.length then ⟨-1, key, pktLen⟩
  else if f.load16 12 = bpfNtohs ethPLldp then ⟨-2, key, pktLen⟩
  else if f.load16 12 ≠ bpfNtohs ethPIp then ⟨-1, key, pktLen⟩
  else if sizeofEthhdr + sizeofIphdr > f.bytes.length then ⟨-1, key, pktLen⟩
  else
    parseTransport f { key with
      srcIp := f.load32 (sizeofEthhdr + 12)
      dstIp := f.load32 (sizeofEthhdr + 16)
      proto := f.byte (sizeofEthhdr + 9) } pktLen

theorem parsePorts_ret (f : Frame) (key : FlowKey) (pktLen : UInt64) :
    (parsePorts f key pktLen).ret ∈ ([-2, -1, 0, 1] : List ℤ) := by
  unfold parsePorts
  split_ifs <;> simp

theorem parseTransport_ret (f : Frame) (key : FlowKey) (pktLen : UInt64) :
    (parseTransport f key pktLen).ret ∈ ([-2, -1, 0, 1] : List ℤ) := by
  unfold parseTransport
  split_ifs
  · simp
  · simp
  · exact parsePorts_ret f key pktLen
  · exact parsePorts_ret f key pktLen

/-- **The four results of the parser.** -/
theorem parsePacketGetData_ret (f : Frame) (key : FlowKey) (pktLen : UInt64) :
    (parsePacketGetData f key pktLen).ret ∈ ([-2, -1, 0, 1] : List ℤ) := by
  unfold parsePacketGetData
  split_ifs <;> first | exact parseTransport_ret f _ pktLen | simp

/-! ## The entry point's use of the parser -/

namespace Frame

/-- The parse of the entry point, from a zero key and a zero length. -/
def parsed (f : Frame) : Parsed := parsePacketGetData f FlowKey.zero 0

/-- The key of an accepted frame, one parsed with result `0` or `1`. -/
def flowKey? (f : Frame) : Option FlowKey :=
  if f.parsed.ret = 0 ∨ f.parsed.ret = 1 then some f.parsed.key else none

theorem accepted_iff (f : Frame) : (f.parsed.ret = 0 ∨ f.parsed.ret = 1) ↔ ¬ f.parsed.ret < 0 := by
  have h := parsePacketGetData_ret f FlowKey.zero 0
  change f.parsed.ret ∈ ([-2, -1, 0, 1] : List ℤ) at h
  simp only [List.mem_cons, List.not_mem_nil, or_false] at h
  omega

theorem flowKey?_eq_none {f : Frame} : f.flowKey? = none ↔ f.parsed.ret < 0 := by
  rw [flowKey?]
  split_ifs with h
  · simpa using f.accepted_iff.mp h
  · simpa using not_imp_comm.mp f.accepted_iff.mpr h

theorem flowKey?_eq_some {f : Frame} {k : FlowKey} :
    f.flowKey? = some k ↔ ¬ f.parsed.ret < 0 ∧ f.parsed.key = k := by
  rw [flowKey?]
  split_ifs with h
  · simpa using fun _ => f.accepted_iff.mp h
  · simpa using fun hn => absurd (f.accepted_iff.mpr (not_lt.mpr hn)) h

/-- **An accepted frame holds the Ethernet and the fixed IPv4 header.** -/
theorem length_of_flowKey? {f : Frame} {k : FlowKey} (h : f.flowKey? = some k) :
    34 ≤ f.bytes.length := by
  by_contra hlt
  have hret := (flowKey?_eq_some.mp h).1
  have hlen : sizeofEthhdr + sizeofIphdr > f.bytes.length := by
    unfold sizeofEthhdr sizeofIphdr; omega
  apply hret
  unfold parsed parsePacketGetData
  split_ifs <;> simp

end Frame

/-! ## UDP datagrams -/

/-- **A UDP datagram behind an option-free IPv4 header** is accepted under its five-tuple. -/
theorem flowKey?_udp {f : Frame} (hlen : 42 ≤ f.bytes.length) (heth : f.load16 12 = bpfNtohs ethPIp)
    (hihl : f.byte 14 = 0x45) (hproto : f.byte 23 = ipprotoUdp) :
    f.flowKey? = some ⟨f.load32 26, bpfNtohs (f.load16 34), f.load32 30, bpfNtohs (f.load16 36),
      ipprotoUdp⟩ := by
  have hoff : transportOff f = 34 := by rw [transportOff, sizeofEthhdr, hihl]; rfl
  have hports : ∀ key : FlowKey, key.proto = ipprotoUdp → parseTransport f key 0 =
      ⟨0, { key with srcPort := bpfNtohs (f.load16 34), dstPort := bpfNtohs (f.load16 36) },
        f.len⟩ := by
    intro key hkey
    have h : ¬ 34 + sizeofUdphdr > f.bytes.length := by unfold sizeofUdphdr; omega
    rw [parseTransport, hkey, if_neg (by decide), parsePorts, hkey, if_neg (by decide), if_pos rfl,
      hoff, if_neg h]
  have hp : f.parsed = ⟨0, ⟨f.load32 26, bpfNtohs (f.load16 34), f.load32 30,
      bpfNtohs (f.load16 36), ipprotoUdp⟩, f.len⟩ := by
    rw [Frame.parsed, parsePacketGetData, if_neg (by unfold sizeofEthhdr; omega), heth,
      if_neg (by decide), if_neg (by simp), if_neg (by unfold sizeofEthhdr sizeofIphdr; omega),
      hports _ hproto, ← hproto]
    rfl
  rw [Frame.flowKey?, hp]
  rfl

def beBytes (n : ℕ) : List UInt8 := [UInt8.ofNat (n / 256), UInt8.ofNat n]

/-- The datagram of `n` payload bytes from the `i`-th source address to port 53 of
`192.168.50.4`. -/
def udpFrame (i : ℕ) (n : Fin 1473) : Frame where
  bytes := [0, 0, 0, 0, 0, 1, 0, 0, 0, 0, 0, 2, 8, 0] ++
    ([0x45, 0] ++ beBytes (28 + n) ++ [0, 0, 0, 0, 64, 17, 0, 0] ++ leBytes 4 i ++
      [192, 168, 50, 4]) ++
    ([0x30, 0x39, 0, 53] ++ beBytes (8 + n) ++ [0, 0] ++ List.replicate n 0)
  length_lt := by simp [beBytes]; omega

def udpKey (i : ℕ) : FlowKey := ⟨UInt32.ofNat i, 12345, 0x0432A8C0, 53, 17⟩

def emptyPayload : Fin 1473 := 0

def fullPayload : Fin 1473 := 1472

theorem length_udpFrame (i : ℕ) (n : Fin 1473) : (udpFrame i n).bytes.length = 42 + n := by
  simp [udpFrame, beBytes]; omega

theorem flowKey?_udpFrame (i : ℕ) (n : Fin 1473) : (udpFrame i n).flowKey? = some (udpKey i) := by
  have hsrc : (udpFrame i n).load32 26 = UInt32.ofNat i := by
    have h : ((udpFrame i n).bytes.drop 26).take 4 = leBytes 4 i := rfl
    rw [Frame.load32, h, ofLe_leBytes]
    apply UInt32.toNat_inj.mp
    simp
  have heth : (udpFrame i n).load16 12 = bpfNtohs ethPIp := by
    have h : ((udpFrame i n).bytes.drop 12).take 2 = [8, 0] := rfl
    rw [Frame.load16, h]; decide
  have hports : ((udpFrame i n).bytes.drop 34).take 2 = [0x30, 0x39] ∧
      ((udpFrame i n).bytes.drop 36).take 2 = [0, 53] ∧
      ((udpFrame i n).bytes.drop 30).take 4 = [192, 168, 50, 4] := ⟨rfl, rfl, rfl⟩
  rw [flowKey?_udp (by rw [length_udpFrame]; omega) heth rfl rfl, hsrc, Frame.load16, Frame.load16,
    Frame.load32, hports.1, hports.2.1, hports.2.2]
  rfl

theorem udpKey_injective {i j : ℕ} (hi : i < 2 ^ 32) (hj : j < 2 ^ 32) (h : udpKey i = udpKey j) :
    i = j := by
  have hs : UInt32.ofNat i = UInt32.ofNat j := congrArg FlowKey.srcIp h
  have hn := congrArg UInt32.toNat hs
  rwa [UInt32.toNat_ofNat', UInt32.toNat_ofNat', Nat.mod_eq_of_lt hi, Nat.mod_eq_of_lt hj] at hn

end XdpDetector

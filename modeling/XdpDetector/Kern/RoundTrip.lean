import XdpDetector.Kern.Accept

/-!
# Serialised packets

An IPv4 packet as its sender builds it, with any options and any payload, and what the parser makes
of it on the other end: the five-tuple comes back.

* `Transport`, `Packet`, `Packet.frame`: the packets and their bytes on the wire;
* `bpfNtohs_load16`, `bpfNtohl_load32`: a big-endian field read back;
* `Packet.fits`: a serialised packet passes all checks;
* **`parsed_frame`**: the result and the key of a serialised packet.
-/

namespace XdpDetector

open ByteFmt

/-- The `w` bytes of `n` in network order. -/
def netBytes (w n : ℕ) : List UInt8 := (leBytes w n).reverse

@[simp] theorem length_netBytes (w n : ℕ) : (netBytes w n).length = w := by simp [netBytes]

/-! ## Packets -/

/-- The transport header and what follows it. `fields` are the bytes of the fixed header after the
ports or the ICMP type. -/
inductive Transport
  | tcp (sport dport : UInt16) (fields : Fin 16 → UInt8) (payload : List UInt8)
  | udp (sport dport : UInt16) (fields : Fin 4 → UInt8) (payload : List UInt8)
  | icmp (type : UInt8) (fields : Fin 7 → UInt8) (payload : List UInt8)
  | other (proto : UInt8) (hproto : proto ∉ [ipprotoIcmp, ipprotoTcp, ipprotoUdp])
      (payload : List UInt8)

namespace Transport

def proto : Transport → UInt8
  | tcp .. => ipprotoTcp
  | udp .. => ipprotoUdp
  | icmp .. => ipprotoIcmp
  | other proto .. => proto

def sport : Transport → UInt16
  | tcp sport .. => sport
  | udp sport .. => sport
  | icmp .. => 0
  | other .. => 0

def dport : Transport → UInt16
  | tcp _ dport .. => dport
  | udp _ dport .. => dport
  | icmp .. => 0
  | other .. => 0

def bytes : Transport → List UInt8
  | tcp sport dport fields payload =>
    netBytes 2 sport.toNat ++ netBytes 2 dport.toNat ++ List.ofFn fields ++ payload
  | udp sport dport fields payload =>
    netBytes 2 sport.toNat ++ netBytes 2 dport.toNat ++ List.ofFn fields ++ payload
  | icmp type fields payload => type :: List.ofFn fields ++ payload
  | other _ _ payload => payload

end Transport

/-- **An IPv4 packet in an Ethernet frame**, with at most ten words of options. -/
structure Packet where
  dstMac : Fin 6 → UInt8
  srcMac : Fin 6 → UInt8
  version : Fin 16
  tos : UInt8
  totLen : UInt16
  id : UInt16
  fragOff : UInt16
  ttl : UInt8
  check : UInt16
  saddr : UInt32
  daddr : UInt32
  options : List UInt32
  transport : Transport
  options_le : options.length ≤ 10
  length_lt : 34 + 4 * options.length + transport.bytes.length < 2 ^ 32

namespace Packet

variable (p : Packet)

def ethBytes : List UInt8 := List.ofFn p.dstMac ++ List.ofFn p.srcMac ++ [0x08, 0x00]

/-- The fixed IPv4 header, with `ihl = 5 + options / 4`. -/
def ipBytes : List UInt8 :=
  [UInt8.ofNat (16 * p.version + (5 + p.options.length)), p.tos] ++ netBytes 2 p.totLen.toNat ++
    netBytes 2 p.id.toNat ++ netBytes 2 p.fragOff.toNat ++ [p.ttl, p.transport.proto] ++
    netBytes 2 p.check.toNat ++ netBytes 4 p.saddr.toNat ++ netBytes 4 p.daddr.toNat

def optionBytes : List UInt8 := p.options.flatMap fun w => netBytes 4 w.toNat

theorem length_optionBytes : p.optionBytes.length = 4 * p.options.length := by
  unfold optionBytes
  induction p.options with
  | nil => rfl
  | cons w ws ih =>
    rw [List.flatMap_cons, List.length_append, ih, length_netBytes, List.length_cons]
    omega

/-- The packet on the wire. -/
def frame : Frame where
  bytes := p.ethBytes ++ (p.ipBytes ++ (p.optionBytes ++ p.transport.bytes))
  length_lt := by
    have h := p.length_lt
    simp only [List.length_append, length_optionBytes]
    show 14 + (20 + (4 * p.options.length + p.transport.bytes.length)) < 2 ^ 32
    omega

theorem length_frame :
    p.frame.bytes.length = 34 + 4 * p.options.length + p.transport.bytes.length := by
  simp only [frame, List.length_append, length_optionBytes]
  show 14 + (20 + (4 * p.options.length + p.transport.bytes.length)) = _
  omega

/-- An echo request from `192.168.50.3` to `192.168.50.4`, or a reply in the other direction. -/
def IsLabEcho : Prop :=
  ∃ type fields payload, p.transport = .icmp type fields payload ∧
    ((p.saddr = 0xC0A83203 ∧ p.daddr = 0xC0A83204 ∧ type = 8) ∨
      (p.saddr = 0xC0A83204 ∧ p.daddr = 0xC0A83203 ∧ type = 0))

/-- **The five-tuple.** -/
def fiveTuple : UInt32 × UInt32 × UInt8 × UInt16 × UInt16 :=
  (p.saddr, p.daddr, p.transport.proto, p.transport.sport, p.transport.dport)

end Packet

/-! ## Big-endian fields -/

section Peel

variable {b n : ℕ}

theorem peel_div (hb : b < 256) : (b + 256 * n) / 256 = n := by omega

theorem peel_mod (hb : b < 256) : (b + 256 * n) % 256 = b := by omega

end Peel

theorem bpfNtohs_load16 {f : Frame} {off : ℕ} {x : UInt16}
    (h : (f.bytes.drop off).take 2 = netBytes 2 x.toNat) : bpfNtohs (f.load16 off) = x := by
  have hlt := x.toNat_lt
  obtain ⟨b₀, b₁, h₀, h₁, hx⟩ : ∃ b₀ b₁ : ℕ, b₀ < 256 ∧ b₁ < 256 ∧ x.toNat = b₀ + 256 * b₁ :=
    ⟨x.toNat % 256, x.toNat / 256, by omega, by omega, by omega⟩
  have hle : (f.load16 off).toNat = b₁ + 256 * b₀ := by
    rw [Frame.load16, h, UInt16.toNat_ofNat', hx]
    show ((b₀ + 256 * b₁) / 256 % 256 + 256 * ((b₀ + 256 * b₁) % 256 + 256 * 0)) % 2 ^ 16 = _
    rw [peel_div h₀, peel_mod h₀, Nat.mod_eq_of_lt h₁, Nat.mod_eq_of_lt (by omega)]
    rfl
  apply UInt16.toNat_inj.mp
  rw [toNat_bpfNtohs, hle, hx, peel_div h₁, peel_mod h₁]
  omega

theorem and_ff00 (n : ℕ) : n &&& 0xff00 = 2 ^ 8 * (n / 2 ^ 8 % 2 ^ 8) := by
  apply Nat.eq_of_testBit_eq
  intro i
  have hmask : 0xff00 = 2 ^ 8 * (2 ^ 8 - 1) := rfl
  rw [Nat.testBit_and, hmask, Nat.testBit_two_pow_mul, Nat.testBit_two_pow_mul,
    Nat.testBit_two_pow_sub_one, Nat.testBit_mod_two_pow, Nat.testBit_div_two_pow]
  by_cases hi : i ≥ 8
  · rw [Nat.sub_add_cancel hi]
    simp [hi, Bool.and_comm]
  · simp [hi]

theorem toNat_bpfNtohl (x : UInt32) :
    (bpfNtohl x).toNat = 2 ^ 24 * (x.toNat % 256) + (2 ^ 16 * (x.toNat / 256 % 256) +
      (2 ^ 8 * (x.toNat / 256 / 256 % 256) + x.toNat / 256 / 256 / 256)) := by
  have hlt := x.toNat_lt
  have h3 : (x <<< 24).toNat = 2 ^ 24 * (x.toNat % 256) := by
    rw [UInt32.toNat_shiftLeft, Nat.shiftLeft_eq]
    show x.toNat * 2 ^ 24 % 2 ^ 32 = _
    omega
  have h2 : ((x &&& 0xff00) <<< 8).toNat = 2 ^ 16 * (x.toNat / 256 % 256) := by
    rw [UInt32.toNat_shiftLeft, Nat.shiftLeft_eq, UInt32.toNat_and]
    show (x.toNat &&& 0xff00) * 2 ^ 8 % 2 ^ 32 = _
    rw [and_ff00]
    omega
  have h1 : (x >>> 8 &&& 0xff00).toNat = 2 ^ 8 * (x.toNat / 256 / 256 % 256) := by
    rw [UInt32.toNat_and, UInt32.toNat_shiftRight, Nat.shiftRight_eq_div_pow]
    exact and_ff00 (x.toNat / 256)
  have h0 : (x >>> 24).toNat = x.toNat / 256 / 256 / 256 := by
    rw [UInt32.toNat_shiftRight, Nat.shiftRight_eq_div_pow, Nat.div_div_eq_div_mul,
      Nat.div_div_eq_div_mul]
    rfl
  rw [bpfNtohl, UInt32.toNat_or, UInt32.toNat_or, UInt32.toNat_or, h3, h2, h1, h0, Nat.or_assoc,
    Nat.or_assoc, ← Nat.two_pow_add_eq_or_of_lt (b := x.toNat / 256 / 256 / 256) (by omega),
    ← Nat.two_pow_add_eq_or_of_lt (i := 16) (by omega),
    ← Nat.two_pow_add_eq_or_of_lt (i := 24) (by omega)]

theorem bpfNtohl_load32 {f : Frame} {off : ℕ} {x : UInt32}
    (h : (f.bytes.drop off).take 4 = netBytes 4 x.toNat) : bpfNtohl (f.load32 off) = x := by
  have hlt := x.toNat_lt
  obtain ⟨b₀, b₁, b₂, b₃, h₀, h₁, h₂, h₃, hx⟩ : ∃ b₀ b₁ b₂ b₃ : ℕ, b₀ < 256 ∧ b₁ < 256 ∧ b₂ < 256 ∧
      b₃ < 256 ∧ x.toNat = b₀ + 256 * (b₁ + 256 * (b₂ + 256 * b₃)) :=
    ⟨x.toNat % 256, x.toNat / 256 % 256, x.toNat / 256 / 256 % 256, x.toNat / 256 / 256 / 256,
      by omega, by omega, by omega, by omega, by omega⟩
  have hle : (f.load32 off).toNat = b₃ + 256 * (b₂ + 256 * (b₁ + 256 * b₀)) := by
    rw [Frame.load32, h, UInt32.toNat_ofNat']
    show (x.toNat / 256 / 256 / 256 % 256 + 256 * (x.toNat / 256 / 256 % 256 +
      256 * (x.toNat / 256 % 256 + 256 * (x.toNat % 256 + 256 * 0)))) % 2 ^ 32 = _
    rw [hx, peel_div h₀, peel_div h₁, peel_div h₂, peel_mod h₀, peel_mod h₁, peel_mod h₂,
      Nat.mod_eq_of_lt h₃, Nat.mod_eq_of_lt (by omega)]
    rfl
  apply UInt32.toNat_inj.mp
  rw [toNat_bpfNtohl, hle, hx, peel_div h₃, peel_div h₂, peel_div h₁, peel_mod h₃, peel_mod h₂,
    peel_mod h₁]
  omega

/-- An address as the key stores it: its bytes in memory are in network order. -/
def netWord (a : UInt32) : UInt32 := UInt32.ofNat (ofLe (netBytes 4 a.toNat))

theorem leBytes_netWord (a : UInt32) : leBytes 4 (netWord a).toNat = netBytes 4 a.toNat := by
  have hlt := ofLe_lt (netBytes 4 a.toNat)
  have hback := leBytes_ofLe (netBytes 4 a.toNat)
  rw [length_netBytes] at hlt hback
  rw [netWord, UInt32.toNat_ofNat', Nat.mod_eq_of_lt (hlt.trans_le (by decide)), hback]

theorem netWord_injective {a b : UInt32} (h : netWord a = netWord b) : a = b := by
  have hb : netBytes 4 a.toNat = netBytes 4 b.toNat := by
    rw [← leBytes_netWord, ← leBytes_netWord, h]
  have hn := congrArg ofLe (List.reverse_inj.mp hb)
  rw [ofLe_leBytes, ofLe_leBytes, Nat.mod_eq_of_lt (by simpa using a.toNat_lt),
    Nat.mod_eq_of_lt (by simpa using b.toNat_lt)] at hn
  exact UInt32.toNat_inj.mp hn

/-! ## Reading a packet back -/

namespace Packet

variable (p : Packet)

theorem byte_proto : p.frame.byte 23 = p.transport.proto := rfl

theorem load32_saddr : p.frame.load32 26 = netWord p.saddr := rfl

theorem load32_daddr : p.frame.load32 30 = netWord p.daddr := rfl

theorem ihl_frame : p.frame.ihl = 5 + p.options.length := by
  have hv := p.version.isLt
  have ho := p.options_le
  show (UInt8.ofNat (16 * p.version + (5 + p.options.length))).toNat % 16 = _
  rw [UInt8.toNat_ofNat']
  omega

theorem transportOff_frame : transportOff p.frame = 34 + 4 * p.options.length := by
  rw [Frame.transportOff_eq, ihl_frame]
  omega

/-- **The transport header is where the parser looks for it.** -/
theorem drop_transportOff (n : ℕ) :
    p.frame.bytes.drop (transportOff p.frame + n) = p.transport.bytes.drop n := by
  have h34 : p.frame.bytes.drop 34 = p.optionBytes ++ p.transport.bytes := rfl
  rw [transportOff_frame, ← List.drop_drop, ← List.drop_drop, h34,
    List.drop_left' p.length_optionBytes]

theorem proto_ne {proto : UInt8} (h : proto ∉ [ipprotoIcmp, ipprotoTcp, ipprotoUdp]) :
    proto ≠ ipprotoIcmp ∧ proto ≠ ipprotoTcp ∧ proto ≠ ipprotoUdp := by simpa using h

theorem length_transport {n : ℕ} (h : fixedHeaderSize p.transport.proto = some n) :
    n ≤ p.transport.bytes.length := by
  cases ht : p.transport with
  | tcp sport dport fields payload =>
    rw [ht] at h
    obtain rfl : sizeofTcphdr = n := Option.some.inj h
    simp [Transport.bytes, sizeofTcphdr]
    omega
  | udp sport dport fields payload =>
    rw [ht] at h
    obtain rfl : sizeofUdphdr = n := Option.some.inj h
    simp [Transport.bytes, sizeofUdphdr]
    omega
  | icmp type fields payload =>
    rw [ht] at h
    obtain rfl : sizeofIcmphdr = n := Option.some.inj h
    simp [Transport.bytes, sizeofIcmphdr]
  | other proto hproto payload =>
    rw [ht] at h
    obtain ⟨hi, htcp, hu⟩ := proto_ne hproto
    simp [fixedHeaderSize, Transport.proto, hi, htcp, hu] at h

theorem fits : p.frame.Fits := by
  refine ⟨?_, ?_, fun n hn => ?_⟩
  · rw [length_frame]
    omega
  · show UInt16.ofNat (ofLe [8, 0]) = bpfNtohs ethPIp
    decide
  · have := p.length_transport hn
    rw [length_frame, transportOff_frame]
    omega

theorem port_frame {n : ℕ} {x : UInt16}
    (h : if p.transport.proto = ipprotoTcp ∨ p.transport.proto = ipprotoUdp then
      (p.transport.bytes.drop n).take 2 = netBytes 2 x.toNat else x = 0) :
    p.frame.port n = x := by
  rw [Frame.port, byte_proto]
  split_ifs at h ⊢
  · exact bpfNtohs_load16 (by rw [drop_transportOff, h])
  · exact h.symm

theorem ports_frame :
    p.frame.port 0 = p.transport.sport ∧ p.frame.port 2 = p.transport.dport := by
  refine ⟨p.port_frame ?_, p.port_frame ?_⟩
  all_goals
    cases p.transport with
    | tcp sport dport fields payload => rfl
    | udp sport dport fields payload => rfl
    | icmp type fields payload => rfl
    | other proto hproto payload =>
      rw [if_neg fun hc => hc.elim (proto_ne hproto).2.1 (proto_ne hproto).2.2]
      rfl

theorem byte_of_drop {f : Frame} {off : ℕ} {b : UInt8} {rest : List UInt8}
    (h : f.bytes.drop off = b :: rest) : f.byte off = b := by
  have h0 : f.bytes[off]? = some b := by
    have := congrArg (fun l => l[0]?) h
    simpa using this
  rw [Frame.byte, List.getD_eq_getElem?_getD, h0, Option.getD_some]

theorem isEcho_frame : p.frame.isEcho ↔ p.IsLabEcho := by
  have hs : bpfNtohl (p.frame.load32 26) = p.saddr := bpfNtohl_load32 rfl
  have hd : bpfNtohl (p.frame.load32 30) = p.daddr := bpfNtohl_load32 rfl
  rw [Frame.isEcho, byte_proto]
  constructor
  · rintro ⟨hproto, hecho⟩
    cases ht : p.transport with
    | icmp type fields payload =>
      have hdrop := p.drop_transportOff 0
      rw [ht] at hdrop
      have htype : p.frame.byte (transportOff p.frame) = type := byte_of_drop hdrop
      rw [isLabEcho, hs, hd, htype] at hecho
      exact ⟨type, fields, payload, ht, by simpa [and_assoc] using hecho⟩
    | tcp => rw [ht] at hproto; exact absurd hproto (show ipprotoTcp ≠ ipprotoIcmp by decide)
    | udp => rw [ht] at hproto; exact absurd hproto (show ipprotoUdp ≠ ipprotoIcmp by decide)
    | other proto hne payload => rw [ht] at hproto; exact absurd hproto (proto_ne hne).1
  · rintro ⟨type, fields, payload, ht, hecho⟩
    have hdrop := p.drop_transportOff 0
    rw [ht] at hdrop ⊢
    have htype : p.frame.byte (transportOff p.frame) = type := byte_of_drop hdrop
    rw [isLabEcho, hs, hd, htype]
    exact ⟨rfl, by simpa [and_assoc] using hecho⟩

theorem parsed_key :
    p.frame.parsed.key = ⟨netWord p.saddr, p.transport.sport, netWord p.daddr, p.transport.dport,
      p.transport.proto⟩ := by
  rw [Frame.parsed, parsePacketGetData_of_fits FlowKey.zero 0 p.fits]
  split_ifs with h
  · obtain ⟨type, fields, payload, ht, -⟩ := p.isEcho_frame.mp h
    rw [ht]
    simp only [byte_proto, load32_saddr, load32_daddr, ht]
    rfl
  · rw [p.ports_frame.1, p.ports_frame.2, load32_saddr, load32_daddr, byte_proto]

theorem parsed_ret : (p.frame.parsed.ret = 0 ∨ p.frame.parsed.ret = 1) ∧
    (p.frame.parsed.ret = 1 ↔ p.IsLabEcho) := by
  rw [Frame.parsed, parsePacketGetData_of_fits FlowKey.zero 0 p.fits, ← isEcho_frame]
  split_ifs with h
  · simp [h]
  · simp [h]

end Packet

/-- **The round trip**: a serialised packet is accepted, with result `1` for the whitelisted echoes
alone; its key holds the addresses in network order, the protocol, and the ports in host order; and
keys agree exactly when five-tuples do. -/
theorem parsed_frame (p q : Packet) :
    ((p.frame.parsed.ret = 0 ∨ p.frame.parsed.ret = 1) ∧
      (p.frame.parsed.ret = 1 ↔ p.IsLabEcho)) ∧
    leBytes 4 p.frame.parsed.key.srcIp.toNat = netBytes 4 p.saddr.toNat ∧
    leBytes 4 p.frame.parsed.key.dstIp.toNat = netBytes 4 p.daddr.toNat ∧
    p.frame.parsed.key.proto = p.transport.proto ∧
    p.frame.parsed.key.srcPort = p.transport.sport ∧
    p.frame.parsed.key.dstPort = p.transport.dport ∧
    (p.frame.parsed.key = q.frame.parsed.key ↔ p.fiveTuple = q.fiveTuple) := by
  rw [p.parsed_key, q.parsed_key]
  refine ⟨p.parsed_ret, leBytes_netWord p.saddr, leBytes_netWord p.daddr, rfl, rfl, rfl, ?_⟩
  constructor
  · intro h
    injection h with hs hsp hd hdp hproto
    rw [Packet.fiveTuple, Packet.fiveTuple, netWord_injective hs, netWord_injective hd, hsp, hdp,
      hproto]
  · intro h
    simp only [Packet.fiveTuple, Prod.mk.injEq] at h
    obtain ⟨hs, hd, hproto, hsp, hdp⟩ := h
    rw [hs, hd, hproto, hsp, hdp]

end XdpDetector

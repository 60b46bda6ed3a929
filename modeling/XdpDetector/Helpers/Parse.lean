import XdpDetector.Kern.Checked

/-!
# The header helpers

`common/parsing_helpers.h`: one function for each header, called one after another on a cursor. A
helper checks that its header ends before `data_end`, moves the cursor behind it, stores a pointer
to it and returns what comes next. As in the checked parser, a load outside the frame and a store
outside `collect_vlans` make a call `none`.

* `HdrResult`: what a call leaves behind;
* `parseFixed?`, `parseVariable?`: headers of one size, and headers that say their size;
* `vlanLoop?`, `parseEthhdrVlan?`: the Ethernet header and up to two VLAN tags;
* `Helper`, `Helper.run?`, `parseAll?`: any sequence of calls;
* `HdrResult.Spec`, `Helper.run?_spec`: what one call leaves behind;
* `Chained`, **`helpers_in_range`**: what any sequence of calls leaves behind.
-/

namespace XdpDetector

/-- **A call's result**: the value returned, the cursor, and the header pointer if one was stored.
Pointers are offsets from `data`. -/
structure HdrResult where
  ret : ℤ
  pos : ℕ
  hdr : Option ℕ
deriving DecidableEq

/-- `return -1` before the cursor moves. -/
def HdrResult.fail (pos : ℕ) : HdrResult := ⟨-1, pos, none⟩

/-! ## Headers of one size -/

section Fixed

variable (f : Frame) (pos : ℕ)

/-- The header of `size` bytes whose type is its byte `typeOff`. -/
def parseFixed? (size typeOff : ℕ) : Option HdrResult :=
  if pos + size > f.bytes.length then return HdrResult.fail pos
  else do
    let type ← f.byte? (pos + typeOff)
    return ⟨type.toNat, pos + size, some pos⟩

def sizeofIpv6hdr : ℕ := 40

def sizeofIcmp6hdr : ℕ := 8

def sizeofIcmphdrCommon : ℕ := 4

def parseIp6hdr? : Option HdrResult := parseFixed? f pos sizeofIpv6hdr 6

def parseIcmp6hdr? : Option HdrResult := parseFixed? f pos sizeofIcmp6hdr 0

def parseIcmphdr? : Option HdrResult := parseFixed? f pos sizeofIcmphdr 0

def parseIcmphdrCommon? : Option HdrResult := parseFixed? f pos sizeofIcmphdrCommon 0

/-- `parse_udphdr`. The difference is one of `size_t` and becomes negative in the `int`; by then the
cursor has moved and the pointer is stored. -/
def parseUdphdr? : Option HdrResult :=
  if pos + sizeofUdphdr > f.bytes.length then return HdrResult.fail pos
  else do
    let udpLen ← f.load16? (pos + 4)
    let len : ℤ := (bpfNtohs udpLen).toNat - sizeofUdphdr
    return ⟨if len < 0 then -1 else len, pos + sizeofUdphdr, some pos⟩

end Fixed

/-! ## Headers that say their size -/

section Variable

variable (f : Frame) (pos : ℕ)

/-- The header of at least `size` bytes whose own length is in its byte `lenOff`. -/
def parseVariable? (size lenOff : ℕ) (lenOf : UInt8 → ℕ) (ret : ℕ → Option ℤ) : Option HdrResult :=
  if pos + size > f.bytes.length then return HdrResult.fail pos
  else do
    let b ← f.byte? (pos + lenOff)
    if lenOf b < size then return HdrResult.fail pos
    else if pos + lenOf b > f.bytes.length then return HdrResult.fail pos
    else
      let r ← ret (lenOf b)
      return ⟨r, pos + lenOf b, some pos⟩

/-- `parse_iphdr` returns the protocol. -/
def parseIphdr? : Option HdrResult :=
  parseVariable? f pos sizeofIphdr 0 (fun b => (b &&& 0xf).toNat * 4) fun _ =>
    (f.byte? (pos + 9)).map fun b => (b.toNat : ℤ)

/-- `parse_tcphdr` returns the length of the header. -/
def parseTcphdr? : Option HdrResult :=
  parseVariable? f pos sizeofTcphdr 12 (fun b => (b >>> 4).toNat * 4) fun len => some (len : ℤ)

end Variable

/-! ## The Ethernet header -/

def ethP8021q : UInt16 := 0x8100

def ethP8021ad : UInt16 := 0x88a8

def vlanMaxDepth : ℕ := 2

def vlanVidMask : UInt16 := 0x0fff

def sizeofVlanHdr : ℕ := 4

/-- `proto_is_vlan`, of an EtherType in network order. -/
def protoIsVlan (hProto : UInt16) : Bool :=
  hProto == bpfNtohs ethP8021q || hProto == bpfNtohs ethP8021ad

/-- `struct collect_vlans`. -/
abbrev CollectVlans : Type := Fin vlanMaxDepth → UInt16

/-- `vlans->id[i] = id`. -/
def CollectVlans.set? (vlans : CollectVlans) (i : ℕ) (id : UInt16) : Option CollectVlans :=
  if h : i < vlanMaxDepth then some (Function.update vlans ⟨i, h⟩ id) else none

/-- The variables of the loop; `vlans` is none for a null pointer. -/
structure VlanState where
  vlh : ℕ
  hProto : UInt16
  vlans : Option CollectVlans

section Ethernet

variable (f : Frame)

/-- `if (vlans) vlans->id[i] = bpf_ntohs(vlh->h_vlan_TCI) & VLAN_VID_MASK`. -/
def collect? (vlh i : ℕ) : Option CollectVlans → Option (Option CollectVlans)
  | none => some none
  | some vlans => do
    let tci ← f.load16? vlh
    let vlans ← vlans.set? i (bpfNtohs tci &&& vlanVidMask)
    return some vlans

/-- The loop of `parse_ethhdr_vlan` with `n` rounds left, the next one being round `i`. -/
def vlanLoop? : ℕ → ℕ → VlanState → Option VlanState
  | 0, _, s => some s
  | n + 1, i, s =>
    if !protoIsVlan s.hProto then some s
    else if s.vlh + sizeofVlanHdr > f.bytes.length then some s
    else do
      let hProto ← f.load16? (s.vlh + 2)
      let vlans ← collect? f s.vlh i s.vlans
      vlanLoop? n (i + 1) ⟨s.vlh + sizeofVlanHdr, hProto, vlans⟩

/-- `parse_ethhdr_vlan`. The EtherType is returned in network order. -/
def parseEthhdrVlan? (pos : ℕ) (vlans : Option CollectVlans) :
    Option (HdrResult × Option CollectVlans) :=
  if pos + sizeofEthhdr > f.bytes.length then return (HdrResult.fail pos, vlans)
  else do
    let hProto ← f.load16? (pos + 12)
    let s ← vlanLoop? f vlanMaxDepth 0 ⟨pos + sizeofEthhdr, hProto, vlans⟩
    return (⟨s.hProto.toNat, s.vlh, some pos⟩, s.vlans)

def parseEthhdr? (pos : ℕ) : Option HdrResult := (parseEthhdrVlan? f pos none).map Prod.fst

end Ethernet

/-! ## Sequences of calls -/

/-- The helpers. -/
inductive Helper
  | ethVlan (vlans : CollectVlans)
  | eth
  | ip6
  | ip
  | icmp6
  | icmp
  | icmpCommon
  | udp
  | tcp

namespace Helper

/-- The size of the struct behind the stored pointer. -/
def size : Helper → ℕ
  | ethVlan _ | eth => sizeofEthhdr
  | ip6 => sizeofIpv6hdr
  | ip => sizeofIphdr
  | icmp6 => sizeofIcmp6hdr
  | icmp => sizeofIcmphdr
  | icmpCommon => sizeofIcmphdrCommon
  | udp => sizeofUdphdr
  | tcp => sizeofTcphdr

def run? (f : Frame) (pos : ℕ) : Helper → Option HdrResult
  | ethVlan vlans => (parseEthhdrVlan? f pos (some vlans)).map Prod.fst
  | eth => parseEthhdr? f pos
  | ip6 => parseIp6hdr? f pos
  | ip => parseIphdr? f pos
  | icmp6 => parseIcmp6hdr? f pos
  | icmp => parseIcmphdr? f pos
  | icmpCommon => parseIcmphdrCommon? f pos
  | udp => parseUdphdr? f pos
  | tcp => parseTcphdr? f pos

end Helper

/-- The calls of a program on one cursor, which may go on after a failure. -/
def parseAll? (f : Frame) : List Helper → ℕ → Option (List HdrResult)
  | [], _ => some []
  | c :: cs, pos => do
    let r ← c.run? f pos
    let rs ← parseAll? f cs r.pos
    return r :: rs

/-! ## One call -/

/-- **What a helper for a header of `size` bytes may leave behind** at `pos` of a frame of `len`
bytes: the cursor where it was and no pointer, or a header from there on and the cursor behind
it. -/
def HdrResult.Spec (size len pos : ℕ) (r : HdrResult) : Prop :=
  r = HdrResult.fail pos ∨ r.hdr = some pos ∧ pos + size ≤ r.pos ∧ r.pos ≤ len

section Spec

variable {f : Frame} {pos : ℕ}

theorem parseFixed?_spec {size typeOff : ℕ} (h : typeOff < size) :
    ∃ r, parseFixed? f pos size typeOff = some r ∧ r.Spec size f.bytes.length pos := by
  unfold parseFixed?
  split_ifs with hlen
  · exact ⟨_, rfl, Or.inl rfl⟩
  · rw [Frame.byte?_of_lt (by omega)]
    exact ⟨_, rfl, Or.inr ⟨rfl, le_rfl, not_lt.mp hlen⟩⟩

theorem parseUdphdr?_spec :
    ∃ r, parseUdphdr? f pos = some r ∧ r.Spec sizeofUdphdr f.bytes.length pos := by
  unfold parseUdphdr?
  split_ifs with hlen
  · exact ⟨_, rfl, Or.inl rfl⟩
  · rw [Frame.load16?_of_le (by unfold sizeofUdphdr at hlen; omega)]
    exact ⟨_, rfl, Or.inr ⟨rfl, le_rfl, not_lt.mp hlen⟩⟩

theorem parseVariable?_spec {size lenOff : ℕ} (h : lenOff < size) {lenOf : UInt8 → ℕ}
    {ret : ℕ → Option ℤ} (hret : ∀ n, pos + size ≤ f.bytes.length → (ret n).isSome) :
    ∃ r, parseVariable? f pos size lenOff lenOf ret = some r ∧
      r.Spec size f.bytes.length pos := by
  unfold parseVariable?
  by_cases hlen : pos + size > f.bytes.length
  · rw [if_pos hlen]
    exact ⟨_, rfl, Or.inl rfl⟩
  rw [if_neg hlen, Frame.byte?_of_lt (by omega)]
  simp only [Option.bind_eq_bind, Option.bind_some]
  split_ifs with hs hl
  · exact ⟨_, rfl, Or.inl rfl⟩
  · exact ⟨_, rfl, Or.inl rfl⟩
  · obtain ⟨v, hv⟩ := Option.isSome_iff_exists.mp (hret _ (not_lt.mp hlen))
    rw [hv]
    exact ⟨_, rfl, Or.inr ⟨rfl, by dsimp only; omega, not_lt.mp hl⟩⟩

theorem parseIphdr?_spec :
    ∃ r, parseIphdr? f pos = some r ∧ r.Spec sizeofIphdr f.bytes.length pos := by
  unfold parseIphdr?
  refine parseVariable?_spec (by decide) fun _ hlen => ?_
  rw [Frame.byte?_of_lt (by unfold sizeofIphdr at hlen; omega)]
  rfl

theorem parseTcphdr?_spec :
    ∃ r, parseTcphdr? f pos = some r ∧ r.Spec sizeofTcphdr f.bytes.length pos := by
  unfold parseTcphdr?
  exact parseVariable?_spec (by decide) fun _ _ => rfl

theorem collect?_isSome {vlh i : ℕ} (hi : i < vlanMaxDepth) (hlen : vlh + 2 ≤ f.bytes.length)
    (vlans : Option CollectVlans) : (collect? f vlh i vlans).isSome := by
  cases vlans with
  | none => rfl
  | some vlans =>
    rw [collect?, Frame.load16?_of_le hlen]
    simp [CollectVlans.set?, hi]

/-- The loop stays inside the frame and the array, whatever the tags are. -/
theorem vlanLoop?_spec {n i : ℕ} (hn : i + n ≤ vlanMaxDepth) {s : VlanState}
    (hs : s.vlh ≤ f.bytes.length) :
    ∃ s', vlanLoop? f n i s = some s' ∧ s.vlh ≤ s'.vlh ∧ s'.vlh ≤ f.bytes.length := by
  induction n generalizing i s with
  | zero => exact ⟨s, rfl, le_rfl, hs⟩
  | succ n ih =>
    rw [vlanLoop?]
    split_ifs with hp hlen
    · exact ⟨s, rfl, le_rfl, hs⟩
    · exact ⟨s, rfl, le_rfl, hs⟩
    · unfold sizeofVlanHdr at hlen ⊢
      rw [Frame.load16?_of_le (by omega)]
      obtain ⟨vlans, hv⟩ := Option.isSome_iff_exists.mp
        (collect?_isSome (show i < vlanMaxDepth by omega)
          (show s.vlh + 2 ≤ f.bytes.length by omega) s.vlans)
      simp only [Option.bind_eq_bind, Option.bind_some, hv]
      obtain ⟨s', he, hle, hend⟩ := ih (show i + 1 + n ≤ vlanMaxDepth by omega)
        (s := ⟨s.vlh + 4, f.load16 (s.vlh + 2), vlans⟩) (by dsimp only; omega)
      exact ⟨s', he, by dsimp only at hle; omega, hend⟩

theorem parseEthhdrVlan?_spec (vlans : Option CollectVlans) :
    ∃ r, (parseEthhdrVlan? f pos vlans).map Prod.fst = some r ∧
      r.Spec sizeofEthhdr f.bytes.length pos := by
  unfold parseEthhdrVlan?
  by_cases hlen : pos + sizeofEthhdr > f.bytes.length
  · rw [if_pos hlen]
    exact ⟨_, rfl, Or.inl rfl⟩
  · rw [if_neg hlen, Frame.load16?_of_le (by unfold sizeofEthhdr at hlen; omega)]
    obtain ⟨s, he, hle, hend⟩ := vlanLoop?_spec (f := f) (le_of_eq (Nat.zero_add vlanMaxDepth))
      (s := ⟨pos + sizeofEthhdr, f.load16 (pos + 12), vlans⟩) (not_lt.mp hlen)
    simp only [Option.bind_eq_bind, Option.bind_some, he]
    exact ⟨_, rfl, Or.inr ⟨rfl, hle, hend⟩⟩

variable (f pos) in
/-- **One call** never leaves the frame, and leaves behind what `HdrResult.Spec` allows. -/
theorem Helper.run?_spec (c : Helper) :
    ∃ r, c.run? f pos = some r ∧ r.Spec c.size f.bytes.length pos := by
  cases c with
  | ethVlan vlans => exact parseEthhdrVlan?_spec (some vlans)
  | eth => exact parseEthhdrVlan?_spec none
  | ip6 => exact parseFixed?_spec (by decide)
  | ip => exact parseIphdr?_spec
  | icmp6 => exact parseFixed?_spec (by decide)
  | icmp => exact parseFixed?_spec (by decide)
  | icmpCommon => exact parseFixed?_spec (by decide)
  | udp => exact parseUdphdr?_spec
  | tcp => exact parseTcphdr?_spec

end Spec

/-! ## All calls -/

/-- **The results of a sequence of calls**: each is what its helper may leave behind where the one
before it left the cursor. -/
def Chained (len : ℕ) : List Helper → ℕ → List HdrResult → Prop
  | [], _, rs => rs = []
  | _ :: _, _, [] => False
  | c :: cs, pos, r :: rs => r.Spec c.size len pos ∧ Chained len cs r.pos rs

theorem parseAll?_chained (f : Frame) (cs : List Helper) (pos : ℕ) :
    ∃ rs, parseAll? f cs pos = some rs ∧ Chained f.bytes.length cs pos rs := by
  induction cs generalizing pos with
  | nil => exact ⟨[], rfl, rfl⟩
  | cons c cs ih =>
    obtain ⟨r, hr, hspec⟩ := c.run?_spec f pos
    obtain ⟨rs, hrs, hchain⟩ := ih r.pos
    refine ⟨r :: rs, ?_, hspec, hchain⟩
    simp only [parseAll?, hr, hrs, Option.bind_eq_bind, Option.bind_some]
    rfl

namespace HdrResult.Spec

variable {size len pos h : ℕ} {r : HdrResult}

theorem pos_le (hr : r.Spec size len pos) : pos ≤ r.pos := by
  rcases hr with rfl | ⟨-, hsize, -⟩
  · exact le_rfl
  · omega

theorem le_len (hr : r.Spec size len pos) (hpos : pos ≤ len) : r.pos ≤ len := by
  rcases hr with rfl | ⟨-, -, hend⟩
  · exact hpos
  · exact hend

theorem of_hdr (hr : r.Spec size len pos) (hh : r.hdr = some h) : h = pos ∧ pos + size ≤ r.pos := by
  rcases hr with rfl | ⟨hhdr, hsize, -⟩
  · cases hh
  · rw [hhdr] at hh
    cases hh
    exact ⟨rfl, hsize⟩

theorem hdr_isSome (hr : r.Spec size len pos) (hret : r.ret ≠ -1) : r.hdr.isSome := by
  rcases hr with rfl | ⟨hhdr, -, -⟩
  · exact absurd rfl hret
  · rw [hhdr]
    rfl

end HdrResult.Spec

/-- **A program's view of the headers**: cursors ascend inside the frame, each pointer has a whole
header between itself and the cursor, headers do not overlap, and only a failure stores none. -/
structure Laid (len : ℕ) (cs : List Helper) (pos : ℕ) (rs : List HdrResult) : Prop where
  length_eq : rs.length = cs.length
  cursors : (pos :: rs.map HdrResult.pos).Pairwise (· ≤ ·)
  le_len : ∀ r ∈ rs, r.pos ≤ len
  header : ∀ p ∈ cs.zip rs, ∀ h, p.2.hdr = some h → pos ≤ h ∧ h + p.1.size ≤ p.2.pos
  disjoint : rs.Pairwise fun r r' => ∀ h', r'.hdr = some h' → r.pos ≤ h'
  stored : ∀ r ∈ rs, r.ret ≠ -1 → r.hdr.isSome

theorem Laid.le_hdr {len pos : ℕ} {cs : List Helper} {rs : List HdrResult} (h : Laid len cs pos rs)
    {r : HdrResult} (hr : r ∈ rs) {hdr : ℕ} (hh : r.hdr = some hdr) : pos ≤ hdr := by
  obtain ⟨i, hi, rfl⟩ := List.getElem_of_mem hr
  have hi' : i < cs.length := h.length_eq ▸ hi
  have hz : i < (cs.zip rs).length := by
    rw [List.length_zip]
    omega
  have hmem : (cs[i], rs[i]) ∈ cs.zip rs := by
    rw [← List.getElem_zip (h := hz)]
    exact List.getElem_mem hz
  exact (h.header _ hmem hdr hh).1

theorem laid_of_chained {len : ℕ} {cs : List Helper} {pos : ℕ} {rs : List HdrResult}
    (h : Chained len cs pos rs) (hpos : pos ≤ len) : Laid len cs pos rs := by
  induction cs generalizing pos rs with
  | nil =>
    cases h
    exact ⟨rfl, by simp, by simp, by simp, by simp, by simp⟩
  | cons c cs ih =>
    cases rs with
    | nil => exact h.elim
    | cons r rs =>
      obtain ⟨hspec, hchain⟩ := h
      have hrest := ih hchain (hspec.le_len hpos)
      refine ⟨?_, ?_, ?_, ?_, ?_, ?_⟩
      · rw [List.length_cons, List.length_cons, hrest.length_eq]
      · refine List.pairwise_cons.mpr ⟨?_, hrest.cursors⟩
        intro p hp
        rcases List.mem_cons.mp hp with rfl | hp
        · exact hspec.pos_le
        · exact hspec.pos_le.trans ((List.pairwise_cons.mp hrest.cursors).1 p hp)
      · exact List.forall_mem_cons.mpr ⟨hspec.le_len hpos, hrest.le_len⟩
      · refine List.forall_mem_cons.mpr ⟨?_, ?_⟩
        · intro h hh
          obtain ⟨rfl, hsize⟩ := hspec.of_hdr hh
          exact ⟨le_rfl, hsize⟩
        · intro p hp h hh
          obtain ⟨hle, hsize⟩ := hrest.header p hp h hh
          exact ⟨hspec.pos_le.trans hle, hsize⟩
      · exact List.pairwise_cons.mpr ⟨fun _ hr _ hh => hrest.le_hdr hr hh, hrest.disjoint⟩
      · exact List.forall_mem_cons.mpr ⟨hspec.hdr_isSome, hrest.stored⟩

/-- **No sequence of calls leaves the frame.** From `data` on, whatever the frame holds and whether
or not the caller stops at a failure, all loads are in range and the headers lie as `Laid` says. -/
theorem helpers_in_range (f : Frame) (cs : List Helper) :
    ∃ rs, parseAll? f cs 0 = some rs ∧ Laid f.bytes.length cs 0 rs := by
  obtain ⟨rs, hrs, hchain⟩ := parseAll?_chained f cs 0
  exact ⟨rs, hrs, laid_of_chained hchain (Nat.zero_le _)⟩

end XdpDetector

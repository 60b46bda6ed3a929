import XdpDetector.Helpers.Tags

/-!
# Pushing and popping VLAN tags

`vlan_tag_push` and `vlan_tag_pop` of `common/rewrite_helpers.h` move the start of the packet by the
size of a tag and copy the Ethernet header to its new place. The frame then behaves as a stack of
tags, over every sequence of the two.

* `XdpBuf`, `XdpBuf.load?`, `XdpBuf.store?`: the packet and the memory in front of it;
* `AdjustHead`, `adjustInRoom`: what the functions rely on of `bpf_xdp_adjust_head`, and one that
  refuses to leave the buffer or to cut an Ethernet header;
* `vlanTagPop?`, `vlanTagPush?`: the functions, with checked accesses;
* `Tagged.step`, `Tagged.run`: the stack, given which moves the kernel grants;
* `VlanOp.run?_spec`: one call;
* **`vlan_stack`**: every sequence of calls;
* **`detector_behind_stack`**: what the detector makes of the frame meanwhile.
-/

namespace XdpDetector

open ByteFmt

/-! ## The packet in memory -/

/-- **A packet buffer**: the bytes in front of `data`, and those from `data` to `data_end`. -/
structure XdpBuf where
  head : List UInt8
  bytes : List UInt8
  length_lt : head.length + bytes.length < 2 ^ 32

namespace XdpBuf

variable (b : XdpBuf)

def frame : Frame := ⟨b.bytes, (Nat.le_add_left _ _).trans_lt b.length_lt⟩

/-- Copy `n` bytes out of the packet. -/
def load? (off n : ℕ) : Option (List UInt8) :=
  if off + n ≤ b.bytes.length then some ((b.bytes.drop off).take n) else none

theorem length_store {off : ℕ} {bs : List UInt8} (h : off + bs.length ≤ b.bytes.length) :
    b.head.length + (b.bytes.take off ++ (bs ++ b.bytes.drop (off + bs.length))).length <
      2 ^ 32 := by
  have hlt := b.length_lt
  rw [List.length_append, List.length_append, List.length_take, List.length_drop]
  omega

/-- Copy `bs` into the packet. -/
def store? (off : ℕ) (bs : List UInt8) : Option XdpBuf :=
  if h : off + bs.length ≤ b.bytes.length then
    some ⟨b.head, b.bytes.take off ++ (bs ++ b.bytes.drop (off + bs.length)), b.length_store h⟩
  else none

def store16? (off : ℕ) (x : UInt16) : Option XdpBuf := b.store? off (leBytes 2 x.toNat)

end XdpBuf

/-- **`bpf_xdp_adjust_head`**: it may refuse; otherwise `data` moves by `delta` and memory stays as
it is. -/
structure AdjustHead where
  adjust : XdpBuf → ℤ → Option XdpBuf
  memory : ∀ {b b' delta}, adjust b delta = some b' → b'.head ++ b'.bytes = b.head ++ b.bytes
  moved : ∀ {b b' delta}, adjust b delta = some b' →
    (b'.bytes.length : ℤ) = b.bytes.length - delta

/-- A kernel that moves `data` when the memory in front of it has room and an Ethernet header is
left behind it. -/
def adjustInRoom : AdjustHead where
  adjust b delta :=
    if h : 0 ≤ (b.head.length : ℤ) + delta ∧ delta + sizeofEthhdr ≤ b.bytes.length then
      some ⟨(b.head ++ b.bytes).take (b.head.length + delta).toNat,
        (b.head ++ b.bytes).drop (b.head.length + delta).toNat, by
          rw [← List.length_append, List.take_append_drop, List.length_append]
          exact b.length_lt⟩
    else none
  memory h := by
    split_ifs at h with hroom
    cases h
    exact List.take_append_drop _ _
  moved h := by
    split_ifs at h with hroom
    cases h
    rw [List.length_drop, List.length_append]
    omega

/-! ## The two functions -/

section Calls

variable (K : AdjustHead) (b : XdpBuf) (eth : ℕ)

/-- `vlan_tag_pop`. The tag's control information is returned whole. -/
def vlanTagPop? : Option (ℤ × XdpBuf) := do
  let hProto ← b.frame.load16? (eth + 12)
  if !protoIsVlan hProto then return (-1, b)
  else if eth + sizeofEthhdr + sizeofVlanHdr > b.bytes.length then return (-1, b)
  else
    let tci ← b.frame.load16? (eth + sizeofEthhdr)
    let inner ← b.frame.load16? (eth + sizeofEthhdr + 2)
    let ethCpy ← b.load? eth sizeofEthhdr
    match K.adjust b sizeofVlanHdr with
    | none => return (-1, b)
    | some b' =>
      if sizeofEthhdr > b'.bytes.length then return (-1, b')
      else
        let b' ← b'.store? 0 ethCpy
        let b' ← b'.store16? 12 inner
        return ((bpfNtohs tci).toNat, b')

/-- `vlan_tag_push`. The identifier is cut to 16 bits by `bpf_htons`. -/
def vlanTagPush? (vlid : Int32) : Option (ℤ × XdpBuf) := do
  let ethCpy ← b.load? eth sizeofEthhdr
  match K.adjust b (0 - sizeofVlanHdr) with
  | none => return (-1, b)
  | some b' =>
    if sizeofEthhdr > b'.bytes.length then return (-1, b')
    else
      let b' ← b'.store? 0 ethCpy
      if sizeofEthhdr + sizeofVlanHdr > b'.bytes.length then return (-1, b')
      else
        let b' ← b'.store16? 14 (bpfNtohs vlid.toUInt32.toUInt16)
        let hProto ← b'.frame.load16? 12
        let b' ← b'.store16? 16 hProto
        let b' ← b'.store16? 12 (bpfNtohs ethP8021q)
        return (0, b')

end Calls

/-! ## The stack -/

/-- The calls, on the Ethernet header at `data`. -/
inductive VlanOp
  | push (vlid : Int32)
  | pop

namespace VlanOp

/-- How far the call wants to move `data`. -/
def delta : VlanOp → ℤ
  | push _ => 0 - sizeofVlanHdr
  | pop => sizeofVlanHdr

def run? (K : AdjustHead) (b : XdpBuf) : VlanOp → Option (ℤ × XdpBuf)
  | push vlid => vlanTagPush? K b 0 vlid
  | pop => vlanTagPop? K b 0

end VlanOp

/-- The calls of a program, one after another. -/
def runOps? (K : AdjustHead) : List VlanOp → XdpBuf → Option (List ℤ × XdpBuf)
  | [], b => some ([], b)
  | op :: ops, b => do
    let (ret, b') ← op.run? K b
    let (rets, b'') ← runOps? K ops b'
    return (ret :: rets, b'')

/-- Which of the moves the kernel grants on the way. -/
def granted (K : AdjustHead) : List VlanOp → XdpBuf → List Bool
  | [], _ => []
  | op :: ops, b =>
    (K.adjust b op.delta).isSome ::
      match op.run? K b with
      | none => []
      | some (_, b') => granted K ops b'

namespace Tagged

/-- **The stack**: what a call returns and leaves behind, when the kernel grants its move or not. -/
def step (t : Tagged) (op : VlanOp) (granted : Bool) : ℤ × Tagged :=
  match op with
  | .push vlid =>
    if granted then (0, { t with tags := ⟨.c8021q, vlid.toUInt32.toUInt16⟩ :: t.tags })
    else (-1, t)
  | .pop =>
    match t.tags with
    | [] => (-1, t)
    | tag :: tags => if granted then (tag.tci.toNat, { t with tags := tags }) else (-1, t)

def run (t : Tagged) : List (VlanOp × Bool) → List ℤ × Tagged
  | [] => ([], t)
  | (op, granted) :: rest =>
    let (ret, t') := t.step op granted
    let (rets, t'') := t'.run rest
    (ret :: rets, t'')

variable {t : Tagged}

theorem step_pop_nil (h : t.tags = []) (granted : Bool) : t.step .pop granted = (-1, t) := by
  simp only [step, h]

theorem step_pop_cons {tag : Tag} {tags : List Tag} (h : t.tags = tag :: tags) (granted : Bool) :
    t.step .pop granted =
      if granted then ((tag.tci.toNat : ℤ), { t with tags := tags }) else (-1, t) := by
  simp only [step, h]

end Tagged

/-! ## Reading and writing -/

theorem leBytes_bpfNtohs (x : UInt16) : leBytes 2 (bpfNtohs x).toNat = netBytes 2 x.toNat := by
  have hlt := x.toNat_lt
  have hlo : UInt8.ofNat (256 * (x.toNat % 256) + x.toNat / 256) = UInt8.ofNat (x.toNat / 256) := by
    apply UInt8.toNat_inj.mp
    rw [UInt8.toNat_ofNat', UInt8.toNat_ofNat']
    omega
  have hhi : UInt8.ofNat ((256 * (x.toNat % 256) + x.toNat / 256) / 256) = UInt8.ofNat x.toNat := by
    have hdiv : x.toNat / 256 / 256 = 0 := by omega
    apply UInt8.toNat_inj.mp
    rw [Nat.mul_add_div (by decide), hdiv, UInt8.toNat_ofNat', UInt8.toNat_ofNat']
    omega
  rw [toNat_bpfNtohs, netBytes]
  simp only [leBytes, hlo, hhi]
  rfl

theorem leBytes_load16 {f : Frame} {off : ℕ} {w rest : List UInt8}
    (h : f.bytes.drop off = w ++ rest) (hw : w.length = 2) :
    leBytes 2 (f.load16 off).toNat = w := by
  have hlt : ofLe w < 2 ^ 16 := by
    have := ofLe_lt w
    rw [hw] at this
    exact this.trans_le (by norm_num)
  have hback := leBytes_ofLe w
  rw [hw] at hback
  rw [Frame.load16, h, List.take_left' hw, UInt16.toNat_ofNat', Nat.mod_eq_of_lt hlt, hback]

namespace XdpBuf

variable {b b' : XdpBuf} {off n : ℕ} {l w r : List UInt8}

theorem load?_of_split (h : b.bytes = l ++ (w ++ r)) (hl : l.length = off) (hw : w.length = n) :
    b.load? off n = some w := by
  have hlen : off + n ≤ b.bytes.length := by
    rw [h, List.length_append, List.length_append]
    omega
  rw [load?, if_pos hlen, h, List.drop_left' hl, List.take_left' hw]

theorem store?_of_split (h : b.bytes = l ++ (w ++ r)) (hl : l.length = off) {bs : List UInt8}
    (hw : w.length = bs.length) :
    ∃ b', b.store? off bs = some b' ∧ b'.bytes = l ++ (bs ++ r) := by
  have hlen : off + bs.length ≤ b.bytes.length := by
    rw [h, List.length_append, List.length_append]
    omega
  refine ⟨_, dif_pos hlen, ?_⟩
  dsimp only
  rw [h, List.take_left' hl, ← List.drop_drop, List.drop_left' hl, List.drop_left' hw]

theorem store16?_of_split (h : b.bytes = l ++ (w ++ r)) (hl : l.length = off) (hw : w.length = 2)
    (x : UInt16) :
    ∃ b', b.store16? off x = some b' ∧ b'.bytes = l ++ (leBytes 2 x.toNat ++ r) :=
  store?_of_split h hl (by rw [hw, length_leBytes])

theorem load16?_of_split (h : b.bytes = l ++ (w ++ r)) (hl : l.length = off) (hw : w.length = 2) :
    b.frame.load16? off = some (b.frame.load16 off) := by
  refine Frame.load16?_of_le ?_
  change off + 2 ≤ b.bytes.length
  rw [h, List.length_append, List.length_append]
  omega

theorem leBytes_load16_of_split (h : b.bytes = l ++ (w ++ r)) (hl : l.length = off)
    (hw : w.length = 2) : leBytes 2 (b.frame.load16 off).toNat = w := by
  have hdrop : b.frame.bytes.drop off = w ++ r := by
    change b.bytes.drop off = w ++ r
    rw [h, List.drop_left' hl]
  exact leBytes_load16 hdrop hw

end XdpBuf

namespace AdjustHead

variable {K : AdjustHead} {b b' : XdpBuf} {n : ℕ}

/-- A move to the right cuts the packet. -/
theorem bytes_of_right (h : K.adjust b n = some b') (hn : n ≤ b.bytes.length) :
    b'.bytes = b.bytes.drop n := by
  have hlen := K.moved h
  have hmem := K.memory h
  have hsplit : b'.head ++ b'.bytes = (b.head ++ b.bytes.take n) ++ b.bytes.drop n := by
    rw [hmem, List.append_assoc, List.take_append_drop]
  refine (List.append_inj' hsplit ?_).2
  rw [List.length_drop]
  omega

/-- A move to the left puts some bytes in front of it. -/
theorem bytes_of_left (h : K.adjust b (0 - n) = some b') :
    ∃ junk, junk.length = n ∧ b'.bytes = junk ++ b.bytes := by
  have hlen := K.moved h
  have hmem := K.memory h
  have hle : b.bytes.length ≤ b'.bytes.length := by omega
  refine ⟨b'.bytes.take (b'.bytes.length - b.bytes.length), ?_, ?_⟩
  · rw [List.length_take]
    omega
  · have hsplit : (b'.head ++ b'.bytes.take (b'.bytes.length - b.bytes.length)) ++
        b'.bytes.drop (b'.bytes.length - b.bytes.length) = b.head ++ b.bytes := by
      rw [List.append_assoc, List.take_append_drop, hmem]
    have hb := (List.append_inj' hsplit (by rw [List.length_drop]; omega)).2
    nth_rewrite 1 [← List.take_append_drop (b'.bytes.length - b.bytes.length) b'.bytes]
    rw [hb]

end AdjustHead

/-! ## One call -/

section Pop

variable {K : AdjustHead} {b : XdpBuf} {m p c e r : List UInt8}

/-- What is left of a pop once the packet has been read. -/
def popMoved (b : XdpBuf) (ethCpy : List UInt8) (b' : XdpBuf) : Option (ℤ × XdpBuf) :=
  if sizeofEthhdr > b'.bytes.length then some (-1, b')
  else do
    let b' ← b'.store? 0 ethCpy
    let b' ← b'.store16? 12 (b.frame.load16 16)
    return ((bpfNtohs (b.frame.load16 14)).toNat, b')

/-- Addresses `m`, a tag `p`, `c`, an EtherType `e` and the rest. -/
theorem vlanTagPop?_of_split (hb : b.bytes = m ++ (p ++ (c ++ (e ++ r)))) (hm : m.length = 12)
    (hp : p.length = 2) (hc : c.length = 2) (he : e.length = 2)
    (hv : protoIsVlan (b.frame.load16 12) = true) :
    vlanTagPop? K b 0 =
      match K.adjust b VlanOp.pop.delta with
      | none => some (-1, b)
      | some b' => popMoved b (m ++ p) b' := by
  have hb14 : b.bytes = (m ++ p) ++ (c ++ (e ++ r)) := by rw [hb, List.append_assoc]
  have hb16 : b.bytes = (m ++ p ++ c) ++ (e ++ r) := by rw [hb14, List.append_assoc _ c]
  have hmp : (m ++ p).length = 14 := by rw [List.length_append]; omega
  have hmpc : (m ++ p ++ c).length = 16 := by rw [List.length_append]; omega
  have hlen : ¬ 18 > b.bytes.length := by
    rw [hb]
    simp only [List.length_append]
    omega
  have hcpy : b.load? 0 14 = some (m ++ p) :=
    XdpBuf.load?_of_split (hb14.trans (List.nil_append _).symm) List.length_nil hmp
  unfold vlanTagPop? popMoved
  simp only [sizeofEthhdr, sizeofVlanHdr, Nat.zero_add, XdpBuf.load16?_of_split hb hm hp,
    XdpBuf.load16?_of_split hb14 hmp hc, XdpBuf.load16?_of_split hb16 hmpc he, hcpy,
    Option.bind_eq_bind, Option.bind_some, hv, Bool.not_true, Bool.false_eq_true, if_false,
    if_neg hlen, VlanOp.delta]
  rfl

theorem popMoved_eq (hb : b.bytes = m ++ (p ++ (c ++ (e ++ r)))) (hm : m.length = 12)
    (hp : p.length = 2) (hc : c.length = 2) (he : e.length = 2) {b₁ : XdpBuf}
    (hadj : K.adjust b (4 : ℕ) = some b₁) :
    ∃ b' : XdpBuf, popMoved b (m ++ p) b₁ = some (((bpfNtohs (b.frame.load16 14)).toNat : ℤ), b') ∧
      b'.bytes = m ++ (e ++ r) := by
  have hb16 : b.bytes = (m ++ p ++ c) ++ (e ++ r) := by
    rw [hb]
    simp only [List.append_assoc]
  have hmpc : (m ++ p ++ c).length = 16 := by
    simp only [List.length_append]
    omega
  have hb₁ : b₁.bytes = [] ++ ((m.drop 4 ++ (p ++ (c ++ e))) ++ r) := by
    rw [K.bytes_of_right hadj (by rw [hb16, List.length_append]; omega), hb,
      List.drop_append_of_le_length (by omega)]
    simp only [List.nil_append, List.append_assoc]
  have hw : (m.drop 4 ++ (p ++ (c ++ e))).length = (m ++ p).length := by
    simp only [List.length_append, List.length_drop]
    omega
  have hlen : ¬ sizeofEthhdr > b₁.bytes.length := by
    rw [hb₁, List.nil_append, List.length_append, hw, List.length_append, sizeofEthhdr]
    omega
  obtain ⟨b₂, hs₂, hb₂⟩ := XdpBuf.store?_of_split hb₁ List.length_nil hw
  rw [List.nil_append, List.append_assoc] at hb₂
  obtain ⟨b₃, hs₃, hb₃⟩ := XdpBuf.store16?_of_split hb₂ hm hp (b.frame.load16 16)
  rw [XdpBuf.leBytes_load16_of_split hb16 hmpc he] at hb₃
  refine ⟨b₃, ?_, hb₃⟩
  rw [popMoved, if_neg hlen, hs₂]
  simp only [Option.bind_eq_bind, Option.bind_some, hs₃]
  rfl

end Pop

section Push

variable {K : AdjustHead} {b : XdpBuf} {m e r : List UInt8} {vlid : Int32}

/-- What is left of a push once the header has been copied. -/
def pushMoved (vlid : Int32) (ethCpy : List UInt8) (b' : XdpBuf) : Option (ℤ × XdpBuf) :=
  if sizeofEthhdr > b'.bytes.length then some (-1, b')
  else do
    let b' ← b'.store? 0 ethCpy
    if sizeofEthhdr + sizeofVlanHdr > b'.bytes.length then some (-1, b')
    else
      let b' ← b'.store16? 14 (bpfNtohs vlid.toUInt32.toUInt16)
      let hProto ← b'.frame.load16? 12
      let b' ← b'.store16? 16 hProto
      let b' ← b'.store16? 12 (bpfNtohs ethP8021q)
      return (0, b')

/-- Addresses `m`, an EtherType `e` and the rest. -/
theorem vlanTagPush?_of_split (hb : b.bytes = m ++ (e ++ r)) (hm : m.length = 12)
    (he : e.length = 2) :
    vlanTagPush? K b 0 vlid =
      match K.adjust b (VlanOp.push vlid).delta with
      | none => some (-1, b)
      | some b' => pushMoved vlid (m ++ e) b' := by
  have hme : (m ++ e).length = 14 := by rw [List.length_append]; omega
  have hb0 : b.bytes = [] ++ ((m ++ e) ++ r) := by rw [hb, List.nil_append, List.append_assoc]
  have hcpy : b.load? 0 14 = some (m ++ e) := XdpBuf.load?_of_split hb0 List.length_nil hme
  unfold vlanTagPush? pushMoved
  simp only [sizeofEthhdr, sizeofVlanHdr, hcpy, Option.bind_eq_bind, Option.bind_some,
    VlanOp.delta]
  rfl

theorem pushMoved_eq (hb : b.bytes = m ++ (e ++ r)) (hm : m.length = 12) (he : e.length = 2)
    {b₁ : XdpBuf} (hadj : K.adjust b (0 - (4 : ℕ)) = some b₁) :
    ∃ b', pushMoved vlid (m ++ e) b₁ = some (0, b') ∧
      b'.bytes = m ++ (netBytes 2 ethP8021q.toNat ++
        (netBytes 2 vlid.toUInt32.toUInt16.toNat ++ (e ++ r))) := by
  obtain ⟨junk, hjunk, hb₁⟩ := K.bytes_of_left hadj
  have hsplit : b₁.bytes = [] ++ ((junk ++ m.take 10) ++ (m.drop 10 ++ (e ++ r))) := by
    rw [hb₁, hb, List.nil_append, List.append_assoc, ← List.append_assoc (m.take 10),
      List.take_append_drop]
  have hme : (m ++ e).length = 14 := by rw [List.length_append]; omega
  have hw : (junk ++ m.take 10).length = (m ++ e).length := by
    rw [hme, List.length_append, List.length_take]
    omega
  have h10 : (m.drop 10).length = 2 := by rw [List.length_drop, hm]
  -- the header in its new place, in front of the last two address bytes of the old one
  obtain ⟨b₂, hs₂, hb₂⟩ := XdpBuf.store?_of_split hsplit List.length_nil hw
  rw [List.nil_append] at hb₂
  obtain ⟨b₃, hs₃, hb₃⟩ := XdpBuf.store16?_of_split hb₂ hme h10 (bpfNtohs vlid.toUInt32.toUInt16)
  rw [leBytes_bpfNtohs] at hb₃
  have htci : (netBytes 2 vlid.toUInt32.toUInt16.toNat).length = 2 := length_netBytes 2 _
  revert hb₃ htci
  generalize netBytes 2 vlid.toUInt32.toUInt16.toNat = tci
  intro hb₃ htci
  have hfront : b₃.bytes = m ++ (e ++ (tci ++ (e ++ r))) := by rw [hb₃, List.append_assoc]
  have hinner : b₃.bytes = (m ++ e ++ tci) ++ (e ++ r) := by rw [hb₃, List.append_assoc _ tci]
  have h16 : (m ++ e ++ tci).length = 16 := by rw [List.length_append]; omega
  -- the inner EtherType already stands where it is written
  obtain ⟨b₄, hs₄, hb₄⟩ := XdpBuf.store16?_of_split hinner h16 he (b₃.frame.load16 12)
  rw [XdpBuf.leBytes_load16_of_split hfront hm he, ← hinner, hfront] at hb₄
  obtain ⟨b₅, hs₅, hb₅⟩ := XdpBuf.store16?_of_split hb₄ hm he (bpfNtohs ethP8021q)
  rw [leBytes_bpfNtohs] at hb₅
  have hlen₁ : ¬ sizeofEthhdr > b₁.bytes.length := by
    rw [hsplit, List.nil_append, List.length_append, hw, hme, sizeofEthhdr]
    omega
  have hlen₂ : ¬ sizeofEthhdr + sizeofVlanHdr > b₂.bytes.length := by
    rw [hb₂, sizeofEthhdr, sizeofVlanHdr]
    simp only [List.length_append] at hme ⊢
    omega
  refine ⟨b₅, ?_, hb₅⟩
  rw [pushMoved, if_neg hlen₁, hs₂]
  simp only [Option.bind_eq_bind, Option.bind_some, if_neg hlen₂, hs₃,
    XdpBuf.load16?_of_split hfront hm he, hs₄, hs₅]
  rfl

end Push

theorem wire_front (etherType : UInt16) (payload : List UInt8) (tags : List Tag) :
    ∃ rest, wire tags etherType payload = netBytes 2 (frontType etherType tags).toNat ++ rest := by
  cases tags with
  | nil => exact ⟨payload, rfl⟩
  | cons t ts => exact ⟨netBytes 2 t.tci.toNat ++ wire ts etherType payload, wire_cons t ts⟩

section Step

variable {K : AdjustHead} {b : XdpBuf} {t : Tagged}

theorem push_spec (h : b.bytes = t.bytes) (vlid : Int32) :
    ∃ b', vlanTagPush? K b 0 vlid =
        some ((t.step (.push vlid) (K.adjust b (VlanOp.push vlid).delta).isSome).1, b') ∧
      b'.bytes = (t.step (.push vlid) (K.adjust b (VlanOp.push vlid).delta).isSome).2.bytes := by
  obtain ⟨rest, hrest⟩ := wire_front t.etherType t.payload t.tags
  have hb : b.bytes = List.ofFn t.macs ++
      (netBytes 2 (frontType t.etherType t.tags).toNat ++ rest) := by
    rw [h, Tagged.bytes, hrest]
  have hm : (List.ofFn t.macs).length = 12 := List.length_ofFn
  rw [vlanTagPush?_of_split hb hm (length_netBytes 2 _)]
  cases hadj : K.adjust b (VlanOp.push vlid).delta with
  | none => exact ⟨b, rfl, h⟩
  | some b₁ =>
    obtain ⟨b', he, hb'⟩ := pushMoved_eq (K := K) hb hm (length_netBytes 2 _) hadj
    refine ⟨b', he, ?_⟩
    rw [hb', ← hrest]
    change _ = List.ofFn t.macs ++ wire (_ :: t.tags) t.etherType t.payload
    rw [wire_cons]
    rfl

theorem pop_spec_nil (h : b.bytes = t.bytes) (htags : t.tags = []) :
    vlanTagPop? K b 0 = some (-1, b) := by
  have hlen := t.length_bytes
  rw [← h, htags, List.length_nil] at hlen
  have hproto : b.frame.load16 12 = bpfNtohs t.etherType := by
    have := Tagged.load16_etherTypeAfter (f := b.frame) h 0
    rwa [Nat.zero_min, Tagged.etherTypeAfter, htags] at this
  unfold vlanTagPop?
  rw [Nat.zero_add, Frame.load16?_of_le (show 12 + 2 ≤ b.bytes.length by omega), hproto]
  simp only [Option.bind_eq_bind, Option.bind_some]
  by_cases hv : protoIsVlan (bpfNtohs t.etherType) = true
  · have hcut := t.last hv
    rw [if_neg (by simp [hv]), if_pos (by unfold sizeofEthhdr sizeofVlanHdr; omega)]
    rfl
  · rw [if_pos (by simpa using hv)]
    rfl

theorem pop_spec_cons (h : b.bytes = t.bytes) {tag : Tag} {tags : List Tag}
    (htags : t.tags = tag :: tags) :
    ∃ b', vlanTagPop? K b 0 =
        some ((t.step .pop (K.adjust b VlanOp.pop.delta).isSome).1, b') ∧
      b'.bytes = (t.step .pop (K.adjust b VlanOp.pop.delta).isSome).2.bytes := by
  obtain ⟨rest, hrest⟩ := wire_front t.etherType t.payload tags
  have hb : b.bytes = List.ofFn t.macs ++ (netBytes 2 tag.tpid.etherType.toNat ++
      (netBytes 2 tag.tci.toNat ++ (netBytes 2 (frontType t.etherType tags).toNat ++ rest))) := by
    rw [h, Tagged.bytes, htags, wire_cons, hrest]
  have hm : (List.ofFn t.macs).length = 12 := List.length_ofFn
  have hn : ∀ x : UInt16, (netBytes 2 x.toNat).length = 2 := fun x => length_netBytes 2 _
  have hd12 := congrArg (List.drop 12) hb
  rw [List.drop_left' hm] at hd12
  have hd14 := congrArg (List.drop 2) hd12
  rw [List.drop_drop, List.drop_left' (hn _)] at hd14
  have hproto : b.frame.load16 12 = bpfNtohs tag.tpid.etherType := load16_of_drop hd12
  have htci : b.frame.load16 14 = bpfNtohs tag.tci := load16_of_drop hd14
  rw [vlanTagPop?_of_split hb hm (hn _) (hn _) (hn _)
    (by rw [hproto]; exact protoIsVlan_tpid tag.tpid)]
  cases hadj : K.adjust b VlanOp.pop.delta with
  | none =>
    rw [Tagged.step_pop_cons htags]
    exact ⟨b, rfl, h⟩
  | some b₁ =>
    obtain ⟨b', he, hb'⟩ := popMoved_eq (K := K) hb hm (hn _) (hn _) (hn _) hadj
    rw [htci, bpfNtohs_bpfNtohs] at he
    rw [← hrest] at hb'
    rw [Tagged.step_pop_cons htags]
    exact ⟨b', he, hb'⟩

/-- **One call** does to the bytes what it does to the stack. -/
theorem VlanOp.run?_spec (h : b.bytes = t.bytes) (op : VlanOp) :
    ∃ b', op.run? K b = some ((t.step op (K.adjust b op.delta).isSome).1, b') ∧
      b'.bytes = (t.step op (K.adjust b op.delta).isSome).2.bytes := by
  cases op with
  | push vlid => exact push_spec h vlid
  | pop =>
    cases htags : t.tags with
    | nil =>
      rw [Tagged.step_pop_nil htags]
      exact ⟨b, pop_spec_nil h htags, h⟩
    | cons tag tags => exact pop_spec_cons h htags

end Step

/-! ## All calls -/

theorem runOps?_spec (K : AdjustHead) {b : XdpBuf} {t : Tagged} (h : b.bytes = t.bytes)
    (ops : List VlanOp) :
    ∃ b', runOps? K ops b = some ((t.run (ops.zip (granted K ops b))).1, b') ∧
      b'.bytes = (t.run (ops.zip (granted K ops b))).2.bytes := by
  induction ops generalizing b t with
  | nil => exact ⟨b, rfl, h⟩
  | cons op ops ih =>
    obtain ⟨b₁, hstep, hb₁⟩ := op.run?_spec (K := K) h
    obtain ⟨b₂, hrest, hb₂⟩ := ih hb₁
    have hzip : (op :: ops).zip (granted K (op :: ops) b) =
        (op, (K.adjust b op.delta).isSome) :: ops.zip (granted K ops b₁) := by
      rw [granted, hstep]
      rfl
    refine ⟨b₂, ?_, ?_⟩
    · rw [runOps?, hstep, hzip]
      simp only [Option.bind_eq_bind, Option.bind_some, hrest]
      rfl
    · rw [hzip]
      exact hb₂

/-- **A frame is a stack of VLAN tags.** Over every sequence of pushes and pops, and whichever moves
the kernel refuses, no access leaves the packet, and the values returned and the bytes left behind
are those of the stack of tags that the frame held at first. -/
theorem vlan_stack (K : AdjustHead) (b : XdpBuf) (h : sizeofEthhdr ≤ b.bytes.length) :
    ∃! t : Tagged, t.bytes = b.bytes ∧ ∀ ops : List VlanOp,
      ∃ b', runOps? K ops b = some ((t.run (ops.zip (granted K ops b))).1, b') ∧
        b'.bytes = (t.run (ops.zip (granted K ops b))).2.bytes := by
  obtain ⟨t, ht⟩ := Tagged.exists_tagged h
  refine ⟨t, ⟨ht, runOps?_spec K ht.symm⟩, ?_⟩
  rintro t' ⟨ht', -⟩
  exact Tagged.bytes_injective (ht'.trans ht.symm)

/-- The datagram of `udpFrame` with eight bytes of room in front of it. -/
def udpBuf : XdpBuf where
  head := List.replicate 8 0
  bytes := (udpFrame 1 emptyPayload).bytes
  length_lt := by
    rw [length_udpFrame, List.length_replicate]
    decide

theorem vlan_stack_udp : sizeofEthhdr ≤ udpBuf.bytes.length ∧
    ∃! t : Tagged, t.bytes = udpBuf.bytes ∧ ∀ ops : List VlanOp,
      ∃ b', runOps? adjustInRoom ops udpBuf =
          some ((t.run (ops.zip (granted adjustInRoom ops udpBuf))).1, b') ∧
        b'.bytes = (t.run (ops.zip (granted adjustInRoom ops udpBuf))).2.bytes :=
  have h : sizeofEthhdr ≤ udpBuf.bytes.length := by decide
  ⟨h, vlan_stack adjustInRoom udpBuf h⟩

/-! ## The detector behind a stack -/

namespace Tagged

theorem step_fields (t : Tagged) (op : VlanOp) (granted : Bool) :
    (t.step op granted).2.macs = t.macs ∧ (t.step op granted).2.etherType = t.etherType ∧
      (t.step op granted).2.payload = t.payload := by
  cases op with
  | push vlid => cases granted <;> exact ⟨rfl, rfl, rfl⟩
  | pop =>
    cases htags : t.tags with
    | nil =>
      rw [step_pop_nil htags]
      exact ⟨rfl, rfl, rfl⟩
    | cons tag tags =>
      rw [step_pop_cons htags]
      cases granted <;> exact ⟨rfl, rfl, rfl⟩

/-- Only the tags change. -/
theorem run_fields (t : Tagged) (l : List (VlanOp × Bool)) :
    (t.run l).2.macs = t.macs ∧ (t.run l).2.etherType = t.etherType ∧
      (t.run l).2.payload = t.payload := by
  induction l generalizing t with
  | nil => exact ⟨rfl, rfl, rfl⟩
  | cons p l ih =>
    obtain ⟨hm, he, hp⟩ := t.step_fields p.1 p.2
    obtain ⟨hm', he', hp'⟩ := ih (t.step p.1 p.2).2
    exact ⟨hm'.trans hm, he'.trans he, hp'.trans hp⟩

/-- The detector refuses a tagged frame. -/
theorem flowKey?_of_tags {t : Tagged} {f : Frame} (h : f.bytes = t.bytes) {tag : Tag}
    {tags : List Tag} (htags : t.tags = tag :: tags) : f.flowKey? = none := by
  have hproto : f.load16 12 = bpfNtohs tag.tpid.etherType := by
    have := load16_etherTypeAfter h 0
    rwa [Nat.zero_min, etherTypeAfter, htags] at this
  have hfit : ¬ f.Fits := by
    rintro ⟨-, heth, -⟩
    rw [hproto] at heth
    revert heth
    cases tag.tpid <;> decide
  rw [Frame.flowKey?_eq_none]
  exact parsePacketGetData_of_not_fits _ _ hfit

end Tagged

/-- **The detector counts a frame only with its stack empty.** A frame that it accepts is tagged and
untagged in any order: while a tag is on it the detector refuses the frame, and once all are off it
accepts the same bytes under the same key. -/
theorem detector_behind_stack (K : AdjustHead) (b : XdpBuf) {k : FlowKey}
    (hk : b.frame.flowKey? = some k) :
    ∃ t : Tagged, t.bytes = b.bytes ∧ t.tags = [] ∧ ∀ ops : List VlanOp,
      ∃ rets b', runOps? K ops b = some (rets, b') ∧
        ((t.run (ops.zip (granted K ops b))).2.tags = [] →
          b'.bytes = b.bytes ∧ b'.frame.flowKey? = some k) ∧
        ((t.run (ops.zip (granted K ops b))).2.tags ≠ [] → b'.frame.flowKey? = none) := by
  have hlen : 34 ≤ b.bytes.length := Frame.length_of_flowKey? hk
  obtain ⟨t, ht⟩ := Tagged.exists_tagged (show 14 ≤ b.bytes.length by omega)
  have hempty : t.tags = [] := by
    cases htags : t.tags with
    | nil => rfl
    | cons tag tags =>
      have hnone := Tagged.flowKey?_of_tags (f := b.frame) ht.symm htags
      rw [hnone] at hk
      cases hk
  refine ⟨t, ht, hempty, fun ops => ?_⟩
  obtain ⟨b', hrun, hb'⟩ := runOps?_spec K ht.symm ops
  refine ⟨_, b', hrun, fun h => ?_, fun h => ?_⟩
  · obtain ⟨hm, he, hp⟩ := t.run_fields (ops.zip (granted K ops b))
    have hback : (t.run (ops.zip (granted K ops b))).2 = t :=
      Tagged.ext hm (h.trans hempty.symm) he hp
    have hbytes : b'.bytes = b.bytes := by rw [hb', hback, ht]
    have hframe : b'.frame = b.frame := by
      simp only [XdpBuf.frame, hbytes]
    exact ⟨hbytes, by rw [hframe, hk]⟩
  · obtain ⟨tag, tags, htags⟩ := List.exists_cons_of_ne_nil h
    exact Tagged.flowKey?_of_tags hb' htags

theorem detector_behind_stack_udp : udpBuf.frame.flowKey? = some (udpKey 1) ∧
    ∃ t : Tagged, t.bytes = udpBuf.bytes ∧ t.tags = [] ∧ ∀ ops : List VlanOp,
      ∃ rets b', runOps? adjustInRoom ops udpBuf = some (rets, b') ∧
        ((t.run (ops.zip (granted adjustInRoom ops udpBuf))).2.tags = [] →
          b'.bytes = udpBuf.bytes ∧ b'.frame.flowKey? = some (udpKey 1)) ∧
        ((t.run (ops.zip (granted adjustInRoom ops udpBuf))).2.tags ≠ [] →
          b'.frame.flowKey? = none) :=
  have h : udpBuf.frame.flowKey? = some (udpKey 1) := flowKey?_udpFrame 1 emptyPayload
  ⟨h, detector_behind_stack adjustInRoom udpBuf h⟩

end XdpDetector

import XdpDetector.Helpers.Parse
import XdpDetector.Kern.RoundTrip

/-!
# Frames with VLAN tags

Every frame that holds an Ethernet header is a pair of addresses, a list of VLAN tags, an EtherType
and a payload, in one way. `parse_ethhdr_vlan` sees the first two tags of the list.

* `Tag`, `Tagged`, `Tagged.bytes`: the frames and their bytes;
* `exists_tagged`, `bytes_injective`: every frame is one of them, and only one;
* `vlanLoop?_wire`: the loop on a list of tags;
* **`parse_sees_two_tags`**: what `parse_ethhdr_vlan` returns for every frame.
-/

namespace XdpDetector

open ByteFmt

/-! ## Tags -/

/-- The two EtherTypes of a tag. -/
inductive Tpid
  | c8021q
  | s8021ad
deriving DecidableEq

def Tpid.etherType : Tpid → UInt16
  | c8021q => ethP8021q
  | s8021ad => ethP8021ad

/-- **A VLAN tag**: its EtherType and its control information, in host order. -/
structure Tag where
  tpid : Tpid
  tci : UInt16
deriving DecidableEq

namespace Tag

/-- The VLAN identifier. -/
def vid (t : Tag) : UInt16 := t.tci &&& vlanVidMask

def bytes (t : Tag) : List UInt8 :=
  netBytes 2 t.tpid.etherType.toNat ++ netBytes 2 t.tci.toNat

end Tag

/-- What follows the addresses: tags, EtherType and payload. -/
def wire (tags : List Tag) (etherType : UInt16) (payload : List UInt8) : List UInt8 :=
  tags.flatMap Tag.bytes ++ (netBytes 2 etherType.toNat ++ payload)

/-- The EtherType in front of `tags`. -/
def frontType (etherType : UInt16) : List Tag → UInt16
  | [] => etherType
  | t :: _ => t.tpid.etherType

/-- **A frame with its tags.** An EtherType of a tag is not the last one unless the tag is cut
off. -/
@[ext]
structure Tagged where
  macs : Fin 12 → UInt8
  tags : List Tag
  etherType : UInt16
  payload : List UInt8
  last : protoIsVlan (bpfNtohs etherType) = true → payload.length < 4

namespace Tagged

variable (t : Tagged)

def bytes : List UInt8 := List.ofFn t.macs ++ wire t.tags t.etherType t.payload

/-- The EtherType behind the first `n` tags. -/
def etherTypeAfter (n : ℕ) : UInt16 := frontType t.etherType (t.tags.drop n)

end Tagged

/-! ## Fields in network order -/

theorem bpfNtohs_bpfNtohs (x : UInt16) : bpfNtohs (bpfNtohs x) = x := by
  have hlt := x.toNat_lt
  apply UInt16.toNat_inj.mp
  rw [toNat_bpfNtohs, toNat_bpfNtohs]
  omega

theorem load16_of_drop {f : Frame} {off : ℕ} {x : UInt16} {rest : List UInt8}
    (h : f.bytes.drop off = netBytes 2 x.toNat ++ rest) : f.load16 off = bpfNtohs x := by
  have hx : bpfNtohs (f.load16 off) = x := by
    refine bpfNtohs_load16 ?_
    rw [h, List.take_left' (length_netBytes 2 _)]
  rw [← hx, bpfNtohs_bpfNtohs]

theorem length_of_drop {l l' : List UInt8} {off : ℕ} (h : l.drop off = l') (hl : l' ≠ []) :
    l.length = off + l'.length := by
  have hlen := congrArg List.length h
  have hpos := List.length_pos_iff.mpr hl
  rw [List.length_drop] at hlen
  omega

theorem protoIsVlan_iff {x : UInt16} :
    protoIsVlan (bpfNtohs x) = true ↔ ∃ tpid : Tpid, tpid.etherType = x := by
  have hinj : ∀ y, bpfNtohs x = bpfNtohs y ↔ x = y := fun y =>
    ⟨fun h => by rw [← bpfNtohs_bpfNtohs x, h, bpfNtohs_bpfNtohs], fun h => by rw [h]⟩
  rw [protoIsVlan, Bool.or_eq_true, beq_iff_eq, beq_iff_eq, hinj, hinj]
  constructor
  · rintro (rfl | rfl)
    · exact ⟨.c8021q, rfl⟩
    · exact ⟨.s8021ad, rfl⟩
  · rintro ⟨tpid, rfl⟩
    cases tpid with
    | c8021q => exact Or.inl rfl
    | s8021ad => exact Or.inr rfl

theorem protoIsVlan_tpid (tpid : Tpid) : protoIsVlan (bpfNtohs tpid.etherType) = true :=
  protoIsVlan_iff.mpr ⟨tpid, rfl⟩

/-! ## Every frame -/

section Wire

variable {etherType : UInt16} {payload : List UInt8}

theorem wire_nil : wire [] etherType payload = netBytes 2 etherType.toNat ++ payload := rfl

theorem wire_cons (t : Tag) (ts : List Tag) : wire (t :: ts) etherType payload =
    netBytes 2 t.tpid.etherType.toNat ++
      (netBytes 2 t.tci.toNat ++ wire ts etherType payload) := by
  simp [wire, Tag.bytes]

theorem length_wire (ts : List Tag) :
    (wire ts etherType payload).length = 4 * ts.length + 2 + payload.length := by
  induction ts with
  | nil =>
    rw [wire_nil, List.length_append, length_netBytes]
    rfl
  | cons t ts ih =>
    rw [wire_cons, List.length_append, List.length_append, ih, length_netBytes, length_netBytes,
      List.length_cons]
    omega

theorem wire_ne_nil (ts : List Tag) : wire ts etherType payload ≠ [] := by
  intro h
  have hlen := congrArg List.length h
  rw [length_wire, List.length_nil] at hlen
  omega

end Wire

/-- Two bytes are a number in network order. -/
theorem exists_netBytes {l : List UInt8} (h : 2 ≤ l.length) :
    ∃ x : UInt16, l = netBytes 2 x.toNat ++ l.drop 2 := by
  obtain ⟨a, b, rest, rfl⟩ : ∃ a b rest, l = a :: b :: rest := by
    match l, h with
    | a :: b :: rest, _ => exact ⟨a, b, rest, rfl⟩
  have hback := leBytes_ofLe [b, a]
  have hlt : ofLe [b, a] < 2 ^ 16 := (ofLe_lt [b, a]).trans_le (by norm_num)
  refine ⟨UInt16.ofNat (ofLe [b, a]), ?_⟩
  rw [UInt16.toNat_ofNat', Nat.mod_eq_of_lt hlt, netBytes]
  change _ = (leBytes [b, a].length (ofLe [b, a])).reverse ++ rest
  rw [hback]
  rfl

theorem netBytes_inj {x y : UInt16} (h : netBytes 2 x.toNat = netBytes 2 y.toNat) : x = y := by
  have hn := congrArg ofLe (List.reverse_inj.mp h)
  rw [ofLe_leBytes, ofLe_leBytes, Nat.mod_eq_of_lt (by simpa using x.toNat_lt),
    Nat.mod_eq_of_lt (by simpa using y.toNat_lt)] at hn
  exact UInt16.toNat_inj.mp hn

theorem append_netBytes_inj {x y : UInt16} {l l' : List UInt8}
    (h : netBytes 2 x.toNat ++ l = netBytes 2 y.toNat ++ l') : x = y ∧ l = l' := by
  have hlen : (netBytes 2 x.toNat).length = (netBytes 2 y.toNat).length := by simp
  obtain ⟨hx, hl⟩ := List.append_inj h hlen
  exact ⟨netBytes_inj hx, hl⟩

/-- Tags are taken off the front until there is none, or only part of one. -/
theorem exists_wire (n : ℕ) : ∀ l : List UInt8, l.length ≤ n → 2 ≤ l.length →
    ∃ tags etherType payload, l = wire tags etherType payload ∧
      (protoIsVlan (bpfNtohs etherType) = true → payload.length < 4) := by
  induction n with
  | zero =>
    intro l hn h2
    omega
  | succ n ih =>
    intro l hn h2
    obtain ⟨x, hx⟩ := exists_netBytes h2
    have hlen : (l.drop 2).length = l.length - 2 := List.length_drop
    by_cases hv : protoIsVlan (bpfNtohs x) = true ∧ 4 ≤ (l.drop 2).length
    · obtain ⟨⟨tpid, htpid⟩, h4⟩ := And.imp_left protoIsVlan_iff.mp hv
      obtain ⟨tci, htci⟩ := exists_netBytes (show 2 ≤ (l.drop 2).length by omega)
      have hlen' : ((l.drop 2).drop 2).length = (l.drop 2).length - 2 := List.length_drop
      obtain ⟨tags, etherType, payload, hw, hlast⟩ := ih ((l.drop 2).drop 2) (by omega) (by omega)
      refine ⟨⟨tpid, tci⟩ :: tags, etherType, payload, ?_, hlast⟩
      rw [wire_cons, ← hw, ← htci, htpid]
      exact hx
    · refine ⟨[], x, l.drop 2, hx, fun hp => ?_⟩
      rw [not_and, not_le] at hv
      exact hv hp

theorem tpid_injective {p q : Tpid} (h : p.etherType = q.etherType) : p = q := by
  revert h
  cases p <;> cases q <;> decide

theorem wire_injective {tags tags' : List Tag} {e e' : UInt16} {p p' : List UInt8}
    (hlast : protoIsVlan (bpfNtohs e) = true → p.length < 4)
    (hlast' : protoIsVlan (bpfNtohs e') = true → p'.length < 4)
    (h : wire tags e p = wire tags' e' p') : tags = tags' ∧ e = e' ∧ p = p' := by
  -- a tag is never taken for the last EtherType: four bytes would follow it
  have hcut : ∀ {t : Tag} {ts : List Tag} {e e' : UInt16} {p p' : List UInt8},
      (protoIsVlan (bpfNtohs e) = true → p.length < 4) →
      wire [] e p ≠ wire (t :: ts) e' p' := by
    intro t ts e e' p p' hl hc
    rw [wire_nil, wire_cons] at hc
    obtain ⟨rfl, rfl⟩ := append_netBytes_inj hc
    have hlt := hl (protoIsVlan_tpid t.tpid)
    rw [List.length_append, length_netBytes, length_wire] at hlt
    omega
  induction tags generalizing tags' with
  | nil =>
    cases tags' with
    | nil => exact ⟨rfl, append_netBytes_inj h⟩
    | cons t ts => exact absurd h (hcut hlast)
  | cons t ts ih =>
    cases tags' with
    | nil => exact absurd h.symm (hcut hlast')
    | cons t' ts' =>
      rw [wire_cons, wire_cons] at h
      obtain ⟨htpid, h⟩ := append_netBytes_inj h
      obtain ⟨htci, h⟩ := append_netBytes_inj h
      obtain ⟨rfl, he⟩ := ih h
      have ht : t = t' := by
        cases t
        cases t'
        cases tpid_injective htpid
        cases htci
        rfl
      exact ⟨by rw [ht], he⟩

namespace Tagged

theorem length_bytes (t : Tagged) : t.bytes.length = 14 + 4 * t.tags.length + t.payload.length := by
  rw [bytes, List.length_append, List.length_ofFn, length_wire]
  omega

/-- **Every frame with an Ethernet header** is a list of tags around the rest. -/
theorem exists_tagged {l : List UInt8} (h : 14 ≤ l.length) : ∃ t : Tagged, t.bytes = l := by
  have hlen : (l.drop 12).length = l.length - 12 := List.length_drop
  obtain ⟨tags, etherType, payload, hw, hlast⟩ := exists_wire _ (l.drop 12) le_rfl (by omega)
  have h12 : (l.take 12).length = 12 := by
    rw [List.length_take]
    omega
  refine ⟨⟨fun i => l.getD i 0, tags, etherType, payload, hlast⟩, ?_⟩
  rw [bytes, ← hw]
  dsimp only
  have hm : List.ofFn (fun i : Fin 12 => l.getD i 0) = l.take 12 := by
    apply List.ext_getElem
    · rw [List.length_ofFn, h12]
    · intro i hi _
      rw [List.length_ofFn] at hi
      rw [List.getElem_ofFn, List.getElem_take, List.getD_eq_getElem?_getD,
        List.getElem?_eq_getElem (show i < l.length by omega), Option.getD_some]
  rw [hm, List.take_append_drop]

theorem bytes_injective {t t' : Tagged} (h : t.bytes = t'.bytes) : t = t' := by
  obtain ⟨hm, hw⟩ := List.append_inj h (by simp)
  obtain ⟨htags, he, hp⟩ := wire_injective t.last t'.last hw
  exact Tagged.ext (List.ofFn_injective hm) htags he hp

end Tagged

/-! ## The loop on a list of tags -/

/-- The array after `n` rounds from round `i` over `tags`. -/
def collected (i n : ℕ) (tags : List Tag) (vlans : CollectVlans) : CollectVlans := fun j =>
  if i ≤ j ∧ j < i + n then ((tags.map Tag.vid)[(j : ℕ) - i]?).getD (vlans j) else vlans j

section Loop

variable {f : Frame} {off : ℕ} {etherType : UInt16} {payload : List UInt8}

theorem load16_wire {tags : List Tag} (h : f.bytes.drop off = wire tags etherType payload) :
    f.load16 off = bpfNtohs (frontType etherType tags) := by
  cases tags with
  | nil => exact load16_of_drop h
  | cons t ts =>
    rw [wire_cons] at h
    exact load16_of_drop h

theorem collected_nil (i n : ℕ) (vlans : CollectVlans) : collected i n [] vlans = vlans := by
  funext j
  simp [collected]

theorem collected_zero (i : ℕ) (tags : List Tag) (vlans : CollectVlans) :
    collected i 0 tags vlans = vlans := by
  funext j
  rw [collected, if_neg (by omega)]

theorem collected_update {i : ℕ} (hi : i < vlanMaxDepth) (n : ℕ) (t : Tag) (ts : List Tag)
    (vlans : CollectVlans) :
    collected (i + 1) n ts (Function.update vlans ⟨i, hi⟩ t.vid) =
      collected i (n + 1) (t :: ts) vlans := by
  funext j
  rcases lt_trichotomy (j : ℕ) i with hlt | heq | hgt
  · have hne : j ≠ ⟨i, hi⟩ := fun hc => by rw [hc] at hlt; exact lt_irrefl _ hlt
    rw [collected, collected, if_neg (by omega), if_neg (by omega),
      Function.update_of_ne hne]
  · have he : j = ⟨i, hi⟩ := Fin.ext heq
    rw [collected, collected, if_neg (by omega), if_pos (by omega), he, Function.update_self,
      Nat.sub_self]
    rfl
  · have hne : j ≠ ⟨i, hi⟩ := fun hc => by rw [hc] at hgt; exact lt_irrefl _ hgt
    have hj : (j : ℕ) - i = (j : ℕ) - (i + 1) + 1 := by omega
    rw [collected, collected, Function.update_of_ne hne, hj, List.map_cons,
      List.getElem?_cons_succ]
    congr 1
    exact propext (by omega)

theorem collect?_of_drop {i : ℕ} (hi : i < vlanMaxDepth) {tci : UInt16} {rest : List UInt8}
    (h : f.bytes.drop off = netBytes 2 tci.toNat ++ rest) (vlans : Option CollectVlans) :
    collect? f off i vlans =
      some (vlans.map fun v => Function.update v ⟨i, hi⟩ (tci &&& vlanVidMask)) := by
  cases vlans with
  | none => rfl
  | some vlans =>
    have hne : netBytes 2 tci.toNat ++ rest ≠ [] := List.append_ne_nil_of_left_ne_nil
      (List.ne_nil_of_length_pos (by simp)) rest
    have hlen := length_of_drop h hne
    rw [List.length_append, length_netBytes] at hlen
    rw [collect?, Frame.load16?_of_le (by omega), load16_of_drop h]
    simp [CollectVlans.set?, hi, bpfNtohs_bpfNtohs]

/-- A round without a whole tag ends the loop. -/
theorem vlanLoop?_nil (h : f.bytes.drop off = wire [] etherType payload)
    (hlast : protoIsVlan (bpfNtohs etherType) = true → payload.length < 4) (n i : ℕ)
    (vlans : Option CollectVlans) :
    vlanLoop? f n i ⟨off + 2, f.load16 off, vlans⟩ = some ⟨off + 2, f.load16 off, vlans⟩ := by
  cases n with
  | zero => rfl
  | succ n =>
    have hlen := length_of_drop h (wire_ne_nil [])
    rw [length_wire, List.length_nil] at hlen
    rw [vlanLoop?]
    by_cases hp : protoIsVlan (bpfNtohs etherType) = true
    · have hcut := hlast hp
      rw [if_neg (by simp [load16_wire h, frontType, hp]),
        if_pos (by unfold sizeofVlanHdr; dsimp only; omega)]
    · rw [if_pos (by simpa [load16_wire h, frontType] using hp)]

/-- A round takes one tag. -/
theorem vlanLoop?_cons {t : Tag} {ts : List Tag}
    (h : f.bytes.drop off = wire (t :: ts) etherType payload) {n i : ℕ} (hi : i < vlanMaxDepth)
    (vlans : Option CollectVlans) :
    f.bytes.drop (off + 4) = wire ts etherType payload ∧
    vlanLoop? f (n + 1) i ⟨off + 2, f.load16 off, vlans⟩ =
      vlanLoop? f n (i + 1) ⟨off + 4 + 2, f.load16 (off + 4),
        vlans.map fun v => Function.update v ⟨i, hi⟩ t.vid⟩ := by
  have hp : protoIsVlan (f.load16 off) = true := by
    rw [load16_wire h]
    exact protoIsVlan_tpid t.tpid
  have hlen := length_of_drop h (wire_ne_nil (t :: ts))
  rw [length_wire, List.length_cons] at hlen
  rw [wire_cons] at h
  have htci : f.bytes.drop (off + 2) = netBytes 2 t.tci.toNat ++ wire ts etherType payload := by
    rw [← List.drop_drop, h, List.drop_left' (length_netBytes 2 _)]
  constructor
  · rw [show off + 4 = off + 2 + 2 from rfl, ← List.drop_drop, htci,
      List.drop_left' (length_netBytes 2 _)]
  · rw [vlanLoop?, if_neg (by simp [hp]), if_neg (by unfold sizeofVlanHdr; dsimp only; omega),
      Frame.load16?_of_le (by dsimp only; omega)]
    simp only [Option.bind_eq_bind, Option.bind_some, collect?_of_drop hi htci]
    rfl

/-- **The loop takes one tag in each round**, as long as there are tags and rounds. -/
theorem vlanLoop?_wire {n i : ℕ} (hn : i + n ≤ vlanMaxDepth) {tags : List Tag}
    (h : f.bytes.drop off = wire tags etherType payload)
    (hlast : protoIsVlan (bpfNtohs etherType) = true → payload.length < 4)
    (vlans : Option CollectVlans) :
    vlanLoop? f n i ⟨off + 2, f.load16 off, vlans⟩ =
      some ⟨off + 4 * min n tags.length + 2, f.load16 (off + 4 * min n tags.length),
        vlans.map (collected i n tags)⟩ := by
  induction n generalizing i off tags vlans with
  | zero =>
    have hv : collected i 0 tags = id := funext (collected_zero i tags)
    rw [hv, Option.map_id, Nat.zero_min]
    rfl
  | succ n ih =>
    cases tags with
    | nil =>
      have hv : collected i (n + 1) [] = id := funext (collected_nil i (n + 1))
      rw [hv, Option.map_id, List.length_nil, Nat.min_zero]
      exact vlanLoop?_nil h hlast (n + 1) i vlans
    | cons t ts =>
      obtain ⟨hrest, hround⟩ := vlanLoop?_cons h (show i < vlanMaxDepth by omega) (n := n) vlans
      have hmin : off + 4 * min (n + 1) (t :: ts).length = off + 4 + 4 * min n ts.length := by
        rw [List.length_cons]
        omega
      rw [hround, ih (by omega) hrest, hmin, Option.map_map]
      congr 3
      funext v
      exact collected_update (by omega) n t ts v

end Loop

/-! ## The Ethernet helper -/

namespace Tagged

variable (t : Tagged)

theorem drop_wire (n : ℕ) :
    t.bytes.drop (12 + 4 * min n t.tags.length) =
      wire (t.tags.drop n) t.etherType t.payload := by
  have h12 : t.bytes.drop 12 = wire t.tags t.etherType t.payload :=
    List.drop_left' List.length_ofFn
  rw [← List.drop_drop, h12]
  generalize t.tags = tags
  induction tags generalizing n with
  | nil => simp
  | cons tag tags ih =>
    cases n with
    | zero => simp
    | succ n =>
      have hmin : 4 * min (n + 1) (tag :: tags).length = 2 + (2 + 4 * min n tags.length) := by
        rw [List.length_cons]
        omega
      rw [List.drop_succ_cons, hmin, ← List.drop_drop, ← List.drop_drop, wire_cons,
        List.drop_left' (length_netBytes 2 _), List.drop_left' (length_netBytes 2 _), ih]

/-- What `parse_ethhdr` makes of the frame. -/
def seen : HdrResult where
  ret := (bpfNtohs (t.etherTypeAfter vlanMaxDepth)).toNat
  pos := sizeofEthhdr + 4 * min vlanMaxDepth t.tags.length
  hdr := some 0

/-- The identifiers of the first tags; the rest of the array is left as it was. -/
def ids (vlans : CollectVlans) : CollectVlans := fun j =>
  ((t.tags.map Tag.vid)[(j : ℕ)]?).getD (vlans j)

variable {t}

theorem load16_etherTypeAfter {f : Frame} (h : f.bytes = t.bytes) (n : ℕ) :
    f.load16 (12 + 4 * min n t.tags.length) = bpfNtohs (t.etherTypeAfter n) := by
  rw [load16_wire (by rw [h, drop_wire])]
  rfl

theorem parseEthhdrVlan?_eq {f : Frame} (h : f.bytes = t.bytes) (vlans : Option CollectVlans) :
    parseEthhdrVlan? f 0 vlans = some (t.seen, vlans.map t.ids) := by
  have hlen := t.length_bytes
  rw [← h] at hlen
  have hdrop : f.bytes.drop 12 = wire t.tags t.etherType t.payload := by
    rw [h]
    exact t.drop_wire 0
  have hids : collected 0 vlanMaxDepth t.tags = t.ids := by
    funext v j
    rw [collected, if_pos ⟨Nat.zero_le _, by simp⟩]
    rfl
  rw [parseEthhdrVlan?, if_neg (by unfold sizeofEthhdr; omega),
    Frame.load16?_of_le (by omega)]
  simp only [Option.bind_eq_bind, Option.bind_some, Nat.zero_add, sizeofEthhdr]
  rw [show (14 : ℕ) = 12 + 2 from rfl, vlanLoop?_wire (Nat.zero_add _).le hdrop t.last,
    load16_etherTypeAfter h, hids, Option.bind_some, seen]
  congr 3
  dsimp only [sizeofEthhdr]
  omega

end Tagged

/-- **`parse_ethhdr_vlan` sees two tags.** A frame too short for an Ethernet header is refused. Any
other frame is, in one way, a list of tags around an EtherType and a payload, and the helper skips
the first two tags, returns the EtherType behind them and collects their identifiers. -/
theorem parse_sees_two_tags (f : Frame) (vlans : CollectVlans) :
    (f.bytes.length < sizeofEthhdr →
      parseEthhdrVlan? f 0 (some vlans) = some (HdrResult.fail 0, some vlans)) ∧
    (sizeofEthhdr ≤ f.bytes.length → ∃ t : Tagged, t.bytes = f.bytes ∧
      (∀ t' : Tagged, t'.bytes = f.bytes → t' = t) ∧
      parseEthhdrVlan? f 0 (some vlans) = some (t.seen, some (t.ids vlans)) ∧
      parseEthhdr? f 0 = some t.seen) := by
  constructor
  · intro h
    rw [parseEthhdrVlan?, if_pos (by omega)]
    rfl
  · intro h
    obtain ⟨t, ht⟩ := Tagged.exists_tagged h
    refine ⟨t, ht, ?_, Tagged.parseEthhdrVlan?_eq ht.symm (some vlans), ?_⟩
    · intro t' ht'
      exact Tagged.bytes_injective (ht'.trans ht.symm)
    · rw [parseEthhdr?, Tagged.parseEthhdrVlan?_eq ht.symm none]
      rfl

end XdpDetector

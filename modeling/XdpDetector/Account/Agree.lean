import XdpDetector.System
import XdpDetector.Kern.Accept
import XdpDetector.Lib.Totals

/-!
# The accounting record and the flow table

Every accepted packet is counted twice: in the entry of its flow, with the length of the frame, and
in the accounting record, with the length the parser left in `pkt_len`. The parser returns from a
whitelisted echo before it writes that length.

* `Maps.accounting`, `accounting_step`: what one event does to the record;
* `accepted`, `frameBytes`, `accountedBytes`: the accepted packets of a run and their bytes;
* `Accounted`, `accounted_run`: both sides in terms of the accepted packets, along every run;
* **`totals_agree_iff_no_echo`**: the two sides agree in the runs without a whitelisted echo.
-/

namespace XdpDetector

def Maps.accounting (s : Maps) : Accounting := s.accountingMap.slot ⟨0, Nat.one_pos⟩

namespace Frame

/-- The length that `pkt_len` holds after an accepted frame. -/
def accountedLen (f : Frame) : UInt64 := if f.isEcho then 0 else f.len

/-- One of the two echo messages for which the parser returns `1`. -/
def Whitelisted (f : Frame) : Prop := f.Fits ∧ f.isEcho

theorem flowKey?_isSome_iff {f : Frame} : f.flowKey?.isSome ↔ f.Fits := by
  rw [← accepted_iff_fits FlowKey.zero 0, flowKey?]
  show _ ↔ f.parsed.ret = 0 ∨ f.parsed.ret = 1
  split_ifs with h
  · simp [h]
  · simp [h]

theorem parsed_pktLen {f : Frame} (h : f.Fits) : f.parsed.pktLen = f.accountedLen := by
  rw [parsed, parsePacketGetData_of_fits FlowKey.zero 0 h, accountedLen]
  split_ifs <;> rfl

theorem toNat_len (f : Frame) : f.len.toNat = f.bytes.length := by
  have h := f.length_lt
  rw [len, UInt64.toNat_ofNat', Nat.mod_eq_of_lt (by omega)]

end Frame

/-- The call of an accepted packet. -/
def Event.call? : Event → Option Input
  | .packet x => if x.frame.flowKey?.isSome then some x else none
  | .reload _ => none

def accepted (es : List Event) : List Input := es.filterMap Event.call?

theorem accepted_snoc (es : List Event) (e : Event) :
    accepted (es ++ [e]) = accepted es ++ e.call?.toList := by
  rw [accepted, List.filterMap_append]
  cases h : e.call? <;> simp [accepted, h]

theorem call?_eq_some {e : Event} {x : Input} (h : e.call? = some x) :
    e = .packet x ∧ x.frame.Fits := by
  cases e with
  | reload tree => cases h
  | packet y =>
    rw [Event.call?] at h
    split_ifs at h with hy
    obtain rfl := Option.some.inj h
    exact ⟨rfl, Frame.flowKey?_isSome_iff.mp hy⟩

/-! ## One event and the record -/

/-- **One event and the accounting record.** -/
theorem accounting_step (s : Maps) (e : Event) :
    (step s e).accounting = e.call?.elim s.accounting fun x =>
      account s.accounting x.timeOut x.frame.accountedLen := by
  cases e with
  | reload tree => rfl
  | packet x =>
    cases h : x.frame.flowKey? with
    | none => rw [step, detector_refused s x h, Event.call?, h, if_neg (by simp)]; rfl
    | some k =>
      have hsome : x.frame.flowKey?.isSome := by rw [h]; rfl
      have hlen := Frame.parsed_pktLen (Frame.flowKey?_isSome_iff.mp hsome)
      rw [step, detector_accepted s x h, hlen, Event.call?, if_pos hsome]
      rfl

/-! ## Both sides along a run -/

/-- The byte sum of the accepted frames. -/
def frameBytes (es : List Event) : ℕ := ((accepted es).map fun x => x.frame.bytes.length).sum

/-- The byte sum of the accepted frames that are not whitelisted. -/
def accountedBytes (es : List Event) : ℕ :=
  ((accepted es).map fun x => x.frame.accountedLen.toNat).sum

/-- The sums over the flow table. -/
def Maps.tablePkts (s : Maps) : ℕ := s.xdpFlowTracking.total fun dp => dp.totalPkts.toNat

def Maps.tableBytes (s : Maps) : ℕ := s.xdpFlowTracking.total fun dp => dp.totalBytes.toNat

/-- The event is not a packet whose flow is refused an entry. -/
def NotRefused (s : Maps) (e : Event) : Prop :=
  ∀ x k, e = .packet x → x.frame.flowKey? = some k → Admits s k

/-- **The two sides in terms of the accepted packets.** -/
structure Accounted (es : List Event) (s : Maps) : Prop where
  tablePkts : s.tablePkts % 2 ^ 32 = (accepted es).length % 2 ^ 32
  tableBytes : s.tableBytes % 2 ^ 32 = frameBytes es % 2 ^ 32
  accountingPkts : s.accounting.totalPkts.toNat = (accepted es).length % 2 ^ 32
  accountingBytes : s.accounting.totalBytes.toNat = accountedBytes es % 2 ^ 32

theorem toNat_nextEntry_totalPkts (old : Option DataPoint) (ts len : UInt64)
    (tree : DtTree maxDtNodes) : (nextEntry old ts len tree).totalPkts.toNat =
      (old.elim 0 (fun dp => dp.totalPkts.toNat) + 1) % 2 ^ 32 := by
  cases old with
  | none => rfl
  | some dp => exact UInt32.toNat_add dp.totalPkts 1

theorem toNat_nextEntry_totalBytes (old : Option DataPoint) (ts len : UInt64)
    (tree : DtTree maxDtNodes) : (nextEntry old ts len tree).totalBytes.toNat =
      (old.elim 0 (fun dp => dp.totalBytes.toNat) + len.toNat) % 2 ^ 32 := by
  cases old with
  | none =>
    rw [Option.elim_none, Nat.zero_add]
    exact UInt64.toNat_toUInt32 len
  | some dp =>
    show (dp.totalBytes + len.toUInt32).toNat = (dp.totalBytes.toNat + len.toNat) % 2 ^ 32
    rw [UInt32.toNat_add, UInt64.toNat_toUInt32, Nat.add_mod_mod]

theorem table_of_call?_eq_none {s : Maps} {e : Event} (h : e.call? = none) :
    (step s e).xdpFlowTracking = s.xdpFlowTracking := by
  cases e with
  | reload tree => rfl
  | packet x =>
    have hn : x.frame.flowKey? = none := by
      rw [Event.call?] at h
      split_ifs at h with hk
      exact Option.not_isSome_iff_eq_none.mp hk
    rw [step, detector_refused s x hn]

/-- An admitted packet changes the entry of its own flow only. -/
theorem table_of_admits {s : Maps} {x : Input} {k : FlowKey} (hk : x.frame.flowKey? = some k)
    (ha : Admits s k) (k' : FlowKey) :
    (step s (.packet x)).xdpFlowTracking.lookup k' = if k' = k then
      some (nextEntry (s.xdpFlowTracking.lookup k) x.tsNs x.frame.len (s.dtMap.slot 0))
      else s.xdpFlowTracking.lookup k' := by
  rw [step, lookup_detector, hk]
  by_cases hkk : k' = k
  · rw [if_pos ⟨by rw [hkk], by rw [hkk]; exact ha⟩, if_pos hkk, hkk]
  · rw [if_neg fun hc => hkk (Option.some.inj hc.1).symm, if_neg hkk]

theorem table_step {s : Maps} {e : Event} (h : NotRefused s e) :
    (step s e).tablePkts % 2 ^ 32 =
        (s.tablePkts + e.call?.elim 0 fun _ => 1) % 2 ^ 32 ∧
      (step s e).tableBytes % 2 ^ 32 =
        (s.tableBytes + e.call?.elim 0 fun x => x.frame.bytes.length) % 2 ^ 32 := by
  cases hc : e.call? with
  | none =>
    rw [Maps.tablePkts, Maps.tableBytes, table_of_call?_eq_none hc]
    exact ⟨rfl, rfl⟩
  | some x =>
    obtain ⟨rfl, hfits⟩ := call?_eq_some hc
    obtain ⟨k, hk⟩ := Option.isSome_iff_exists.mp (Frame.flowKey?_isSome_iff.mpr hfits)
    have hlook := table_of_admits hk (h x k rfl hk)
    refine ⟨BoundedMap.total_mod_of_add hlook ?_, BoundedMap.total_mod_of_add hlook ?_⟩
    · exact toNat_nextEntry_totalPkts _ _ _ _
    · rw [toNat_nextEntry_totalBytes, Frame.toNat_len]
      rfl

theorem length_accepted_snoc (es : List Event) (e : Event) :
    (accepted (es ++ [e])).length = (accepted es).length + e.call?.elim 0 fun _ => 1 := by
  rw [accepted_snoc]
  cases e.call? <;> simp

theorem frameBytes_snoc (es : List Event) (e : Event) :
    frameBytes (es ++ [e]) = frameBytes es + e.call?.elim 0 fun x => x.frame.bytes.length := by
  rw [frameBytes, frameBytes, accepted_snoc]
  cases e.call? <;> simp

theorem accountedBytes_snoc (es : List Event) (e : Event) :
    accountedBytes (es ++ [e]) =
      accountedBytes es + e.call?.elim 0 fun x => x.frame.accountedLen.toNat := by
  rw [accountedBytes, accountedBytes, accepted_snoc]
  cases e.call? <;> simp

theorem accounted_step {es : List Event} {s : Maps} {e : Event} (he : NotRefused s e)
    (h : Accounted es s) : Accounted (es ++ [e]) (step s e) := by
  obtain ⟨hp, hb⟩ := table_step he
  refine ⟨?_, ?_, ?_, ?_⟩
  · rw [hp, length_accepted_snoc, Nat.add_mod, h.tablePkts, ← Nat.add_mod]
  · rw [hb, frameBytes_snoc, Nat.add_mod, h.tableBytes, ← Nat.add_mod]
  · rw [accounting_step, length_accepted_snoc]
    cases e.call? with
    | none => exact h.accountingPkts
    | some x =>
      show (s.accounting.totalPkts + 1).toNat = _
      rw [UInt32.toNat_add, h.accountingPkts]
      exact Nat.mod_add_mod _ _ _
  · rw [accounting_step, accountedBytes_snoc]
    cases e.call? with
    | none => exact h.accountingBytes
    | some x =>
      show (s.accounting.totalBytes + x.frame.accountedLen.toUInt32).toNat = _
      rw [UInt32.toNat_add, UInt64.toNat_toUInt32, h.accountingBytes, ← Nat.add_mod]
      rfl

/-- **Along every run without a refusal.** -/
theorem accounted_run (tree : DtTree maxDtNodes) {es : List Event}
    (hes : Run.Along step NotRefused (start tree Accounting.zero) es) :
    Accounted es (run (start tree Accounting.zero) es) :=
  Run.along_induction step ⟨rfl, rfl, rfl, rfl⟩ (fun _ _ he h => accounted_step he h) hes

/-! ## Agreement -/

/-- **The accounting record agrees with the flow table**, and both with the accepted frames. -/
def TotalsAgree (es : List Event) (s : Maps) : Prop :=
  (s.accounting.totalPkts.toNat = s.tablePkts % 2 ^ 32 ∧
    s.accounting.totalBytes.toNat = s.tableBytes % 2 ^ 32) ∧
  (s.accounting.totalPkts.toNat = (accepted es).length % 2 ^ 32 ∧
    s.accounting.totalBytes.toNat = frameBytes es % 2 ^ 32)

theorem mem_accepted {es : List Event} {x : Input} (h : x ∈ accepted es) :
    .packet x ∈ es ∧ x.frame.Fits := by
  obtain ⟨e, he, hc⟩ := List.mem_filterMap.mp h
  obtain ⟨rfl, hfits⟩ := call?_eq_some hc
  exact ⟨he, hfits⟩

theorem accountedBytes_eq {es : List Event}
    (h : ∀ x, Event.packet x ∈ es → ¬ x.frame.Whitelisted) : accountedBytes es = frameBytes es := by
  rw [accountedBytes, frameBytes]
  congr 1
  refine List.map_congr_left fun x hx => ?_
  obtain ⟨hmem, hfits⟩ := mem_accepted hx
  rw [Frame.accountedLen, if_neg fun hc => h x hmem ⟨hfits, hc⟩, Frame.toNat_len]

/-- **A whitelisted echo is where the two sides part**: they agree after every packet of a run
exactly if none of its frames is one. -/
theorem totals_agree_iff_no_echo (tree : DtTree maxDtNodes) (es : List Event)
    (hes : Run.Along step NotRefused (start tree Accounting.zero) es) :
    (∀ es', es' <+: es → TotalsAgree es' (run (start tree Accounting.zero) es')) ↔
      ∀ x, Event.packet x ∈ es → ¬ x.frame.Whitelisted := by
  have hcount : ∀ es', es' <+: es → Accounted es' (run (start tree Accounting.zero) es') :=
    fun es' hp => accounted_run tree (Run.along_prefix step hp hes)
  constructor
  · intro h x hx hw
    obtain ⟨before, after, rfl⟩ := List.append_of_mem hx
    have hp₀ : before <+: before ++ .packet x :: after := List.prefix_append _ _
    have hp₁ : before ++ [.packet x] <+: before ++ .packet x :: after := ⟨after, by simp⟩
    have hcall : (Event.packet x).call? = some x :=
      if_pos (Frame.flowKey?_isSome_iff.mpr hw.1)
    have hlen : x.frame.accountedLen.toNat = 0 := by rw [Frame.accountedLen, if_pos hw.2]; rfl
    have h₀ := (h _ hp₀).2.2.symm.trans (hcount _ hp₀).accountingBytes
    have h₁ := (h _ hp₁).2.2.symm.trans (hcount _ hp₁).accountingBytes
    rw [frameBytes_snoc, accountedBytes_snoc, hcall, Option.elim_some, Option.elim_some, hlen] at h₁
    have hpos := hw.1.1
    have hlt := x.frame.length_lt
    omega
  · intro h es' hp
    have hc := hcount es' hp
    have hb : accountedBytes es' = frameBytes es' :=
      accountedBytes_eq fun x hx => h x (hp.subset hx)
    refine ⟨⟨?_, ?_⟩, hc.accountingPkts, ?_⟩
    · rw [hc.accountingPkts, hc.tablePkts]
    · rw [hc.accountingBytes, hc.tableBytes, hb]
    · rw [hc.accountingBytes, hb]

/-- A run that is not longer than the table refuses nothing. -/
theorem notRefused_of_length (tree : DtTree maxDtNodes) (ac : Accounting) {es : List Event}
    (h : es.length ≤ maxFlowSaved) : Run.Along step NotRefused (start tree ac) es := by
  induction es using List.reverseRecOn with
  | nil => trivial
  | append_singleton es e ih =>
    rw [List.length_append] at h
    have hlt : (run (start tree ac) es).xdpFlowTracking.size < maxFlowSaved :=
      (size_run_le_length tree ac es).trans_lt h
    exact (Run.along_append step).mpr ⟨ih (Nat.le_of_succ_le h), fun _ _ _ _ => Or.inr hlt, trivial⟩

theorem totals_agree_twoFlows : TotalsAgree twoFlows (run zeroMaps twoFlows) := by
  refine (totals_agree_iff_no_echo (DtTree.zero maxDtNodes) twoFlows
    (notRefused_of_length _ _ (by decide))).mpr (fun x hx hw => ?_) _ List.prefix_rfl
  obtain ⟨i, n, hframe⟩ := frame_of_mem_twoFlows hx
  rw [hframe] at hw
  exact absurd hw.2.1 (by decide : (17 : UInt8) ≠ ipprotoIcmp)

/-- An echo request from `192.168.50.3` to `192.168.50.4`. -/
def echoRequest : Frame where
  bytes := [0, 0, 0, 0, 0, 1, 0, 0, 0, 0, 0, 2, 8, 0] ++
    [0x45, 0, 0, 28, 0, 0, 0, 0, 64, 1, 0, 0, 192, 168, 50, 3, 192, 168, 50, 4] ++
    [8, 0, 0, 0, 0, 1, 0, 1]
  length_lt := by decide

/-- After one echo request the flow table holds 42 bytes and the accounting record none. -/
theorem totals_disagree_echoRequest :
    Run.Along step NotRefused zeroMaps [.packet ⟨echoRequest, 1000, 2000⟩] ∧
      ¬ TotalsAgree [.packet ⟨echoRequest, 1000, 2000⟩]
        (run zeroMaps [.packet ⟨echoRequest, 1000, 2000⟩]) := by
  have hes : Run.Along step NotRefused zeroMaps [.packet ⟨echoRequest, 1000, 2000⟩] :=
    notRefused_of_length _ _ (by decide)
  refine ⟨hes, fun h => ?_⟩
  have hb := h.2.2.symm.trans (accounted_run (DtTree.zero maxDtNodes) hes).accountingBytes
  revert hb
  decide

end XdpDetector

import XdpDetector.Concurrent.Step
import Mathlib.Algebra.BigOperators.Group.Finset.Basic
import Mathlib.Data.Fintype.BigOperators

/-!
# Counting packets on several CPUs

The two totals of a flow count every packet as long as no CPU works on an element that another one
has replaced: an insertion finds the key still absent, an addition goes to the element still stored,
and a write-back copies the totals the table already has. `update_stats` ensures none of this.

* `Shared.totalPkts`, `Shared.totalBytes`: the totals stored for the key;
* `Undisturbed`: the condition on the state before a turn;
* `Counted`: the totals against the packets counted so far, kept by `counted_turn`;
* **`no_packet_lost`**: the totals after all CPUs have finished;
* `undisturbed_serial`: CPUs that do not overlap meet the condition;
* `racing_inserts`: two CPUs that lose a packet.
-/

namespace XdpDetector

section Totals

variable {ι : Type}

/-- `total_pkts` of the entry, `0` if there is none. -/
def Shared.totalPkts (s : Shared ι) : ℕ := s.entry.elim 0 fun dp => dp.totalPkts.toNat

def Shared.totalBytes (s : Shared ι) : ℕ := s.entry.elim 0 fun dp => dp.totalBytes.toNat

/-- **No other CPU comes between**: before an insertion the key is still absent, before an addition
the element is still the stored one, and before a write-back nobody has added to a replacement of
the element, so that its totals are the stored ones. -/
def Undisturbed (s : Shared ι) (e : ι × Bool) : Prop :=
  match s.pc e.1 with
  | .insert => s.stored = none
  | .addPkts dp _ => s.stored = some dp
  | .addBytes dp _ => s.stored = some dp
  | .writeBack dp => s.entry.isSome ∧ (s.elem dp).totalPkts.toNat = s.totalPkts ∧
      (s.elem dp).totalBytes.toNat = s.totalBytes
  | _ => True

theorem Shared.totalPkts_lt (s : Shared ι) : s.totalPkts < 2 ^ 32 := by
  unfold totalPkts
  cases s.entry with
  | none => decide
  | some dp => exact dp.totalPkts.toNat_lt

theorem Shared.totalBytes_lt (s : Shared ι) : s.totalBytes < 2 ^ 32 := by
  unfold totalBytes
  cases s.entry with
  | none => decide
  | some dp => exact dp.totalBytes.toNat_lt

theorem Shared.entry_of_stored {s : Shared ι} {dp : ℕ} (h : s.stored = some dp) :
    s.entry = some (s.elem dp) := by
  rw [entry, h]
  rfl

theorem Shared.entry_modify (s : Shared ι) (dp : ℕ) (f : DataPoint → DataPoint) :
    (s.modify dp f).entry = if s.stored = some dp then some (f (s.elem dp)) else s.entry := by
  unfold entry modify
  cases hs : s.stored with
  | none => rfl
  | some cur =>
    by_cases h : cur = dp
    · subst h
      simp
    · simp [h]

theorem Shared.entry_install (s : Shared ι) (value : DataPoint) :
    (s.install value).entry = some value := by
  simp [entry, install]

theorem Shared.totals_modify (s : Shared ι) (dp : ℕ) {f : DataPoint → DataPoint}
    (hf : ∀ d, (f d).totalPkts = d.totalPkts ∧ (f d).totalBytes = d.totalBytes) :
    (s.modify dp f).totalPkts = s.totalPkts ∧ (s.modify dp f).totalBytes = s.totalBytes ∧
      (s.modify dp f).entry.isSome = s.entry.isSome := by
  unfold totalPkts totalBytes
  rw [entry_modify]
  split_ifs with h
  · obtain ⟨hp, hb⟩ := hf (s.elem dp)
    rw [entry_of_stored h]
    simp [hp, hb]
  · exact ⟨rfl, rfl, rfl⟩

/-! ## What has been counted -/

/-- The packets a CPU has added to `total_pkts`. -/
def Pc.pkts : Pc → ℕ
  | .lookup | .insert | .readIat _ | .addPkts _ _ | .refused => 0
  | _ => 1

/-- The CPU has added its bytes to `total_bytes`. -/
def Pc.bytes (pktLen : UInt64) : Pc → ℕ
  | .lookup | .insert | .readIat _ | .addPkts _ _ | .addBytes _ _ | .refused => 0
  | _ => pktLen.toNat

variable [Fintype ι] (pkt : ι → Arrival)

/-- **The totals count what has been added**, on top of `pkts₀` and `bytes₀`. -/
structure Counted (pkts₀ bytes₀ : ℕ) (s : Shared ι) : Prop where
  pkts : s.totalPkts = (pkts₀ + ∑ i, (s.pc i).pkts) % 2 ^ 32
  bytes : s.totalBytes = (bytes₀ + ∑ i, (s.pc i).bytes (pkt i).pktLen) % 2 ^ 32
  present : ∀ i, (s.pc i).pkts = 1 → s.entry.isSome

variable {pkt} {pkts₀ bytes₀ : ℕ} {s : Shared ι} {i : ι}

theorem sum_update_add [DecidableEq ι] (w : ι → Pc → ℕ) (pc : ι → Pc) (p : Pc) :
    (∑ j, w j (Function.update pc i p j)) + w i (pc i) = (∑ j, w j (pc j)) + w i p := by
  have h : ∀ j ∈ Finset.univ.erase i, w j (Function.update pc i p j) = w j (pc j) := by
    intro j hj
    rw [Function.update_of_ne (Finset.ne_of_mem_erase hj)]
  rw [← Finset.add_sum_erase _ _ (Finset.mem_univ i), Finset.sum_congr rfl h,
    ← Finset.add_sum_erase _ (fun j => w j (pc j)) (Finset.mem_univ i), Function.update_self]
  omega

variable [DecidableEq ι] {p₀ : Pc}

/-- A CPU moves on from `p₀` to `p`, and the totals grow by what it has added meanwhile. -/
theorem Counted.goto (hc : Counted pkt pkts₀ bytes₀ s) (hi : s.pc i = p₀) (s' : Shared ι)
    (hpc : s'.pc = s.pc) (p : Pc) (dPkts dBytes : ℕ) (hp : p.pkts = p₀.pkts + dPkts)
    (hb : p.bytes (pkt i).pktLen = p₀.bytes (pkt i).pktLen + dBytes)
    (hP : s'.totalPkts = (s.totalPkts + dPkts) % 2 ^ 32)
    (hB : s'.totalBytes = (s.totalBytes + dBytes) % 2 ^ 32)
    (hE : s.entry.isSome ∨ p.pkts = 1 → s'.entry.isSome) :
    Counted pkt pkts₀ bytes₀ (s'.goto i p) where
  pkts := by
    have h := sum_update_add (i := i) (fun _ => Pc.pkts) s.pc p
    show s'.totalPkts = (pkts₀ + ∑ j, (Function.update s'.pc i p j).pkts) % 2 ^ 32
    rw [hpc, hP, hc.pkts]
    rw [hi] at h
    omega
  bytes := by
    have h := sum_update_add (i := i) (fun j => Pc.bytes (pkt j).pktLen) s.pc p
    show s'.totalBytes =
      (bytes₀ + ∑ j, (Function.update s'.pc i p j).bytes (pkt j).pktLen) % 2 ^ 32
    rw [hpc, hB, hc.bytes]
    rw [hi] at h
    omega
  present j hj := by
    change (Function.update s'.pc i p j).pkts = 1 at hj
    rw [hpc] at hj
    refine hE ?_
    by_cases hij : j = i
    · rw [hij, Function.update_self] at hj
      exact Or.inr hj
    · rw [Function.update_of_ne hij] at hj
      exact Or.inl (hc.present j hj)

theorem Counted.idle (hc : Counted pkt pkts₀ bytes₀ s) (hi : s.pc i = p₀) (s' : Shared ι)
    (hpc : s'.pc = s.pc) (p : Pc) (hp : p.pkts = p₀.pkts)
    (hb : p.bytes (pkt i).pktLen = p₀.bytes (pkt i).pktLen)
    (hT : s'.totalPkts = s.totalPkts ∧ s'.totalBytes = s.totalBytes ∧
      s'.entry.isSome = s.entry.isSome) :
    Counted pkt pkts₀ bytes₀ (s'.goto i p) := by
  obtain ⟨hP, hB, hE⟩ := hT
  refine hc.goto hi s' hpc p 0 0 hp hb ?_ ?_ ?_
  · rw [hP, Nat.add_zero, Nat.mod_eq_of_lt s.totalPkts_lt]
  · rw [hB, Nat.add_zero, Nat.mod_eq_of_lt s.totalBytes_lt]
  · rw [hE]
    rintro (h | h)
    · exact h
    · exact hc.present i (by rw [hi, ← hp, h])

/-! ## The turns that touch the totals -/

section Cases

variable (hc : Counted pkt pkts₀ bytes₀ s)
include hc

theorem Counted.insert (hi : s.pc i = .insert) (hs : s.stored = none) :
    Counted pkt pkts₀ bytes₀
      ((s.install (newFlow (pkt i).tsNs (pkt i).pktLen)).goto i .relookup) := by
  have he : s.entry = none := by rw [Shared.entry, hs]; rfl
  refine hc.goto hi (s.install (newFlow (pkt i).tsNs (pkt i).pktLen)) rfl .relookup 1
    (pkt i).pktLen.toNat rfl (Nat.zero_add _).symm ?_ ?_ fun _ => rfl
  · rw [Shared.totalPkts, Shared.totalPkts, Shared.entry_install, he]
    rfl
  · rw [Shared.totalBytes, Shared.totalBytes, Shared.entry_install, he, Option.elim_none,
      Nat.zero_add]
    exact UInt64.toNat_toUInt32 _

theorem Counted.addPkts {dp : ℕ} {iat : UInt64} (hi : s.pc i = .addPkts dp iat)
    (hs : s.stored = some dp) :
    Counted pkt pkts₀ bytes₀ ((s.modify dp DataPoint.addPkts).goto i (.addBytes dp iat)) := by
  have he' := s.entry_modify dp DataPoint.addPkts
  rw [if_pos hs] at he'
  refine hc.goto hi (s.modify dp DataPoint.addPkts) rfl (.addBytes dp iat) 1 0 rfl rfl ?_ ?_
    fun _ => by rw [he']; rfl
  · rw [Shared.totalPkts, Shared.totalPkts, he', Shared.entry_of_stored hs]
    exact UInt32.toNat_add _ _
  · rw [Nat.add_zero, Nat.mod_eq_of_lt s.totalBytes_lt, Shared.totalBytes, Shared.totalBytes,
      he', Shared.entry_of_stored hs]
    rfl

theorem Counted.addBytes {dp : ℕ} {iat : UInt64} (hi : s.pc i = .addBytes dp iat)
    (hs : s.stored = some dp) :
    Counted pkt pkts₀ bytes₀
      ((s.modify dp fun d => d.addBytes (pkt i).pktLen).goto i (.stats dp iat)) := by
  have he' := s.entry_modify dp fun d => d.addBytes (pkt i).pktLen
  rw [if_pos hs] at he'
  refine hc.goto hi (s.modify dp fun d => d.addBytes (pkt i).pktLen) rfl (.stats dp iat) 0
    (pkt i).pktLen.toNat rfl (Nat.zero_add _).symm ?_ ?_ fun _ => by rw [he']; rfl
  · rw [Nat.add_zero, Nat.mod_eq_of_lt s.totalPkts_lt, Shared.totalPkts, Shared.totalPkts,
      he', Shared.entry_of_stored hs]
    rfl
  · rw [Shared.totalBytes, Shared.totalBytes, he', Shared.entry_of_stored hs]
    simp [DataPoint.addBytes, UInt32.toNat_add, UInt64.toNat_toUInt32]

theorem Counted.writeBack {dp : ℕ} (hi : s.pc i = .writeBack dp) (hsome : s.entry.isSome)
    (hP : (s.elem dp).totalPkts.toNat = s.totalPkts)
    (hB : (s.elem dp).totalBytes.toNat = s.totalBytes) :
    Counted pkt pkts₀ bytes₀ ((s.install (s.elem dp)).goto i .done) := by
  refine hc.idle hi (s.install (s.elem dp)) rfl .done rfl rfl ⟨?_, ?_, ?_⟩
  · rw [← hP, Shared.totalPkts, Shared.entry_install]
    rfl
  · rw [← hB, Shared.totalBytes, Shared.entry_install]
    rfl
  · rw [Shared.entry_install, hsome]
    rfl

end Cases

/-- **An undisturbed turn keeps the count.** -/
theorem counted_turn (tree : DtTree maxDtNodes) (s : Shared ι) (e : ι × Bool)
    (he : Undisturbed s e) (hc : Counted pkt pkts₀ bytes₀ s) :
    Counted pkt pkts₀ bytes₀ (turn pkt tree s e) := by
  obtain ⟨i, refused⟩ := e
  have same : s.totalPkts = s.totalPkts ∧ s.totalBytes = s.totalBytes ∧
      s.entry.isSome = s.entry.isSome := ⟨rfl, rfl, rfl⟩
  simp only [Undisturbed] at he
  simp only [turn]
  cases hi : s.pc i with
  | lookup =>
    cases s.stored with
    | none => exact hc.idle hi s rfl _ rfl rfl same
    | some dp => exact hc.idle hi s rfl _ rfl rfl same
  | insert =>
    rw [hi] at he
    cases refused with
    | true => exact hc.idle hi s rfl _ rfl rfl same
    | false => exact hc.insert hi he
  | relookup =>
    cases s.stored with
    | none => exact hc.idle hi s rfl _ rfl rfl same
    | some dp => exact hc.idle hi s rfl _ rfl rfl same
  | readIat dp => exact hc.idle hi s rfl _ rfl rfl same
  | addPkts dp iat =>
    rw [hi] at he
    exact hc.addPkts hi he
  | addBytes dp iat =>
    rw [hi] at he
    exact hc.addBytes hi he
  | stats dp iat =>
    refine hc.idle hi (s.modify dp _) rfl (.classify dp) rfl rfl (s.totals_modify dp ?_)
    exact fun d => ⟨rfl, rfl⟩
  | classify dp =>
    refine hc.idle hi (s.modify dp _) rfl (.writeBack dp) rfl rfl (s.totals_modify dp ?_)
    exact fun d => ⟨rfl, rfl⟩
  | writeBack dp =>
    rw [hi] at he
    cases refused with
    | true => exact hc.idle hi s rfl _ rfl rfl same
    | false => exact hc.writeBack hi he.1 he.2.1 he.2.2
  | done => exact hc
  | refused => exact hc

/-! ## Whole runs -/

variable (pkt) (tree : DtTree maxDtNodes)

omit [DecidableEq ι] in
theorem counted_start (hstart : ∀ i, s.pc i = .lookup) :
    Counted pkt s.totalPkts s.totalBytes s where
  pkts := by
    simp only [hstart, Pc.pkts, Finset.sum_const_zero, Nat.add_zero]
    exact (Nat.mod_eq_of_lt s.totalPkts_lt).symm
  bytes := by
    simp only [hstart, Pc.bytes, Finset.sum_const_zero, Nat.add_zero]
    exact (Nat.mod_eq_of_lt s.totalBytes_lt).symm
  present i hi := by
    rw [hstart] at hi
    cases hi

/-- **No packet is lost** in a run without disturbed turns: once all CPUs have returned, the totals
are those before plus all packets and all bytes, as 32-bit numbers. -/
theorem no_packet_lost (s : Shared ι) (hstart : ∀ i, s.pc i = .lookup) (es : List (ι × Bool))
    (hes : Run.Along (turn pkt tree) Undisturbed s es)
    (hdone : ∀ i, (turns pkt tree s es).pc i = .done) :
    (∀ _i : ι, (turns pkt tree s es).entry.isSome) ∧
      (turns pkt tree s es).totalPkts = (s.totalPkts + Fintype.card ι) % 2 ^ 32 ∧
      (turns pkt tree s es).totalBytes =
        (s.totalBytes + ∑ i, (pkt i).pktLen.toNat) % 2 ^ 32 := by
  have hc : Counted pkt s.totalPkts s.totalBytes (turns pkt tree s es) :=
    Run.along_invariant (turn pkt tree) (fun s e he h => counted_turn tree s e he h)
      (counted_start pkt hstart) hes
  refine ⟨?_, ?_, ?_⟩
  · intro i
    apply hc.present i
    rw [hdone]
    rfl
  · rw [hc.pkts]
    simp [hdone, Pc.pkts]
  · rw [hc.bytes]
    simp [hdone, Pc.bytes]

end Totals

/-! ## Schedules -/

section Schedules

variable {ι : Type} [DecidableEq ι] (pkt : ι → Arrival) (tree : DtTree maxDtNodes) {s : Shared ι}

theorem undisturbed_solo {i : ι} (hi : s.pc i = .lookup) :
    Run.Along (turn pkt tree) Undisturbed s (soloTurns i) := by
  cases hs : s.stored with
  | none =>
    simp [Run.Along, soloTurns, List.replicate, Undisturbed, turn, hi, hs, Shared.goto,
      Shared.modify, Shared.install, Shared.entry, Shared.totalPkts, Shared.totalBytes]
  | some dp =>
    simp [Run.Along, soloTurns, List.replicate, Undisturbed, turn, hi, hs, Shared.goto,
      Shared.modify, Shared.entry, Shared.totalPkts, Shared.totalBytes]

/-- **CPUs one after another** do not disturb each other. -/
theorem undisturbed_serial {is : List ι} (hn : is.Nodup) (hs : ∀ i ∈ is, s.pc i = .lookup) :
    Run.Along (turn pkt tree) Undisturbed s (is.flatMap soloTurns) := by
  induction is generalizing s with
  | nil => trivial
  | cons i is ih =>
    obtain ⟨hi, hn⟩ := List.nodup_cons.mp hn
    have hl := hs i List.mem_cons_self
    rw [List.flatMap_cons, Run.along_append]
    refine ⟨undisturbed_solo pkt tree hl, ih hn ?_⟩
    intro j hj
    show (turns pkt tree s (soloTurns i)).pc j = _
    rw [(entry_solo pkt tree hl).2, Function.update_of_ne (ne_of_mem_of_not_mem hj hi)]
    exact hs j (List.mem_cons_of_mem i hj)

end Schedules

/-- No entry for the key, and CPUs about to handle their packets. -/
def noEntry (ι : Type) : Shared ι := ⟨fun _ => newFlow 0 0, 0, none, fun _ => .lookup⟩

def twoPackets (i : Bool) : Arrival := ⟨if i then 2000 else 1000, 60⟩

/-- The second CPU looks the key up after the insertion of the first, and the two then take turns on
the same element. -/
def interleavedTurns : List (Bool × Bool) :=
  [false, false, false, true, true, true, false, true, true, false, true, true].map
    fun i => (i, false)

theorem no_packet_lost_interleaved :
    Run.Along (turn twoPackets (DtTree.zero maxDtNodes)) Undisturbed (noEntry Bool)
        interleavedTurns ∧
      (turns twoPackets (DtTree.zero maxDtNodes) (noEntry Bool) interleavedTurns).totalPkts = 2 ∧
      (turns twoPackets (DtTree.zero maxDtNodes) (noEntry Bool) interleavedTurns).totalBytes =
        120 := by
  have hes : Run.Along (turn twoPackets (DtTree.zero maxDtNodes)) Undisturbed (noEntry Bool)
      interleavedTurns := by
    refine ⟨trivial, rfl, trivial, trivial, trivial, rfl, trivial, rfl, trivial, ⟨rfl, rfl, rfl⟩,
      trivial, ⟨rfl, rfl, rfl⟩, trivial⟩
  have h := no_packet_lost twoPackets (DtTree.zero maxDtNodes) (noEntry Bool) (fun _ => rfl)
    interleavedTurns hes (by decide)
  exact ⟨hes, h.2⟩

/-- Both CPUs miss, both insert, and each goes on with what it finds. -/
def racingTurns : List (Bool × Bool) :=
  [false, true, false, true, false, true, false, true, false, true].map fun i => (i, false)

/-- **Two racing insertions** leave one packet and its bytes in the table. -/
theorem racing_inserts :
    (∀ i, (turns twoPackets (DtTree.zero maxDtNodes) (noEntry Bool) racingTurns).pc i = .done) ∧
      (noEntry Bool).totalPkts = 0 ∧ (noEntry Bool).totalBytes = 0 ∧
      (turns twoPackets (DtTree.zero maxDtNodes) (noEntry Bool) racingTurns).totalPkts = 1 ∧
      (turns twoPackets (DtTree.zero maxDtNodes) (noEntry Bool) racingTurns).totalBytes = 60 := by
  decide

end XdpDetector

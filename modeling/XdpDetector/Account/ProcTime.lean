import XdpDetector.Account.Agree
import Mathlib.Data.List.Pairwise

/-!
# Processing time

`proc_time` is meant to add up, over the accepted packets, the clock at the end of the processing
minus the clock at the entry. The entry reading would be `time_in` of the accounting record, which
nothing ever writes: the record adds up the clock itself.

* `Call`, `Call.readings`, `busy`, `elapsed`: runs with the clock at the entry of each call;
* `busy_le_elapsed`: under a non-decreasing clock the packets take at most the time of the run;
* `outSum`, `procTime_run`: what the record holds;
* **`procTime_iff_zero_clock`**: when that is the processing time.
-/

namespace XdpDetector

/-- An event and the clock when it begins. -/
structure Call where
  clockIn : UInt64
  event : Event

def events (cs : List Call) : List Event := cs.map Call.event

namespace Call

/-- The clock at the entry and, for an accepted packet, in `update_stats` and at the end. -/
def readings (c : Call) : List ℕ :=
  c.clockIn.toNat :: c.event.call?.elim [] fun x => [x.tsNs.toNat, x.timeOut.toNat]

def busy (c : Call) : ℕ := c.event.call?.elim 0 fun x => x.timeOut.toNat - c.clockIn.toNat

end Call

def readings (cs : List Call) : List ℕ := cs.flatMap Call.readings

def ClockMonotone (cs : List Call) : Prop := (readings cs).Pairwise (· ≤ ·)

/-- **The processing time of a run.** -/
def busy (cs : List Call) : ℕ := (cs.map Call.busy).sum

/-- The time between the first and the last reading of the clock. -/
def elapsed (cs : List Call) : ℕ := (readings cs).getLastD 0 - (readings cs).headD 0

theorem readings_append (cs cs' : List Call) :
    readings (cs ++ cs') = readings cs ++ readings cs' := List.flatMap_append

theorem ClockMonotone.of_prefix {cs cs' : List Call} (hm : ClockMonotone cs) (hp : cs' <+: cs) :
    ClockMonotone cs' := by
  obtain ⟨rest, rfl⟩ := hp
  rw [ClockMonotone, readings_append] at hm
  exact (List.pairwise_append.mp hm).1

theorem Call.readings_of_some {c : Call} {x : Input} (hx : c.event.call? = some x) :
    c.readings = [c.clockIn.toNat, x.tsNs.toNat, x.timeOut.toNat] := by
  rw [Call.readings, hx, Option.elim_some]

theorem clockIn_le_timeOut {cs : List Call} (hm : ClockMonotone cs) {c : Call} (hc : c ∈ cs)
    {x : Input} (hx : c.event.call? = some x) : c.clockIn.toNat ≤ x.timeOut.toNat := by
  obtain ⟨before, after, rfl⟩ := List.append_of_mem hc
  rw [ClockMonotone, readings_append] at hm
  have hm' := (List.pairwise_append.mp hm).2.1
  rw [show readings (c :: after) = c.readings ++ readings after from List.flatMap_cons,
    Call.readings_of_some hx] at hm'
  exact List.rel_of_pairwise_cons hm' (by simp)

/-! ## Busy and elapsed time -/

theorem busy_add_le {cs : List Call} (hm : ClockMonotone cs) {lo hi : ℕ} (hle : lo ≤ hi)
    (hlo : ∀ r ∈ readings cs, lo ≤ r) (hhi : ∀ r ∈ readings cs, r ≤ hi) : busy cs + lo ≤ hi := by
  induction cs generalizing lo with
  | nil => simpa [busy] using hle
  | cons c cs ih =>
    have hr : readings (c :: cs) = c.readings ++ readings cs := List.flatMap_cons
    have hb : busy (c :: cs) = c.busy + busy cs := List.sum_cons
    rw [ClockMonotone, hr, List.pairwise_append] at hm
    obtain ⟨hc, hcs, hcross⟩ := hm
    simp only [hr, List.mem_append] at hlo hhi
    have hrest : ∀ r ∈ readings cs, r ≤ hi := fun r h => hhi r (Or.inr h)
    cases hx : c.event.call? with
    | none =>
      have hzero : c.busy = 0 := by rw [Call.busy, hx, Option.elim_none]
      have := ih hcs hle (fun r h => hlo r (Or.inr h)) hrest
      omega
    | some x =>
      have hbusy : c.busy = x.timeOut.toNat - c.clockIn.toNat := by
        rw [Call.busy, hx, Option.elim_some]
      rw [Call.readings_of_some hx] at hc hcross hlo hhi
      have hin := hlo c.clockIn.toNat (Or.inl (by simp))
      have hout := hhi x.timeOut.toNat (Or.inl (by simp))
      have hio := List.rel_of_pairwise_cons hc (show x.timeOut.toNat ∈ _ by simp)
      have := ih hcs hout (fun r h => hcross _ (by simp) r h) hrest
      omega

/-- **The packets take at most the time of the run.** -/
theorem busy_le_elapsed {cs : List Call} (hm : ClockMonotone cs) : busy cs ≤ elapsed cs := by
  by_cases hne : readings cs = []
  · have hcs : cs = [] := by
      cases cs with
      | nil => rfl
      | cons c cs => cases hne
    rw [hcs]
    exact Nat.le_refl 0
  · have hlo : ∀ r ∈ readings cs, (readings cs).head hne ≤ r := fun r h =>
      List.Pairwise.rel_head hm h
    have hhi : ∀ r ∈ readings cs, r ≤ (readings cs).getLast hne := fun r h =>
      List.Pairwise.rel_getLast hm h
    have h := busy_add_le hm (hlo _ (List.getLast_mem hne)) hlo hhi
    rw [elapsed, List.headD_eq_head?_getD, List.head?_eq_some_head hne, Option.getD_some,
      List.getLastD_eq_getLast?, List.getLast?_eq_some_getLast hne, Option.getD_some]
    omega

/-! ## What the record holds -/

/-- The clock at the end of the accepted packets, added up. -/
def outSum (es : List Event) : ℕ := ((accepted es).map fun x => x.timeOut.toNat).sum

theorem outSum_snoc (es : List Event) (e : Event) :
    outSum (es ++ [e]) = outSum es + e.call?.elim 0 fun x => x.timeOut.toNat := by
  rw [outSum, outSum, accepted_snoc]
  cases e.call? <;> simp

/-- **The record adds up the clock itself**: its `time_in` stays `0`. -/
theorem procTime_run (tree : DtTree maxDtNodes) (es : List Event) :
    (run (start tree Accounting.zero) es).accounting.timeIn = 0 ∧
      (run (start tree Accounting.zero) es).accounting.procTime.toNat = outSum es % 2 ^ 64 := by
  refine Run.run_induction step
    (P := fun es s => s.accounting.timeIn = 0 ∧ s.accounting.procTime.toNat = outSum es % 2 ^ 64)
    ⟨rfl, rfl⟩ ?_ es
  rintro es e ⟨hin, hproc⟩
  rw [accounting_step, outSum_snoc]
  cases e.call? with
  | none => exact ⟨hin, hproc⟩
  | some x =>
    refine ⟨hin, ?_⟩
    show (_ + (x.timeOut - Accounting.timeIn _)).toNat = _
    rw [hin, UInt64.sub_zero, UInt64.toNat_add, hproc]
    exact Nat.mod_add_mod _ _ _

/-! ## When that is the processing time -/

/-- **`proc_time` is the processing time**, and so at most the time of the run. -/
def ProcTimeExact (cs : List Call) (s : Maps) : Prop :=
  s.accounting.procTime.toNat = busy cs % 2 ^ 64 ∧ s.accounting.procTime.toNat ≤ elapsed cs

theorem busy_snoc (cs : List Call) (c : Call) : busy (cs ++ [c]) = busy cs + c.busy := by
  simp [busy]

theorem events_snoc (cs : List Call) (c : Call) : events (cs ++ [c]) = events cs ++ [c.event] := by
  simp [events]

theorem busy_eq_outSum {cs : List Call}
    (h : ∀ c ∈ cs, c.event.call?.isSome → c.clockIn = 0) : busy cs = outSum (events cs) := by
  induction cs using List.reverseRecOn with
  | nil => rfl
  | append_singleton cs c ih =>
    have hc : c.busy = c.event.call?.elim 0 fun x => x.timeOut.toNat := by
      cases hx : c.event.call? with
      | none => rw [Call.busy, hx]; rfl
      | some x =>
        have hz := h c (by simp) (by rw [hx]; rfl)
        rw [Call.busy, hx, hz]
        rfl
    rw [busy_snoc, events_snoc, outSum_snoc, hc, ih fun c' h' => h c' (by simp [h'])]

/-- **`proc_time` is the processing time only on a clock that stands at `0`**: in the runs all of
whose accepted packets enter at clock value `0`. -/
theorem procTime_iff_zero_clock (tree : DtTree maxDtNodes) (cs : List Call)
    (hm : ClockMonotone cs) :
    (∀ cs', cs' <+: cs → ProcTimeExact cs' (run (start tree Accounting.zero) (events cs'))) ↔
      ∀ c ∈ cs, c.event.call?.isSome → c.clockIn = 0 := by
  constructor
  · intro h c hc hx
    obtain ⟨x, hx⟩ := Option.isSome_iff_exists.mp hx
    obtain ⟨before, after, rfl⟩ := List.append_of_mem hc
    have hp₀ : before <+: before ++ c :: after := List.prefix_append _ _
    have hp₁ : before ++ [c] <+: before ++ c :: after := ⟨after, by simp⟩
    have h₀ := (h _ hp₀).1.symm.trans (procTime_run tree _).2
    have h₁ := (h _ hp₁).1.symm.trans (procTime_run tree _).2
    have hle := clockIn_le_timeOut hm hc hx
    have hlt := c.clockIn.toNat_lt
    rw [busy_snoc, events_snoc, outSum_snoc, Call.busy, hx, Option.elim_some,
      Option.elim_some] at h₁
    exact UInt64.toNat_inj.mp (show c.clockIn.toNat = 0 by omega)
  · intro h cs' hp
    have hb : busy cs' = outSum (events cs') := busy_eq_outSum fun c hc => h c (hp.subset hc)
    have hle := busy_le_elapsed (hm.of_prefix hp)
    rw [ProcTimeExact, (procTime_run tree _).2, hb]
    exact ⟨rfl, (Nat.mod_le _ _).trans (by rw [← hb]; exact hle)⟩

def firstCall : Call := ⟨0, .packet ⟨udpFrame 1 emptyPayload, 500, 1000⟩⟩

theorem procTime_firstCall :
    ProcTimeExact [firstCall] (run zeroMaps (events [firstCall])) := by
  refine (procTime_iff_zero_clock (DtTree.zero maxDtNodes) [firstCall] ?_).mpr ?_ _ List.prefix_rfl
  · show List.Pairwise (· ≤ ·) [0, 500, 1000]
    decide
  · intro c hc _
    rw [List.mem_singleton.mp hc]
    rfl

/-- A packet that enters at 1000 ns and leaves at 2000 ns. -/
def timedCall : Call := ⟨1000, .packet ⟨udpFrame 1 emptyPayload, 1500, 2000⟩⟩

/-- After one packet of 1000 ns `proc_time` stands at 2000 ns. -/
theorem procTime_timedCall :
    ClockMonotone [timedCall] ∧
      ¬ ProcTimeExact [timedCall] (run zeroMaps (events [timedCall])) := by
  constructor
  · show List.Pairwise (· ≤ ·) [1000, 1500, 2000]
    decide
  · intro h
    have hb := h.1.symm.trans (procTime_run (DtTree.zero maxDtNodes) (events [timedCall])).2
    revert hb
    decide

end XdpDetector

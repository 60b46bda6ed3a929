import XdpDetector.Kern.Detector
import XdpDetector.Lib.Rmw
import Mathlib.Data.Fintype.Card

/-!
# Several CPUs on the accounting record

The end of `xdp_anomaly_detector` as the loads and stores it makes to the accounting record, run by
any number of CPUs. Unlike the counters of a flow, the three sums of the record are updated by plain
loads and stores, and a store may overwrite what another CPU has added in between. The closing
`bpf_map_update_elem` is given the slot's own address: the array map copies the record onto itself,
each field by a load and a later store, which may overwrite once more. The copy may take the fields
in any order; a field is loaded and stored whole.

* `AcPc`, `CopyState`, `AcShared`, `acTurn`, `acTurns`: the loads and stores, and the CPUs;
* `acTurns_solo`: a CPU that is not interrupted does what the sequential model says;
* `pktsCell`, `bytesCell`, `procCell`: each sum as a cell with plain read-modify-write;
* **`accounting_never_overcounts`**: each sum holds the shares of some of the CPUs, each once;
* **`accounting_exact_iff`**: when the packet counter holds all of them, all the time.
-/

namespace XdpDetector

/-- What a CPU adds for its packet: `time_out` and `pkt_len`. -/
structure AcCall where
  timeOut : UInt64
  pktLen : UInt64

/-- How far the copy of a field onto itself has come. -/
inductive Copy (M : Type)
  | ahead
  | loaded (v : M)
  | stored
deriving DecidableEq

namespace Copy

variable {M : Type}

/-- The copy after its next load or store, where `field` is in memory. -/
def next (field : M) : Copy M → Copy M
  | ahead => loaded field
  | loaded _ | stored => stored

/-- The field after it. -/
def out (field : M) : Copy M → M
  | loaded v => v
  | ahead | stored => field

/-- The phase of a CPU that has made its addition. -/
def phase : Copy M → Rmw.Phase M
  | ahead => .added
  | loaded v => .copying v
  | stored => .done

end Copy

/-- The copy of the record. -/
structure CopyState where
  timeIn : Copy UInt64
  procTime : Copy UInt64
  totalPkts : Copy UInt32
  totalBytes : Copy UInt32
deriving DecidableEq

def CopyState.ahead : CopyState := ⟨.ahead, .ahead, .ahead, .ahead⟩

def CopyState.stored : CopyState := ⟨.stored, .stored, .stored, .stored⟩

/-- The load or store that comes next, with the value loaded; `update` is the call of
`bpf_map_update_elem`. -/
inductive AcPc
  | readProc
  | writeProc (procTime : UInt64)
  | readBytes
  | writeBytes (totalBytes : UInt32)
  | readPkts
  | writePkts (totalPkts : UInt32)
  | update (copy : CopyState)
deriving DecidableEq

/-- A field of the record. -/
inductive AcField
  | timeIn
  | procTime
  | totalPkts
  | totalBytes
deriving DecidableEq

/-- **The accounting record and the CPUs.** -/
structure AcShared (ι : Type) where
  ac : Accounting
  pc : ι → AcPc

section Turn

variable {ι : Type} [DecidableEq ι]

def AcShared.goto (s : AcShared ι) (i : ι) (pc : AcPc) : AcShared ι :=
  { s with pc := Function.update s.pc i pc }

/-- The next load or store of CPU `i` in the copy, for one of the fields. -/
def copyTurn (s : AcShared ι) (i : ι) (copy : CopyState) : AcField → AcShared ι
  | .timeIn =>
    { s with ac := { s.ac with timeIn := copy.timeIn.out s.ac.timeIn } }.goto i
      (.update { copy with timeIn := copy.timeIn.next s.ac.timeIn })
  | .procTime =>
    { s with ac := { s.ac with procTime := copy.procTime.out s.ac.procTime } }.goto i
      (.update { copy with procTime := copy.procTime.next s.ac.procTime })
  | .totalPkts =>
    { s with ac := { s.ac with totalPkts := copy.totalPkts.out s.ac.totalPkts } }.goto i
      (.update { copy with totalPkts := copy.totalPkts.next s.ac.totalPkts })
  | .totalBytes =>
    { s with ac := { s.ac with totalBytes := copy.totalBytes.out s.ac.totalBytes } }.goto i
      (.update { copy with totalBytes := copy.totalBytes.next s.ac.totalBytes })

variable (x : ι → AcCall)

/-- One turn of CPU `e.1`; the field `e.2` is the one its copy goes on with. `time_in` is read in the
turn that stores `proc_time`: the copies write it with the value it has (`timeKept_acTurn`). -/
def acTurn (s : AcShared ι) (e : ι × AcField) : AcShared ι :=
  match s.pc e.1 with
  | .readProc => s.goto e.1 (.writeProc s.ac.procTime)
  | .writeProc procTime =>
    { s with ac := { s.ac with procTime := procTime + ((x e.1).timeOut - s.ac.timeIn) } }.goto e.1
      .readBytes
  | .readBytes => s.goto e.1 (.writeBytes s.ac.totalBytes)
  | .writeBytes totalBytes =>
    { s with ac := { s.ac with totalBytes := totalBytes + (x e.1).pktLen.toUInt32 } }.goto e.1
      .readPkts
  | .readPkts => s.goto e.1 (.writePkts s.ac.totalPkts)
  | .writePkts totalPkts =>
    { s with ac := { s.ac with totalPkts := totalPkts + 1 } }.goto e.1 (.update .ahead)
  | .update copy => copyTurn s e.1 copy e.2

/-- Every CPU before its first load. -/
def acStart (ac : Accounting) : AcShared ι := ⟨ac, fun _ => .readProc⟩

def acTurns (ac : Accounting) (es : List (ι × AcField)) : AcShared ι :=
  Run.run (acTurn x) (acStart ac) es

/-- The turns of a CPU that is not interrupted. -/
def acSoloTurns (i : ι) : List (ι × AcField) :=
  List.replicate 6 (i, .timeIn) ++
    [.timeIn, .timeIn, .procTime, .procTime, .totalPkts, .totalPkts, .totalBytes, .totalBytes].map
      (Prod.mk i)

/-- **An uninterrupted CPU** accounts its packet as the sequential model does. -/
theorem acTurns_solo (s : AcShared ι) {i : ι} (hi : s.pc i = .readProc) :
    Run.run (acTurn x) s (acSoloTurns i) =
      ⟨account s.ac (x i).timeOut (x i).pktLen, Function.update s.pc i (.update .stored)⟩ := by
  simp [Run.run, acSoloTurns, List.replicate, acTurn, hi, AcShared.goto, account, copyTurn,
    CopyState.ahead, CopyState.stored, Copy.next, Copy.out]

/-! ## The three sums -/

def procPhase : AcPc → Rmw.Phase UInt64
  | .readProc => .idle
  | .writeProc v => .loaded v
  | .update copy => copy.procTime.phase
  | _ => .added

def bytesPhase : AcPc → Rmw.Phase UInt32
  | .readProc | .writeProc _ | .readBytes => .idle
  | .writeBytes v => .loaded v
  | .update copy => copy.totalBytes.phase
  | _ => .added

def pktsPhase : AcPc → Rmw.Phase UInt32
  | .writePkts v => .loaded v
  | .update copy => copy.totalPkts.phase
  | _ => .idle

/-- One field of the record as a cell. -/
def cellOf {M : Type} (get : Accounting → M) (phase : AcPc → Rmw.Phase M) (s : AcShared ι) :
    Rmw.Cell ι M :=
  ⟨get s.ac, fun i => phase (s.pc i)⟩

def procCell (s : AcShared ι) : Rmw.Cell ι UInt64 := cellOf Accounting.procTime procPhase s

def bytesCell (s : AcShared ι) : Rmw.Cell ι UInt32 := cellOf Accounting.totalBytes bytesPhase s

def pktsCell (s : AcShared ι) : Rmw.Cell ι UInt32 := cellOf Accounting.totalPkts pktsPhase s

/-- The turn, if it is a load or store of the field. -/
def actOf (touches : AcField → AcPc → Bool) (s : AcShared ι) (e : ι × AcField) : Option ι :=
  if touches e.2 (s.pc e.1) then some e.1 else none

def touchesProc (field : AcField) : AcPc → Bool
  | .readProc | .writeProc _ => true
  | .update _ => field = .procTime
  | _ => false

def touchesBytes (field : AcField) : AcPc → Bool
  | .readBytes | .writeBytes _ => true
  | .update _ => field = .totalBytes
  | _ => false

def touchesPkts (field : AcField) : AcPc → Bool
  | .readPkts | .writePkts _ => true
  | .update _ => field = .totalPkts
  | _ => false

section Field

variable {M : Type} {get : Accounting → M} {phase : AcPc → Rmw.Phase M} {f : ι → M → M}
  {s : AcShared ι} {ac : Accounting} {i : ι} {pc : AcPc}

theorem cellOf_goto :
    cellOf get phase ({ s with ac := ac }.goto i pc) =
      ⟨get ac, Function.update (cellOf get phase s).phase i (phase pc)⟩ := by
  refine congrArg (Rmw.Cell.mk _) (funext fun j => ?_)
  exact Function.apply_update (fun _ => phase) s.pc i pc j

/-- A load of the field. -/
theorem cellOf_load (hi : phase (s.pc i) = .idle) (hpc : phase pc = .loaded (get s.ac)) :
    cellOf get phase (s.goto i pc) = Rmw.step f (cellOf get phase s) i := by
  rw [Rmw.step_of_idle hi]
  exact cellOf_goto.trans (by rw [hpc]; rfl)

/-- A store to it. -/
theorem cellOf_store {v : M} (hi : phase (s.pc i) = .loaded v) (hpc : phase pc = .added)
    (hac : get ac = f i v) :
    cellOf get phase ({ s with ac := ac }.goto i pc) = Rmw.step f (cellOf get phase s) i := by
  rw [Rmw.step_of_loaded hi, cellOf_goto, hpc, hac]

/-- A load or store of it in the copy. -/
theorem cellOf_copy {c : Copy M} (hi : phase (s.pc i) = c.phase)
    (hpc : phase pc = (c.next (get s.ac)).phase) (hac : get ac = c.out (get s.ac)) :
    cellOf get phase ({ s with ac := ac }.goto i pc) = Rmw.step f (cellOf get phase s) i := by
  rw [cellOf_goto, hpc, hac]
  cases c with
  | ahead =>
    rw [Rmw.step_of_added hi]
    rfl
  | loaded v =>
    rw [Rmw.step_of_copying hi]
    rfl
  | stored =>
    rw [Rmw.step_of_done hi]
    exact congrArg (Rmw.Cell.mk _) ((congrArg _ hi.symm).trans (Function.update_eq_self i _))

/-- Anything else. -/
theorem cellOf_other (hi : phase pc = phase (s.pc i)) (hac : get ac = get s.ac) :
    cellOf get phase ({ s with ac := ac }.goto i pc) = cellOf get phase s := by
  rw [cellOf_goto, hi, hac]
  exact congrArg (Rmw.Cell.mk _) (Function.update_eq_self i _)

end Field

/-- `time_in` is `t`, in the record and in every copy under way. -/
def TimeKept (t : UInt64) (s : AcShared ι) : Prop :=
  s.ac.timeIn = t ∧ ∀ i copy v, s.pc i = .update copy → copy.timeIn = .loaded v → v = t

theorem timeKept_goto {t : UInt64} {s : AcShared ι} (h : TimeKept t s) {ac : Accounting} {i : ι}
    {pc : AcPc} (hac : ac.timeIn = t)
    (hpc : ∀ copy v, pc = .update copy → copy.timeIn = .loaded v → v = t) :
    TimeKept t ({ s with ac := ac }.goto i pc) := by
  refine ⟨hac, fun j copy v hj hv => ?_⟩
  by_cases hij : j = i
  · subst hij
    exact hpc copy v ((Function.update_self ..).symm.trans hj) hv
  · exact h.2 j copy v ((Function.update_of_ne hij ..).symm.trans hj) hv

/-- **`time_in` never changes**: the copy puts back what is there. -/
theorem timeKept_acTurn {t : UInt64} (s : AcShared ι) (e : ι × AcField) (h : TimeKept t s) :
    TimeKept t (acTurn x s e) := by
  unfold acTurn
  split <;> rename_i hpc
  · exact timeKept_goto h h.1 (by simp)
  · exact timeKept_goto h h.1 (by simp)
  · exact timeKept_goto h h.1 (by simp)
  · exact timeKept_goto h h.1 (by simp)
  · exact timeKept_goto h h.1 (by simp)
  · refine timeKept_goto h h.1 fun copy v hcopy hv => ?_
    cases hcopy
    cases hv
  · rename_i copy
    have hkeep : ∀ v, copy.timeIn = .loaded v → v = t := fun v => h.2 e.1 copy v hpc
    cases he : e.2 with
    | timeIn =>
      refine timeKept_goto h ?_ fun copy' v hcopy hv => ?_
      · show copy.timeIn.out s.ac.timeIn = t
        cases hc : copy.timeIn with
        | loaded v => exact hkeep v hc
        | ahead => exact h.1
        | stored => exact h.1
      · cases hcopy
        cases hc : copy.timeIn with
        | ahead =>
          simp only [hc, Copy.next, Copy.loaded.injEq] at hv
          exact hv ▸ h.1
        | loaded v' => simp [hc, Copy.next] at hv
        | stored => simp [hc, Copy.next] at hv
    | procTime => exact timeKept_goto h h.1 fun copy' v hcopy hv => by cases hcopy; exact hkeep v hv
    | totalPkts =>
      exact timeKept_goto h h.1 fun copy' v hcopy hv => by cases hcopy; exact hkeep v hv
    | totalBytes =>
      exact timeKept_goto h h.1 fun copy' v hcopy hv => by cases hcopy; exact hkeep v hv

/-- **The processing time** as a cell. -/
theorem procCell_acTurn {t : UInt64} (s : AcShared ι) (e : ι × AcField) (ht : s.ac.timeIn = t) :
    procCell (acTurn x s e) = (actOf touchesProc s e).elim (procCell s)
      (Rmw.step (fun i v => v + ((x i).timeOut - t)) (procCell s)) := by
  unfold acTurn actOf procCell
  split <;> rename_i hi <;> rw [hi]
  · simp only [touchesProc, if_true, Option.elim_some]
    exact cellOf_load (by rw [hi]; rfl) rfl
  · simp only [touchesProc, if_true, Option.elim_some]
    exact cellOf_store (by rw [hi]; rfl) rfl (by rw [ht])
  · exact cellOf_other (by rw [hi]; rfl) rfl
  · exact cellOf_other (by rw [hi]; rfl) rfl
  · exact cellOf_other (by rw [hi]; rfl) rfl
  · exact cellOf_other (by rw [hi]; rfl) rfl
  · rename_i copy
    cases e.2 with
    | procTime =>
      simp only [touchesProc, decide_true, if_true, Option.elim_some]
      exact cellOf_copy (c := copy.procTime) (by rw [hi]; rfl) rfl rfl
    | timeIn => exact cellOf_other (by rw [hi]; rfl) rfl
    | totalPkts => exact cellOf_other (by rw [hi]; rfl) rfl
    | totalBytes => exact cellOf_other (by rw [hi]; rfl) rfl

/-- **The bytes** as a cell. -/
theorem bytesCell_acTurn (s : AcShared ι) (e : ι × AcField) :
    bytesCell (acTurn x s e) = (actOf touchesBytes s e).elim (bytesCell s)
      (Rmw.step (fun i v => v + (x i).pktLen.toUInt32) (bytesCell s)) := by
  unfold acTurn actOf bytesCell
  split <;> rename_i hi <;> rw [hi]
  · exact cellOf_other (by rw [hi]; rfl) rfl
  · exact cellOf_other (by rw [hi]; rfl) rfl
  · simp only [touchesBytes, if_true, Option.elim_some]
    exact cellOf_load (by rw [hi]; rfl) rfl
  · simp only [touchesBytes, if_true, Option.elim_some]
    exact cellOf_store (by rw [hi]; rfl) rfl rfl
  · exact cellOf_other (by rw [hi]; rfl) rfl
  · exact cellOf_other (by rw [hi]; rfl) rfl
  · rename_i copy
    cases e.2 with
    | totalBytes =>
      simp only [touchesBytes, decide_true, if_true, Option.elim_some]
      exact cellOf_copy (c := copy.totalBytes) (by rw [hi]; rfl) rfl rfl
    | timeIn => exact cellOf_other (by rw [hi]; rfl) rfl
    | procTime => exact cellOf_other (by rw [hi]; rfl) rfl
    | totalPkts => exact cellOf_other (by rw [hi]; rfl) rfl

/-- **The packets** as a cell. -/
theorem pktsCell_acTurn (s : AcShared ι) (e : ι × AcField) :
    pktsCell (acTurn x s e) = (actOf touchesPkts s e).elim (pktsCell s)
      (Rmw.step (fun _ v => v + 1) (pktsCell s)) := by
  unfold acTurn actOf pktsCell
  split <;> rename_i hi <;> rw [hi]
  · exact cellOf_other (by rw [hi]; rfl) rfl
  · exact cellOf_other (by rw [hi]; rfl) rfl
  · exact cellOf_other (by rw [hi]; rfl) rfl
  · exact cellOf_other (by rw [hi]; rfl) rfl
  · simp only [touchesPkts, if_true, Option.elim_some]
    exact cellOf_load (by rw [hi]; rfl) rfl
  · simp only [touchesPkts, if_true, Option.elim_some]
    exact cellOf_store (by rw [hi]; rfl) rfl rfl
  · rename_i copy
    cases e.2 with
    | totalPkts =>
      simp only [touchesPkts, decide_true, if_true, Option.elim_some]
      exact cellOf_copy (c := copy.totalPkts) (by rw [hi]; rfl) rfl rfl
    | timeIn => exact cellOf_other (by rw [hi]; rfl) rfl
    | procTime => exact cellOf_other (by rw [hi]; rfl) rfl
    | totalBytes => exact cellOf_other (by rw [hi]; rfl) rfl

/-! ## Whole schedules -/

variable (ac : Accounting) (es : List (ι × AcField))

theorem procCell_acTurns :
    ∃ js, procCell (acTurns x ac es) =
      Rmw.run (fun i v => v + ((x i).timeOut - ac.timeIn)) ac.procTime js :=
  ⟨_, Run.proj_run (I := TimeKept ac.timeIn) (acTurn x) (fun s e h => timeKept_acTurn x s e h)
    (fun s e h => procCell_acTurn x s e h.1) ⟨rfl, fun _ _ _ h => by cases h⟩ es⟩

theorem bytesCell_acTurns :
    ∃ js, bytesCell (acTurns x ac es) =
      Rmw.run (fun i v => v + (x i).pktLen.toUInt32) ac.totalBytes js :=
  ⟨_, Run.proj_run (I := fun _ => True) (acTurn x) (fun _ _ _ => trivial)
    (fun s e _ => bytesCell_acTurn x s e) trivial es⟩

theorem pktsCell_acTurns :
    pktsCell (acTurns x ac es) = Rmw.run (fun _ v => v + 1) ac.totalPkts
      (Run.actions (acTurn x) (actOf touchesPkts) (acStart ac) es) :=
  Run.proj_run (I := fun _ => True) (acTurn x) (fun _ _ _ => trivial)
    (fun s e _ => pktsCell_acTurn x s e) trivial es

end Turn

/-! ## The shares in a sum -/

section Shares

variable {ι : Type}

/-- The CPUs in `l` are distinct and have added to the field; once a CPU has, there is one. -/
structure Contributors {M : Type} (phase : AcPc → Rmw.Phase M) (s : AcShared ι) (l : List ι) :
    Prop where
  nodup : l.Nodup
  added : ∀ i ∈ l, (phase (s.pc i)).hasAdded = true
  nonempty : ∀ i, (phase (s.pc i)).hasAdded = true → l ≠ []

theorem applied_add_toNat64 {g : ι → UInt64} (v : UInt64) (l : List ι) :
    (Rmw.applied (fun i v => v + g i) v l).toNat =
      (v.toNat + (l.map fun i => (g i).toNat).sum) % 2 ^ 64 := by
  induction l generalizing v with
  | nil => simp [Rmw.applied]
  | cons i l ih =>
    show (Rmw.applied _ (v + g i) l).toNat = _
    rw [ih, UInt64.toNat_add, List.map_cons, List.sum_cons, Nat.mod_add_mod, Nat.add_assoc]

theorem applied_add_toNat32 {g : ι → UInt32} {n : ι → ℕ} (hg : ∀ i, (g i).toNat = n i % 2 ^ 32)
    (v : UInt32) (l : List ι) :
    (Rmw.applied (fun i v => v + g i) v l).toNat = (v.toNat + (l.map n).sum) % 2 ^ 32 := by
  induction l generalizing v with
  | nil => simp [Rmw.applied]
  | cons i l ih =>
    show (Rmw.applied _ (v + g i) l).toNat = _
    rw [ih, UInt32.toNat_add, hg, List.map_cons, List.sum_cons]
    omega

theorem applied_one_toNat (v : UInt32) (l : List ι) :
    (Rmw.applied (fun _ v => v + 1) v l).toNat = (v.toNat + l.length) % 2 ^ 32 := by
  rw [applied_add_toNat32 (n := fun _ => 1) (fun _ => rfl)]
  simp

variable [DecidableEq ι]

/-- **A field that behaves as a cell** holds the updates of CPUs that have made theirs. -/
theorem contributors_of_cell {M : Type} {get : Accounting → M} {phase : AcPc → Rmw.Phase M}
    {s : AcShared ι} {f : ι → M → M} {v : M} {js : List ι}
    (h : cellOf get phase s = Rmw.run f v js) :
    Contributors phase s (Rmw.traced js).value ∧
      get s.ac = Rmw.applied f v (Rmw.traced js).value := by
  rw [Rmw.run_eq_map] at h
  have hsane := Rmw.sane_traced js
  have hadded : ∀ i, (phase (s.pc i)).hasAdded = ((Rmw.traced js).phase i).hasAdded := by
    intro i
    have hi : phase (s.pc i) = ((Rmw.traced js).phase i).map (Rmw.applied f v) :=
      congrArg (fun c => c.phase i) h
    rw [hi, Rmw.Phase.hasAdded_map]
  refine ⟨⟨hsane.value.1, fun i hi => ?_, fun i hi => ?_⟩, congrArg Rmw.Cell.value h⟩
  · rw [hadded]
    exact hsane.value.2 i hi
  · rw [hadded] at hi
    exact hsane.nonempty i hi

/-- **The sums never count a CPU twice**: after any schedule each of them is what it was before plus
the shares of distinct CPUs that have made their addition, as machine numbers. -/
theorem accounting_never_overcounts (x : ι → AcCall) (ac : Accounting)
    (es : List (ι × AcField)) :
    (∃ l, Contributors procPhase (acTurns x ac es) l ∧
      (acTurns x ac es).ac.procTime.toNat =
        (ac.procTime.toNat + (l.map fun i => ((x i).timeOut - ac.timeIn).toNat).sum) % 2 ^ 64) ∧
      (∃ l, Contributors bytesPhase (acTurns x ac es) l ∧
        (acTurns x ac es).ac.totalBytes.toNat =
          (ac.totalBytes.toNat + (l.map fun i => (x i).pktLen.toNat).sum) % 2 ^ 32) ∧
      ∃ l, Contributors pktsPhase (acTurns x ac es) l ∧
        (acTurns x ac es).ac.totalPkts.toNat = (ac.totalPkts.toNat + l.length) % 2 ^ 32 := by
  refine ⟨?_, ?_, ?_⟩
  · obtain ⟨js, hjs⟩ := procCell_acTurns x ac es
    obtain ⟨hc, heq⟩ := contributors_of_cell hjs
    exact ⟨_, hc, heq ▸ applied_add_toNat64 ..⟩
  · obtain ⟨js, hjs⟩ := bytesCell_acTurns x ac es
    obtain ⟨hc, heq⟩ := contributors_of_cell hjs
    exact ⟨_, hc, heq ▸ applied_add_toNat32 (fun i => by simp) ..⟩
  · obtain ⟨hc, heq⟩ := contributors_of_cell (pktsCell_acTurns x ac es)
    exact ⟨_, hc, heq ▸ applied_one_toNat ..⟩

/-! ## When nothing is lost -/

/-- The value of `total_pkts` that a CPU has loaded and stores in its next turn, increased by one or
as it is. -/
def AcPc.pktsHeld (field : AcField) : AcPc → Option UInt32
  | .writePkts v => some v
  | .update copy => if field = .totalPkts then copy.totalPkts.phase.held else none
  | _ => none

/-- A store of `total_pkts` in this turn would overwrite the value that was loaded. -/
def PktsUndisturbed (s : AcShared ι) (e : ι × AcField) : Prop :=
  ∀ v, (s.pc e.1).pktsHeld e.2 = some v → v = s.ac.totalPkts

omit [DecidableEq ι] in
theorem pktsUndisturbed_iff (s : AcShared ι) (e : ι × AcField) :
    (∀ j, actOf touchesPkts s e = some j → Rmw.Fresh (pktsCell s) j) ↔ PktsUndisturbed s e := by
  have hheld : (s.pc e.1).pktsHeld e.2 =
      if touchesPkts e.2 (s.pc e.1) then (pktsPhase (s.pc e.1)).held else none := by
    cases s.pc e.1 <;> first | rfl | simp [AcPc.pktsHeld, touchesPkts, pktsPhase]
  unfold PktsUndisturbed actOf
  rw [hheld]
  split_ifs with ht
  · simp only [Option.some.injEq, forall_eq']
    exact Iff.rfl
  · exact iff_of_true (fun j hj => by cases hj) (fun v hv => by cases hv)

section Exact

variable [Fintype ι]

/-- The CPUs that have added their packet. -/
def pktsAdded (s : AcShared ι) : Finset ι :=
  Finset.univ.filter fun i => (pktsPhase (s.pc i)).hasAdded

variable (hcard : Fintype.card ι < 2 ^ 32)

include hcard

omit [DecidableEq ι] in
/-- The counter tells how many of fewer than `2 ^ 32` CPUs are in it. -/
theorem add_length_inj {v m : ℕ} {l : List ι} (hl : l.Nodup) (hm : m ≤ Fintype.card ι) :
    (v + l.length) % 2 ^ 32 = (v + m) % 2 ^ 32 ↔ l.length = m := by
  have hle := hl.length_le_card
  omega

omit [DecidableEq ι] in
theorem applied_one_inj (v : UInt32) (l l' : List ι) (hl : l.Nodup) (hl' : l'.Nodup) :
    Rmw.applied (fun _ v => v + 1) v l = Rmw.applied (fun _ v => v + 1) v l' ↔
      l.length = l'.length := by
  rw [← UInt32.toNat_inj, applied_one_toNat, applied_one_toNat]
  exact add_length_inj hcard hl hl'.length_le_card

/-- The counter is exact where the cell is complete. -/
theorem exact_iff_complete (x : ι → AcCall) (ac : Accounting) (es : List (ι × AcField)) :
    (acTurns x ac es).ac.totalPkts.toNat =
        (ac.totalPkts.toNat + (pktsAdded (acTurns x ac es)).card) % 2 ^ 32 ↔
      Rmw.Complete
        (Rmw.traced (Run.actions (acTurn x) (actOf touchesPkts) (acStart ac) es)) := by
  have hcell := pktsCell_acTurns x ac es
  set js := Run.actions (acTurn x) (actOf touchesPkts) (acStart ac) es
  obtain ⟨hc, heq⟩ := contributors_of_cell hcell
  have hadded : ∀ i, i ∈ pktsAdded (acTurns x ac es) ↔
      ((Rmw.traced js).phase i).hasAdded = true := by
    intro i
    have hi : pktsPhase ((acTurns x ac es).pc i) =
        (Rmw.run (fun _ v => v + 1) ac.totalPkts js).phase i := congrArg (fun c => c.phase i) hcell
    simp [pktsAdded, hi, Rmw.run_eq_map, Rmw.Cell.map]
  have hsub : (Rmw.traced js).value.toFinset ⊆ pktsAdded (acTurns x ac es) := by
    intro i hi
    exact (hadded i).mpr ((Rmw.sane_traced js).value.2 i (List.mem_toFinset.mp hi))
  calc _ ↔ (Rmw.traced js).value.length = (pktsAdded (acTurns x ac es)).card := by
        rw [heq, applied_one_toNat]
        exact add_length_inj hcard hc.nodup (Finset.card_le_univ _)
    _ ↔ (Rmw.traced js).value.toFinset = pktsAdded (acTurns x ac es) := by
        rw [← List.toFinset_card_of_nodup hc.nodup]
        exact ⟨fun h => Finset.eq_of_subset_of_card_le hsub h.ge, congrArg Finset.card⟩
    _ ↔ Rmw.Complete (Rmw.traced js) := by
        rw [Finset.Subset.antisymm_iff, and_iff_right hsub]
        exact forall_congr' fun i => by rw [hadded, List.mem_toFinset]

/-- **The packet counter is exact at every moment** of a schedule exactly if every store of it, of
a sum or of a copy, overwrites the value that was loaded. -/
theorem accounting_exact_iff (x : ι → AcCall) (ac : Accounting) (es : List (ι × AcField)) :
    (∀ js, js <+: es → (acTurns x ac js).ac.totalPkts.toNat =
        (ac.totalPkts.toNat + (pktsAdded (acTurns x ac js)).card) % 2 ^ 32) ↔
      Run.Along (acTurn x) PktsUndisturbed (acStart ac) es := by
  simp only [exact_iff_complete hcard]
  calc _ ↔ ∀ js, js <+: Run.actions (acTurn x) (actOf touchesPkts) (acStart ac) es →
          Rmw.Complete (Rmw.traced js) :=
        Run.forall_prefix_actions (P := fun js => Rmw.Complete (Rmw.traced js)) (acTurn x) _ es
    _ ↔ Run.Along (Rmw.step fun _ v => v + 1) Rmw.Fresh (Rmw.fresh ac.totalPkts) _ :=
        Rmw.complete_iff_fresh (applied_one_inj hcard ac.totalPkts) _
    _ ↔ _ := by
        rw [← funext₂ fun s e => propext (pktsUndisturbed_iff s e)]
        exact Run.along_actions (I := fun _ => True) (P := Rmw.Fresh) (s := acStart ac) (acTurn x)
          (fun _ _ _ => trivial) (fun s e _ => pktsCell_acTurn x s e) trivial es

end Exact

end Shares

/-! ## Schedules -/

def twoCalls (i : Bool) : AcCall := ⟨if i then 2000 else 1000, 60⟩

/-- The second CPU starts while the first one is at its sums, and adds its packet once the first has
copied the counter. -/
def overlappingTurns : List (Bool × AcField) :=
  List.replicate 5 (false, .timeIn) ++ List.replicate 4 (true, .timeIn) ++
    [(false, .timeIn), (false, .totalPkts), (false, .totalPkts), (true, .timeIn), (false, .timeIn),
      (true, .timeIn), (false, .timeIn), (true, .totalPkts), (true, .totalPkts)]

theorem accounting_exact_overlapping :
    (acTurns twoCalls .zero overlappingTurns).ac.totalPkts.toNat = 2 ∧
      Run.Along (acTurn twoCalls) PktsUndisturbed (acStart .zero) overlappingTurns := by
  have hal : Run.Along (acTurn twoCalls) PktsUndisturbed (acStart .zero) overlappingTurns := by
    simp [overlappingTurns, Run.Along, PktsUndisturbed, List.replicate, acTurn, acStart,
      AcShared.goto, copyTurn, AcPc.pktsHeld, CopyState.ahead, Copy.next, Copy.out, Copy.phase,
      Rmw.Phase.held]
  refine ⟨?_, hal⟩
  exact ((accounting_exact_iff (by decide) twoCalls .zero overlappingTurns).mpr hal
    overlappingTurns (List.prefix_refl _)).trans (by decide)

/-- The copy of one CPU takes back what the other has added, although no sum was disturbed. -/
example : (acTurns twoCalls .zero
    (List.replicate 6 (false, .timeIn) ++ [(false, .totalPkts)] ++
      List.replicate 6 (true, .timeIn) ++ [(false, .totalPkts)])).ac.totalPkts = 1 := by
  decide

end XdpDetector

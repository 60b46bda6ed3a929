import XdpDetector.Kern.Detector

/-!
# Several CPUs on one flow

`update_stats` as the sequence of requests it makes to the flow table, run by any number of CPUs for
packets of one key. A lookup returns a handle to the element stored for the key; an update installs
a fresh element and leaves the old one to those who still hold a handle to it. Each lookup, update
and atomic addition is a turn of its own, and so are the plain stores between them.

* `Pc`: where a CPU stands in `update_stats`;
* `Shared`: the elements, the one stored, and the CPUs;
* `turn`: one turn of a CPU;
* **`entry_solo`**, `entry_serial`: CPUs that are not interrupted do what the sequential model says.
-/

namespace XdpDetector

/-- What a CPU knows of its packet: `ts_ns` and `pkt_len`. -/
structure Arrival where
  tsNs : UInt64
  pktLen : UInt64

/-- Where a CPU stands in `update_stats`: a constructor is named after the request or the stores
that come next, and holds the handle `dp` and the local `iat_ns` from where they are known. `stats`
are the stores to `min_IAT`, `max_pkt_len` and `min_pkt_len`, `classify` those from `last_seen` to
`label`; `refused` is the early return after a refused insertion. -/
inductive Pc
  | lookup
  | insert
  | relookup
  | readIat (dp : ℕ)
  | addPkts (dp : ℕ) (iat : UInt64)
  | addBytes (dp : ℕ) (iat : UInt64)
  | stats (dp : ℕ) (iat : UInt64)
  | classify (dp : ℕ)
  | writeBack (dp : ℕ)
  | done
  | refused
deriving DecidableEq

/-- `__sync_fetch_and_add(&dp->total_pkts, 1)`. -/
def DataPoint.addPkts (dp : DataPoint) : DataPoint := { dp with totalPkts := dp.totalPkts + 1 }

/-- `__sync_fetch_and_add(&dp->total_bytes, pkt_len)`. -/
def DataPoint.addBytes (dp : DataPoint) (pktLen : UInt64) : DataPoint :=
  { dp with totalBytes := dp.totalBytes + pktLen.toUInt32 }

/-- The conditional stores after the additions. -/
def DataPoint.recordStats (dp : DataPoint) (iat pktLen : UInt64) : DataPoint :=
  { dp with
    minIAT := if iat > 0 ∧ iat < dp.minIAT then iat else dp.minIAT
    maxPktLen := if pktLen > dp.maxPktLen.toUInt64 then pktLen.toUInt32 else dp.maxPktLen
    minPktLen := if pktLen < dp.minPktLen.toUInt64 then pktLen.toUInt32 else dp.minPktLen }

theorem countPacket_eq (dp : DataPoint) (tsNs pktLen : UInt64) :
    countPacket dp tsNs pktLen =
      (dp.addPkts.addBytes pktLen).recordStats (iatNs dp tsNs) pktLen := rfl

/-- **The flow table at one key, and the CPUs.** Elements are never reused: `next` is the next
handle. -/
structure Shared (ι : Type) where
  elem : ℕ → DataPoint
  next : ℕ
  stored : Option ℕ
  pc : ι → Pc

section Turn

variable {ι : Type}

namespace Shared

def entry (s : Shared ι) : Option DataPoint := s.stored.map s.elem

/-- A store through a handle. -/
def modify (s : Shared ι) (dp : ℕ) (f : DataPoint → DataPoint) : Shared ι :=
  { s with elem := Function.update s.elem dp (f (s.elem dp)) }

/-- An update with `BPF_ANY`. -/
def install (s : Shared ι) (value : DataPoint) : Shared ι :=
  { s with
    elem := Function.update s.elem s.next value
    next := s.next + 1
    stored := some s.next }

def goto [DecidableEq ι] (s : Shared ι) (i : ι) (pc : Pc) : Shared ι :=
  { s with pc := Function.update s.pc i pc }

end Shared

variable [DecidableEq ι] (pkt : ι → Arrival) (tree : DtTree maxDtNodes)

/-- One turn of CPU `e.1`; `e.2` says that the table refuses an update made in it. -/
def turn (s : Shared ι) (e : ι × Bool) : Shared ι :=
  let p := pkt e.1
  match s.pc e.1 with
  | .lookup => s.goto e.1 (s.stored.elim .insert .readIat)
  | .insert =>
    if e.2 then s.goto e.1 .refused
    else (s.install (newFlow p.tsNs p.pktLen)).goto e.1 .relookup
  | .relookup => s.goto e.1 (s.stored.elim .done .classify)
  | .readIat dp => s.goto e.1 (.addPkts dp (iatNs (s.elem dp) p.tsNs))
  | .addPkts dp iat => (s.modify dp DataPoint.addPkts).goto e.1 (.addBytes dp iat)
  | .addBytes dp iat => (s.modify dp fun d => d.addBytes p.pktLen).goto e.1 (.stats dp iat)
  | .stats dp iat => (s.modify dp fun d => d.recordStats iat p.pktLen).goto e.1 (.classify dp)
  | .classify dp => (s.modify dp fun d => classify d p.tsNs (some tree)).goto e.1 (.writeBack dp)
  | .writeBack dp => if e.2 then s.goto e.1 .done else (s.install (s.elem dp)).goto e.1 .done
  | .done => s
  | .refused => s

def turns (s : Shared ι) (es : List (ι × Bool)) : Shared ι := Run.run (turn pkt tree) s es

/-! ## A CPU on its own -/

/-- As many turns as `update_stats` takes at most, none of them refused. -/
def soloTurns (i : ι) : List (ι × Bool) := List.replicate 7 (i, false)

variable {s : Shared ι} {i : ι}

/-- **An uninterrupted CPU** leaves the entry of the sequential model behind, and moves no other
CPU. -/
theorem entry_solo (hi : s.pc i = .lookup) :
    (turns pkt tree s (soloTurns i)).entry =
        some (nextEntry s.entry (pkt i).tsNs (pkt i).pktLen tree) ∧
      (turns pkt tree s (soloTurns i)).pc = Function.update s.pc i .done := by
  cases hs : s.stored with
  | none =>
    -- miss, insertion, second lookup, classification, write-back
    simp [turns, Run.run, soloTurns, List.replicate, turn, hi, hs, Shared.goto, Shared.modify,
      Shared.install, Shared.entry, nextEntry]
  | some dp =>
    simp [turns, Run.run, soloTurns, List.replicate, turn, hi, hs, Shared.goto, Shared.modify,
      Shared.install, Shared.entry, nextEntry, countPacket_eq]

/-- **CPUs one after another** are the sequential model run over their packets. -/
theorem entry_serial {is : List ι} (hn : is.Nodup) (hs : ∀ i ∈ is, s.pc i = .lookup) :
    (turns pkt tree s (is.flatMap soloTurns)).entry =
      is.foldl (fun entry i => some (nextEntry entry (pkt i).tsNs (pkt i).pktLen tree))
        s.entry := by
  induction is generalizing s with
  | nil => rfl
  | cons i is ih =>
    obtain ⟨hi, hn⟩ := List.nodup_cons.mp hn
    obtain ⟨he, hpc⟩ := entry_solo pkt tree (hs i List.mem_cons_self)
    rw [List.flatMap_cons, turns, Run.run_append, List.foldl_cons, ← he]
    apply ih hn
    intro j hj
    show (turns pkt tree s (soloTurns i)).pc j = _
    rw [hpc, Function.update_of_ne (ne_of_mem_of_not_mem hj hi)]
    exact hs j (List.mem_cons_of_mem i hj)

end Turn

end XdpDetector

import XdpDetector.System
import XdpDetector.Lib.Cursor

/-!
# The CSV dump

`dump_flow_map_to_csv` walks the flow table by its keys, starting from the key that is all zeros
instead of from no key at all. A flow may have that key, and then the walk starts after it.

* `CsvRow`, `printFlowCsv`, `dumpFlowMapToCsv`: the program, with a bound on the rounds of its loop;
* `DumpExact`: the loop ends with one row for each entry;
* `dumpExact_iff`: the tables that are dumped exactly;
* **`dump_exact_iff_no_zero_flow`**: the runs of the kernel program whose table is dumped exactly.
-/

namespace XdpDetector

/-- The fields of a line of the file. -/
structure CsvRow where
  srcIp : UInt32
  srcPort : UInt16
  dstIp : UInt32
  dstPort : UInt16
  proto : UInt8
  features : Fin maxFeatures → Fixed
  label : Int32

def printFlowCsv (key : FlowKey) (dp : DataPoint) : CsvRow :=
  ⟨key.srcIp, key.srcPort, key.dstIp, key.dstPort, key.proto, dp.features, dp.label⟩

section Dump

variable (m : BoundedMap FlowKey DataPoint maxFlowSaved) (order : List FlowKey)

/-- One round of the loop: the line of a key that is found. -/
def dumpKey (key : FlowKey) : List CsvRow := ((m.lookup key).map (printFlowCsv key)).toList

/-- `dump_flow_map_to_csv` on a table whose keys are in the order `order`, with at most `rounds`
calls of `bpf_map_get_next_key`. -/
def dumpFlowMapToCsv (rounds : ℕ) : Option (List CsvRow) :=
  Cursor.follow (Cursor.nextKey order) (dumpKey m) rounds FlowKey.zero

def entryRows : List CsvRow := m.table.entries.map fun e => printFlowCsv e.1 e.2

/-- **The dump is complete and exact**: the loop ends, and has then written the line of each entry
once and nothing else. -/
def DumpExact : Prop :=
  ∃ rows, (∃ n, ∀ rounds, n ≤ rounds → dumpFlowMapToCsv m order rounds = some rows) ∧
    rows.Perm (entryRows m)

end Dump

variable {m : BoundedMap FlowKey DataPoint maxFlowSaved} {order : List FlowKey}

theorem nodup_of_perm_keys (ho : order.Perm m.table.keys) : order.Nodup :=
  ho.nodup_iff.mpr m.table.keys_nodup

theorem mem_order_iff (ho : order.Perm m.table.keys) (k : FlowKey) :
    k ∈ order ↔ (m.lookup k).isSome := by
  rw [ho.mem_iff, ← m.mem_table_iff]
  rfl

theorem dumpKey_of_mem {e : (_ : FlowKey) × DataPoint} (he : e ∈ m.table.entries) :
    dumpKey m e.1 = [printFlowCsv e.1 e.2] := by
  have hl : m.lookup e.1 = some e.2 := List.mem_dlookup m.table.nodupKeys he
  rw [dumpKey, hl]
  rfl

theorem flatMap_dumpKey_perm (ho : order.Perm m.table.keys) :
    (order.flatMap (dumpKey m)).Perm (entryRows m) := by
  refine (ho.flatMap_right (dumpKey m)).trans (List.Perm.of_eq ?_)
  show (m.table.entries.map Sigma.fst).flatMap (dumpKey m) = _
  rw [List.flatMap_map, entryRows, List.map_eq_flatMap]
  exact List.flatMap_congr fun e he => dumpKey_of_mem he

theorem key_of_mem_dumpKey {k k' : FlowKey} {dp : DataPoint}
    (h : printFlowCsv k dp ∈ dumpKey m k') : k = k' := by
  cases hl : m.lookup k' with
  | none => simp [dumpKey, hl] at h
  | some dp' =>
    simp only [dumpKey, hl, Option.map_some, Option.toList_some, List.mem_singleton, printFlowCsv,
      CsvRow.mk.injEq] at h
    cases k
    cases k'
    simp_all

/-- **The tables that are dumped exactly** are those without an entry for the zero key. -/
theorem dumpExact_iff (ho : order.Perm m.table.keys) :
    DumpExact m order ↔ m.lookup FlowKey.zero = none := by
  have hn := nodup_of_perm_keys ho
  have hmem := mem_order_iff ho FlowKey.zero
  constructor
  · rintro ⟨rows, ⟨n, hrows⟩, hperm⟩
    by_contra hsome
    obtain ⟨dp, hdp⟩ := Option.ne_none_iff_exists'.mp hsome
    obtain ⟨pre, suf, hsplit⟩ := List.append_of_mem (hmem.mpr (by rw [hdp]; rfl))
    have hsuf : rows = suf.flatMap (dumpKey m) := by
      have h := Cursor.follow_add (Cursor.follow_of_mem (dumpKey m) hsplit hn) n
      exact Option.some.inj ((hrows _ (Nat.le_add_left _ _)).symm.trans h)
    have hrow : printFlowCsv FlowKey.zero dp ∈ entryRows m :=
      List.mem_map.mpr ⟨⟨FlowKey.zero, dp⟩, List.of_mem_dlookup hdp, rfl⟩
    rw [← hperm.mem_iff, hsuf, List.mem_flatMap] at hrow
    obtain ⟨k, hk, hrow⟩ := hrow
    rw [← key_of_mem_dumpKey hrow] at hk
    rw [hsplit] at hn
    exact (List.nodup_cons.mp (List.nodup_append.mp hn).2.1).1 hk
  · intro hnone
    have hz : FlowKey.zero ∉ order := by
      rw [hmem, hnone]
      exact Bool.false_ne_true
    refine ⟨order.flatMap (dumpKey m), ⟨order.length + 1, fun rounds hr => ?_⟩,
      flatMap_dumpKey_perm ho⟩
    obtain ⟨k, rfl⟩ := Nat.exists_eq_add_of_le hr
    exact Cursor.follow_add (Cursor.follow_of_notMem (dumpKey m) hz hn) k

/-! ## The tables of the kernel program -/

/-- The event does not create or update the flow of `k`. -/
def Spares (k : FlowKey) (s : Maps) (e : Event) : Prop := (e.pkt? k).isSome → ¬ Admits s k

theorem entry_step_eq_none_iff {s : Maps} {k : FlowKey} {e : Event} :
    (step s e).entry k = none ↔ s.entry k = none ∧ Spares k s e := by
  cases he : e.pkt? k with
  | none =>
    have hs : Spares k s e := fun hc => by rw [he] at hc; cases hc
    rw [lookup_step_of_none he]
    exact (and_iff_left hs).symm
  | some p =>
    by_cases ha : Admits s k
    · rw [lookup_step_of_pkt he ha]
      constructor
      · intro h
        cases h
      · rintro ⟨-, hs⟩
        exact absurd ha (hs (by rw [he]; rfl))
    · rw [lookup_step_of_refused ha]
      exact (and_iff_left fun _ => ha).symm

/-- A flow has no entry exactly if every event of the run has spared it. -/
theorem entry_run_eq_none_iff (tree : DtTree maxDtNodes) (ac : Accounting) (k : FlowKey)
    (es : List Event) :
    (run (start tree ac) es).entry k = none ↔ Run.Along step (Spares k) (start tree ac) es := by
  induction es using List.reverseRecOn with
  | nil => exact iff_of_true (entry_start tree ac k) trivial
  | append_singleton es e ih =>
    rw [run_snoc, entry_step_eq_none_iff, ih, Run.along_append]
    exact and_congr_right fun _ => (and_iff_left trivial).symm

/-- **The tables of the kernel program that are dumped exactly**: those of the runs that never
admit a packet with the zero key, `0.0.0.0` to `0.0.0.0` with protocol and ports `0`. -/
theorem dump_exact_iff_no_zero_flow (tree : DtTree maxDtNodes) (ac : Accounting) (es : List Event)
    (order : List FlowKey) (ho : order.Perm (run (start tree ac) es).xdpFlowTracking.table.keys) :
    DumpExact (run (start tree ac) es).xdpFlowTracking order ↔
      Run.Along step (Spares FlowKey.zero) (start tree ac) es := by
  rw [dumpExact_iff ho, ← entry_run_eq_none_iff]
  rfl

theorem spares_twoFlows : Run.Along step (Spares FlowKey.zero) zeroMaps twoFlows := by
  refine Run.along_of_forall step (fun s e he hp => ?_) zeroMaps
  obtain ⟨p, hp⟩ := Option.isSome_iff_exists.mp hp
  obtain ⟨x, rfl, hx, -⟩ := Event.pkt?_eq_some hp
  obtain ⟨i, n, hframe⟩ := frame_of_mem_twoFlows he
  rw [hframe, flowKey?_udpFrame] at hx
  exact absurd (congrArg FlowKey.proto (Option.some.inj hx)) (by decide : (17 : UInt8) ≠ 0)

theorem dump_exact_twoFlows :
    DumpExact (run zeroMaps twoFlows).xdpFlowTracking
      (run zeroMaps twoFlows).xdpFlowTracking.table.keys.reverse := by
  unfold zeroMaps
  exact (dump_exact_iff_no_zero_flow _ _ _ _ (List.reverse_perm _)).mpr spares_twoFlows

/-- An IPv4 packet of protocol `0` between unset addresses. -/
def zeroKeyFrame : Frame where
  bytes := [0, 0, 0, 0, 0, 1, 0, 0, 0, 0, 0, 2, 8, 0] ++
    [0x45, 0, 0, 20, 0, 0, 0, 0, 64, 0, 0, 0, 0, 0, 0, 0, 0, 0, 0, 0]
  length_lt := by decide

/-- After one packet with the zero key the table has an entry and the dump no row. -/
theorem dump_loses_zero_key :
    ¬ DumpExact (run zeroMaps [.packet ⟨zeroKeyFrame, 1000, 2000⟩]).xdpFlowTracking
      (run zeroMaps [.packet ⟨zeroKeyFrame, 1000, 2000⟩]).xdpFlowTracking.table.keys := by
  rw [dumpExact_iff (List.Perm.refl _)]
  have hp : (Event.packet ⟨zeroKeyFrame, 1000, 2000⟩).pkt? FlowKey.zero = some ⟨1000, 34⟩ := by
    decide
  have he := lookup_step_of_pkt (s := zeroMaps) hp
    (Or.inr (by decide : (0 : ℕ) < maxFlowSaved))
  intro hnone
  exact Option.some_ne_none _ (he.symm.trans hnone)

end XdpDetector

import XdpDetector.Dump.Csv
import XdpDetector.Lib.Bytes
import XdpDetector.Lib.Significant
import XdpDetector.Lib.Text
import XdpDetector.Model.Labels

/-!
# The text of the CSV file

The characters `dump_flow_map_to_csv` writes, down to the rounding of `fixed_to_float` and `%.5f`,
and a reader that takes the file apart again. The features of a flow are integers, so that nothing
is lost in the five decimals.

* `fixedToFloat`, `inetNtop`, `printFloat`: how a field is printed;
* `csvFields`, `csvLine`, `csvText`: the lines and the file;
* `Reading`, `readRow`, `readCsv`: the reader;
* `readRow_csvLine`, **`readCsv_csvText`**: what is written is read, up to five decimals;
* `doubleOfUint_eq`: the conversion of a feature, as rounding to 53 bits;
* **`csv_round_trip`**: from the packets of a run to the file and back.
-/

namespace XdpDetector

open ByteFmt

/-! ## Fields -/

/-- The double nearest to a 64-bit number: 53 significant bits, ties to even. -/
def doubleOfUint (v : UInt64) : ℚ :=
  let e := v.toNat.log2 - 52
  roundHalfEven (v.toNat / 2 ^ e) * 2 ^ e

/-- `fixed_to_float`. -/
def fixedToFloat (value : Fixed) : ℚ := doubleOfUint value / fixedScale

/-- `inet_ntop` of an address as it is stored. -/
def inetNtop (ip : UInt32) : List Char :=
  ['.'].intercalate ((leBytes 4 ip.toNat).map fun b => Text.nat b.toNat)

/-- The digits of `%.5f`, for a number that is not negative. -/
def hundredThousandths (x : ℚ) : ℕ := (roundHalfEven (x * 10 ^ 5)).toNat

def printFloat (x : ℚ) : List Char := Text.decimal 5 (hundredThousandths x)

/-! ## Lines -/

/-- The arguments of `fprintf` in `print_flow_csv`, as printed. -/
def csvFields (r : CsvRow) : List (List Char) :=
  [inetNtop r.srcIp, Text.nat r.srcPort.toNat, inetNtop r.dstIp, Text.nat r.dstPort.toNat,
    Text.int r.proto.toNat,
    printFloat (fixedToFloat (r.features featureFlowDuration)),
    printFloat (fixedToFloat (r.features featureTotalFwdPacket)),
    printFloat (fixedToFloat (r.features featureTotalLengthOfFwdPacket)),
    printFloat (fixedToFloat (r.features featureFwdPacketLengthMax)),
    printFloat (fixedToFloat (r.features featureFwdPacketLengthMin)),
    printFloat (fixedToFloat (r.features featureFwdIatMin)),
    Text.int r.label.toInt]

def csvLine (r : CsvRow) : List Char := [','].intercalate (csvFields r)

def csvColumns : List Char :=
  "SrcIP,SrcPort,DstIP,DstPort,Proto,FlowDur,TotalPkts,TotalBytes,MaxLen,MinLen,IAT_min,Label".toList

/-- **The file**: the header and a line for each row. -/
def csvText (rows : List CsvRow) : List Char :=
  (csvColumns :: rows.map csvLine).flatMap fun l => l ++ ['\n']

/-! ## The reader -/

/-- A line of the file as numbers. -/
structure Reading where
  srcIp : UInt32
  srcPort : UInt16
  dstIp : UInt32
  dstPort : UInt16
  proto : UInt8
  features : Fin maxFeatures → ℚ
  label : ℤ

def readQuad (l : List Char) : Option UInt32 :=
  match l.splitOn '.' with
  | [a, b, c, d] => do
    let a ← Text.readNat a
    let b ← Text.readNat b
    let c ← Text.readNat c
    let d ← Text.readNat d
    some (UInt32.ofNat (a + 256 * (b + 256 * (c + 256 * d))))
  | _ => none

def readRow (l : List Char) : Option Reading :=
  match l.splitOn ',' with
  | [srcIp, srcPort, dstIp, dstPort, proto, f0, f1, f2, f3, f4, f5, label] => do
    let srcIp ← readQuad srcIp
    let srcPort ← Text.readNat srcPort
    let dstIp ← readQuad dstIp
    let dstPort ← Text.readNat dstPort
    let proto ← Text.readNat proto
    let f0 ← Text.readDecimal f0
    let f1 ← Text.readDecimal f1
    let f2 ← Text.readDecimal f2
    let f3 ← Text.readDecimal f3
    let f4 ← Text.readDecimal f4
    let f5 ← Text.readDecimal f5
    let label ← Text.readInt label
    some ⟨srcIp, UInt16.ofNat srcPort, dstIp, UInt16.ofNat dstPort, UInt8.ofNat proto,
      ![f0, f1, f2, f3, f4, f5], label⟩
  | _ => none

/-- **The reader of the file**: the header is checked, and every line ends in a newline. -/
def readCsv (text : List Char) : Option (List Reading) :=
  match text.splitOn '\n' with
  | [] => none
  | header :: lines =>
    if header = csvColumns ∧ lines.getLast? = some [] then lines.dropLast.mapM readRow else none

/-! ## What is written is read -/

theorem readQuad_inetNtop (ip : UInt32) : readQuad (inetNtop ip) = some ip := by
  have hsplit : (inetNtop ip).splitOn '.' =
      (leBytes 4 ip.toNat).map fun b => Text.nat b.toNat := by
    refine List.splitOn_intercalate '.' (fun l hl => ?_) (by simp [leBytes])
    obtain ⟨b, -, rfl⟩ := List.mem_map.mp hl
    exact Text.point_notMem fun _ => Text.isDigit_nat
  have hlt := ip.toNat_lt
  rw [readQuad, hsplit]
  simp only [leBytes, List.map_cons, List.map_nil, Text.readNat_nat, Option.bind_eq_bind,
    Option.bind_some, UInt8.toNat_ofNat', Option.some.injEq]
  apply UInt32.toNat_inj.mp
  rw [UInt32.toNat_ofNat']
  omega

theorem plain_inetNtop (ip : UInt32) : Text.Plain (inetNtop ip) := by
  intro c hc
  rcases Text.mem_of_mem_intercalate hc with hc | ⟨l, hl, hc⟩
  · exact Or.inr (Or.inl (List.mem_singleton.mp hc))
  · obtain ⟨b, -, rfl⟩ := List.mem_map.mp hl
    exact Text.plain_nat _ c hc

theorem plain_csvFields (r : CsvRow) : ∀ l ∈ csvFields r, Text.Plain l := by
  simp [csvFields, plain_inetNtop, Text.plain_nat, Text.plain_int, printFloat, Text.plain_decimal]

/-- What the reader gets of a row. -/
def CsvRow.reading (r : CsvRow) : Reading where
  srcIp := r.srcIp
  srcPort := r.srcPort
  dstIp := r.dstIp
  dstPort := r.dstPort
  proto := r.proto
  features i := (hundredThousandths (fixedToFloat (r.features i)) : ℚ) / 10 ^ 5
  label := r.label.toInt

theorem readRow_csvLine (r : CsvRow) : readRow (csvLine r) = some r.reading := by
  have hsplit : (csvLine r).splitOn ',' = csvFields r := by
    refine List.splitOn_intercalate ',' (fun l hl => ?_) (by simp [csvFields])
    exact (plain_csvFields r l hl).notMem (by decide) (by decide) (by decide)
  have hproto : Text.readNat (Text.int r.proto.toNat) = some r.proto.toNat :=
    Text.readNat_nat r.proto.toNat
  have hdec : ∀ x, Text.readDecimal (printFloat x) =
      some ((hundredThousandths x : ℚ) / 10 ^ 5) := fun x => Text.readDecimal_decimal (by decide) _
  rw [readRow, hsplit]
  simp only [csvFields, readQuad_inetNtop, Text.readNat_nat, hproto, hdec, Text.readInt_int,
    Option.bind_eq_bind, Option.bind_some, UInt16.ofNat_toNat, UInt8.ofNat_toNat,
    Option.some.injEq, CsvRow.reading, Reading.mk.injEq, true_and, and_true]
  funext i
  fin_cases i <;> rfl

theorem newline_notMem_csvLine (r : CsvRow) : '\n' ∉ csvLine r := by
  intro hc
  rcases Text.mem_of_mem_intercalate hc with hc | ⟨l, hl, hc⟩
  · exact absurd hc (by decide)
  · exact (plain_csvFields r l hl).notMem (by decide) (by decide) (by decide) hc

theorem newline_notMem_csvColumns : '\n' ∉ csvColumns := by decide

/-- **The file is read** row by row. -/
theorem readCsv_csvText (rows : List CsvRow) :
    readCsv (csvText rows) = some (rows.map CsvRow.reading) := by
  have hlines : ∀ l ∈ csvColumns :: rows.map csvLine, '\n' ∉ l := by
    intro l hl
    rcases List.mem_cons.mp hl with rfl | hl
    · exact newline_notMem_csvColumns
    · obtain ⟨r, -, rfl⟩ := List.mem_map.mp hl
      exact newline_notMem_csvLine r
  rw [readCsv, csvText, Text.splitOn_lines hlines, List.cons_append]
  dsimp only
  rw [if_pos ⟨rfl, List.getLast?_concat⟩, List.dropLast_concat]
  exact Text.mapM_of_forall fun r _ => readRow_csvLine r

/-! ## Integer features -/

/-- The conversion rounds to 53 significant bits; numbers with fewer stay. -/
theorem doubleOfUint_eq (v : UInt64) : doubleOfUint v = Sig.round 52 v.toNat := by
  rcases Nat.eq_zero_or_pos v.toNat with h0 | hpos
  · have hzero : roundHalfEven 0 = 0 := roundHalfEven_intCast 0
    simp [doubleOfUint, h0, hzero]
  rw [doubleOfUint, Nat.log2_eq_log_two]
  rcases Nat.lt_or_ge (Nat.log 2 v.toNat) 52 with hlt | hge
  · have hle : v.toNat ≤ 2 ^ (52 + 1) :=
      (Nat.lt_pow_of_log_lt (by decide) (hlt.trans (by decide))).le
    rw [Sig.round_of_representable (Sig.representable_natCast hle), Nat.sub_eq_zero_of_le hlt.le,
      pow_zero, div_one, mul_one]
    exact_mod_cast roundHalfEven_intCast v.toNat
  · have hexp : Int.log 2 (v.toNat : ℚ) - (52 : ℕ) = ((Nat.log 2 v.toNat - 52 : ℕ) : ℤ) := by
      rw [Int.log_natCast, Nat.cast_sub hge]
    rw [Sig.round_of_pos (by exact_mod_cast hpos), hexp, zpow_natCast]

theorem doubleOfUint_mul {d : ℕ} (v : UInt64) (hv : v.toNat = d * fixedScale) :
    doubleOfUint v = v.toNat := by
  have hlt := v.toNat_lt
  unfold fixedScale at hv
  rw [doubleOfUint_eq]
  -- the lowest bits, which a double may have no room for, are zero
  refine Sig.round_of_representable ⟨d, 16, by omega, ?_⟩
  rw [hv]
  push_cast
  norm_num

theorem fixedToFloat_of_mul {d : ℕ} {v : Fixed} (hv : v.toNat = d * fixedScale) :
    fixedToFloat v = d := by
  rw [fixedToFloat, doubleOfUint_mul v hv, hv]
  unfold fixedScale
  push_cast
  ring

/-- **An integer survives** the five decimals. -/
theorem hundredThousandths_natCast (d : ℕ) : (hundredThousandths d : ℚ) / 10 ^ 5 = d := by
  have h : ((d : ℚ) * 10 ^ 5) = ((d * 10 ^ 5 : ℕ) : ℤ) := by push_cast; ring
  rw [hundredThousandths, h, roundHalfEven_intCast, Int.toNat_natCast]
  push_cast
  ring

/-! ## From the packets to the file and back -/

/-- The file after at most `rounds` rounds of the loop. -/
def dumpText (m : BoundedMap FlowKey DataPoint maxFlowSaved) (order : List FlowKey) (rounds : ℕ) :
    Option (List Char) :=
  (dumpFlowMapToCsv m order rounds).map csvText

/-- What the file should say of a flow: its key, the features of its packets and its label. -/
def flowReading (k : FlowKey) (ps : List Pkt) (label : Int32) : Reading where
  srcIp := k.srcIp
  srcPort := k.srcPort
  dstIp := k.dstIp
  dstPort := k.dstPort
  proto := k.proto
  features i := flowVector ps i
  label := label.toInt

theorem fixedToFloat_feature {dp : DataPoint} (hf : dp.features = computeFeatures dp)
    (i : Fin maxFeatures) : fixedToFloat (dp.features i) = decode dp i := by
  have he : dp.features i = fixedFromUint (fixedToUint (dp.features i)) := by
    rw [hf]
    exact congrFun (computeFeatures_eq dp) i
  apply fixedToFloat_of_mul
  exact (congrArg UInt64.toNat he).trans (toNat_fixedFromUint_of_lt (decode_lt dp i))

theorem reading_of_entry {tree : DtTree maxDtNodes} {ac : Accounting} {es : List Event}
    {k : FlowKey} {dp : DataPoint} (h : (run (start tree ac) es).entry k = some dp) :
    (printFlowCsv k dp).reading = flowReading k (history k es) dp.label := by
  have hf := features_of_entry h
  have hv := decode_eq_flowVector ((tracks_run tree ac es).present k dp h) hf
  have hfeat : ∀ i, (hundredThousandths (fixedToFloat (dp.features i)) : ℚ) / 10 ^ 5 =
      flowVector (history k es) i := by
    intro i
    rw [fixedToFloat_feature hf, hundredThousandths_natCast, hv]
  simp only [CsvRow.reading, printFlowCsv, flowReading, hfeat]

/-- **The lines of a complete dump** say what they should of every flow. -/
theorem readings_perm (tree : DtTree maxDtNodes) (ac : Accounting) (es : List Event)
    {rows : List CsvRow} (h : rows.Perm (entryRows (run (start tree ac) es).xdpFlowTracking)) :
    (rows.map CsvRow.reading).Perm
      ((run (start tree ac) es).xdpFlowTracking.table.entries.map fun e =>
        flowReading e.1 (history e.1 es) e.2.label) := by
  refine (h.map CsvRow.reading).trans (List.Perm.of_eq ?_)
  rw [entryRows, List.map_map]
  refine List.map_congr_left fun e he => ?_
  have hl : (run (start tree ac) es).entry e.1 = some e.2 :=
    List.mem_dlookup (run (start tree ac) es).xdpFlowTracking.table.nodupKeys he
  exact reading_of_entry hl

/-- **Round trip of the dump.** Unless a flow with the zero key was admitted, the loop ends, and the
file it has then written reads back as one line for each flow of the table: the key, the features of
the packets of the flow, and its label. -/
theorem csv_round_trip (tree : DtTree maxDtNodes) (ac : Accounting) (es : List Event)
    (order : List FlowKey) (ho : order.Perm (run (start tree ac) es).xdpFlowTracking.table.keys)
    (hz : Run.Along step (Spares FlowKey.zero) (start tree ac) es) :
    ∃ n, ∀ rounds, n ≤ rounds → ∃ text readings,
      dumpText (run (start tree ac) es).xdpFlowTracking order rounds = some text ∧
        readCsv text = some readings ∧
        readings.Perm ((run (start tree ac) es).xdpFlowTracking.table.entries.map fun e =>
          flowReading e.1 (history e.1 es) e.2.label) := by
  obtain ⟨rows, ⟨n, hn⟩, hperm⟩ :=
    (dumpExact_iff ho).mpr ((entry_run_eq_none_iff tree ac FlowKey.zero es).mpr hz)
  refine ⟨n, fun rounds hr => ⟨csvText rows, rows.map CsvRow.reading, ?_, readCsv_csvText rows,
    readings_perm tree ac es hperm⟩⟩
  rw [dumpText, hn rounds hr]
  rfl

theorem csv_round_trip_twoFlows :
    let m := (run zeroMaps twoFlows).xdpFlowTracking
    ∃ n, ∀ rounds, n ≤ rounds → ∃ text readings,
      dumpText m m.table.keys.reverse rounds = some text ∧ readCsv text = some readings ∧
        readings.Perm
          (m.table.entries.map fun e => flowReading e.1 (history e.1 twoFlows) e.2.label) := by
  unfold zeroMaps
  exact csv_round_trip _ _ _ _ (List.reverse_perm _) spares_twoFlows

end XdpDetector

import XdpDetector.Dump.Text
import XdpDetector.Lib.Significant

/-!
# Evaluation of a dump

`calculate_metrics` and `analyze_csv` of `evaluate_classification.py`: the labels of a dump against
a ground truth, by default the predictions of the trained model itself. Scores are doubles, and
every operation on them rounds.

* `Metrics`, `calculateMetrics`: the four counts and the four scores;
* `Metrics.Sound`, **`metrics_sound`**: what the scores say about the labels;
* `Classifier`, `analyzeCsv`: the columns added to a dump, and the choice of the ground truth;
* **`no_false_positives`**: a dump of the kernel program against the tree that was loaded.
-/

namespace XdpDetector

/-- The values `calculate_metrics` returns. -/
structure Metrics where
  tp : ℕ
  tn : ℕ
  fp : ℕ
  fn : ℕ
  accuracy : ℚ
  precision : ℚ
  recallScore : ℚ
  f1 : ℚ

/-- The number of places with label `a` in truth and `b` as predicted. -/
def countLabels (ys : List (ℤ × ℤ)) (a b : ℤ) : ℕ := ys.countP fun y => y.1 = a ∧ y.2 = b

/-- The double nearest to a number. The scores stay far from the ends of the exponent's range. -/
def double (q : ℚ) : ℚ := Sig.round 52 q

/-- A quotient of integers as a double, `0` if the divisor is `0`. -/
def ratio (a b : ℕ) : ℚ := if b > 0 then double (a / b) else 0

/-- The harmonic mean of two scores, `0` if both are `0`. -/
def f1Score (precision recallScore : ℚ) : ℚ :=
  if double (precision + recallScore) > 0 then
    double (double (2 * double (precision * recallScore)) / double (precision + recallScore))
  else 0

/-- `calculate_metrics`, on the pairs of `y_true` and `y_pred`. -/
def calculateMetrics (ys : List (ℤ × ℤ)) : Metrics :=
  let tp := countLabels ys 1 1
  let tn := countLabels ys 0 0
  let fp := countLabels ys 0 1
  let fn := countLabels ys 1 0
  let accuracy := ratio (tp + tn) ys.length
  let precision := ratio tp (tp + fp)
  let recallScore := ratio tp (tp + fn)
  ⟨tp, tn, fp, fn, accuracy, precision, recallScore, f1Score precision recallScore⟩

/-! ## The scores -/

section Scores

variable (ys : List (ℤ × ℤ))

/-- Both labels are `0` or `1`. -/
def Binary (y : ℤ × ℤ) : Prop := (y.1 = 0 ∨ y.1 = 1) ∧ (y.2 = 0 ∨ y.2 = 1)

/-- **The four counts** together are the places with binary labels. -/
theorem counts_eq :
    countLabels ys 1 1 + countLabels ys 0 0 + countLabels ys 0 1 + countLabels ys 1 0 =
      ys.countP fun y => (y.1 = 0 ∨ y.1 = 1) ∧ (y.2 = 0 ∨ y.2 = 1) := by
  induction ys with
  | nil => rfl
  | cons y ys ih =>
    simp only [countLabels, List.countP_cons, decide_eq_true_eq] at ih ⊢
    split_ifs <;> omega

theorem correct_eq : countLabels ys 1 1 + countLabels ys 0 0 =
    ys.countP fun y => y.1 = y.2 ∧ (y.1 = 0 ∨ y.1 = 1) := by
  induction ys with
  | nil => rfl
  | cons y ys ih =>
    simp only [countLabels, List.countP_cons, decide_eq_true_eq] at ih ⊢
    split_ifs <;> omega

/-- A quotient is rounded once; without a divisor both sides are `0`. -/
theorem ratio_eq (a b : ℕ) : ratio a b = double (a / b) := by
  unfold ratio
  split_ifs with hb
  · rfl
  · rw [show b = 0 by omega, Nat.cast_zero, div_zero, double, Sig.round_zero]

theorem near_ratio (a b : ℕ) : Sig.Near 52 1 (ratio a b) (a / b) := by
  rw [ratio_eq]
  exact Sig.near_round (by positivity)

theorem representable_ratio (a b : ℕ) : Sig.Representable 52 (ratio a b) := by
  rw [ratio_eq]
  exact Sig.representable_round (by positivity)

theorem ratio_nonneg (a b : ℕ) : 0 ≤ ratio a b := (representable_ratio a b).nonneg

theorem ratio_le_one {a b : ℕ} (h : a ≤ b) : ratio a b ≤ 1 := by
  rw [ratio_eq]
  refine Sig.round_le_one (by positivity) (div_le_one_of_le₀ ?_ (by positivity))
  exact_mod_cast h

/-- The relative error of a quotient. -/
theorem abs_ratio_sub_le (a b : ℕ) : |ratio a b - a / b| ≤ (a / b) / 2 ^ 53 := by
  rw [ratio_eq]
  rcases (show (0 : ℚ) ≤ a / b by positivity).eq_or_lt with h | h
  · rw [← h]
    simp [double]
  · exact Sig.abs_round_sub_le h

theorem ratio_eq_one_iff {a b : ℕ} (hb : 0 < b) (hle : a ≤ b) (hbound : b ≤ 2 ^ 53) :
    ratio a b = 1 ↔ a = b := by
  have hb' : (b : ℚ) ≠ 0 := by exact_mod_cast hb.ne'
  rw [ratio_eq]
  constructor
  · intro h
    refine hle.eq_or_lt.resolve_right fun hlt => ?_
    exact (Sig.round_div_lt_one (p := 52) hbound hlt).ne h
  · rintro rfl
    have hone : Sig.Representable 52 ((1 : ℕ) : ℚ) := Sig.representable_natCast (by norm_num)
    rw [div_self hb']
    exact_mod_cast Sig.round_of_representable hone

section F1

variable {p r : ℚ} (hp : Sig.Representable 52 p) (hr : Sig.Representable 52 r)

include hp hr

/-- Doubling a double is exact. -/
theorem double_two_mul : double (2 * double (p * r)) = 2 * double (p * r) :=
  Sig.round_of_representable
    (Sig.representable_round (mul_nonneg hp.nonneg hr.nonneg)).two_mul

/-- **The harmonic mean of two scores is a score**, rounding included: the product is at most either
of them. -/
theorem f1Score_mem (hp1 : p ≤ 1) (hr1 : r ≤ 1) : 0 ≤ f1Score p r ∧ f1Score p r ≤ 1 := by
  have hpr : 0 ≤ p * r := mul_nonneg hp.nonneg hr.nonneg
  have hleft : double (p * r) ≤ p := Sig.round_le hpr hp (mul_le_of_le_one_right hp.nonneg hr1)
  have hright : double (p * r) ≤ r := Sig.round_le hpr hr (mul_le_of_le_one_left hr.nonneg hp1)
  have hnonneg : 0 ≤ 2 * double (p * r) := mul_nonneg (by norm_num) (Sig.round_nonneg hpr)
  have hsum : 2 * double (p * r) ≤ double (p + r) :=
    Sig.le_round (Sig.representable_round hpr).two_mul (by linarith)
  have hquot : 0 ≤ 2 * double (p * r) / double (p + r) := div_nonneg hnonneg (hnonneg.trans hsum)
  unfold f1Score
  split_ifs with h
  · rw [double_two_mul hp hr]
    exact ⟨Sig.round_nonneg hquot,
      Sig.round_le_one hquot (div_le_one_of_le₀ hsum (hnonneg.trans hsum))⟩
  · exact ⟨le_rfl, zero_le_one⟩

/-- **Its error**: six roundings from the exact mean of the exact scores. -/
theorem near_f1Score {p' r' : ℚ} (hnp : Sig.Near 52 1 p p') (hnr : Sig.Near 52 1 r r')
    (hp' : 0 < p') (hr' : 0 < r') (hpos : 0 < p + r) :
    Sig.Near 52 6 (f1Score p r) (2 * (p' * r') / (p' + r')) := by
  have hpr : 0 ≤ p * r := mul_nonneg hp.nonneg hr.nonneg
  have hd : 0 ≤ double (p * r) := Sig.round_nonneg hpr
  have hprod : Sig.Near 52 3 (2 * double (p * r)) (2 * (p' * r')) := by
    have hround := (Sig.near_round hpr).trans (hnp.mul hnr hp.nonneg hp'.le hr.nonneg hr'.le)
    exact Sig.near_refl.mul hround (by norm_num) (by norm_num) hd (by positivity)
  have hsum : Sig.Near 52 2 (double (p + r)) (p' + r') :=
    (Sig.near_round hpos.le).trans (hnp.add hnr)
  have hspos : 0 < double (p + r) := Sig.round_pos hpos
  have hquot := hprod.div hsum (by positivity) (by positivity) hspos (by positivity)
  rw [f1Score, if_pos hspos, double_two_mul hp hr]
  exact (Sig.near_round (div_nonneg (by positivity) hspos.le)).trans hquot

end F1

/-- **The F1 score from the counts**, up to rounding. -/
theorem abs_f1Score_sub_le (tp fp fn : ℕ) :
    |f1Score (ratio tp (tp + fp)) (ratio tp (tp + fn)) - 2 * tp / (2 * tp + fp + fn)| ≤
      2 * tp / (2 * tp + fp + fn) / 2 ^ 50 := by
  rcases Nat.eq_zero_or_pos tp with rfl | h0
  · simp [f1Score, ratio_eq, double]
  have htp : (0 : ℚ) < tp := by exact_mod_cast h0
  have hP : (0 : ℚ) < tp / (tp + fp : ℕ) := by positivity
  have hR : (0 : ℚ) < tp / (tp + fn : ℕ) := by positivity
  have hp : 0 < ratio tp (tp + fp) := by
    rw [ratio_eq]
    exact Sig.round_pos hP
  have hnear := near_f1Score (representable_ratio tp (tp + fp)) (representable_ratio tp (tp + fn))
    (near_ratio _ _) (near_ratio _ _) hP hR (add_pos_of_pos_of_nonneg hp (ratio_nonneg _ _))
  have hexact : 2 * ((tp : ℚ) / (tp + fp : ℕ) * (tp / (tp + fn : ℕ))) /
      (tp / (tp + fp : ℕ) + tp / (tp + fn : ℕ)) = 2 * tp / (2 * tp + fp + fn) := by
    push_cast
    field_simp
    ring
  rw [hexact] at hnear
  rw [div_eq_mul_one_div _ ((2 : ℚ) ^ 50), mul_comm _ (1 / _)]
  exact hnear.abs_sub_le (by positivity) (by positivity) (by norm_num)

/-- **What the scores say.** The counts cover all places exactly if the labels are binary; every
score lies between `0` and `1`; accuracy, precision and recall are their quotients up to one
rounding, and the F1 score is the one of the counts up to a few; and among up to `2 ^ 53` places the
accuracy is `1` exactly if all labels are binary and agree. -/
structure Metrics.Sound (m : Metrics) (ys : List (ℤ × ℤ)) : Prop where
  counts : m.tp + m.tn + m.fp + m.fn = ys.length ↔ ∀ y ∈ ys, Binary y
  accuracy : 0 ≤ m.accuracy ∧ m.accuracy ≤ 1
  precision : 0 ≤ m.precision ∧ m.precision ≤ 1
  recallScore : 0 ≤ m.recallScore ∧ m.recallScore ≤ 1
  f1 : 0 ≤ m.f1 ∧ m.f1 ≤ 1
  accuracy_error : |m.accuracy - (m.tp + m.tn : ℕ) / ys.length| ≤
    (m.tp + m.tn : ℕ) / ys.length / 2 ^ 53
  precision_error : |m.precision - m.tp / (m.tp + m.fp : ℕ)| ≤ m.tp / (m.tp + m.fp : ℕ) / 2 ^ 53
  recall_error : |m.recallScore - m.tp / (m.tp + m.fn : ℕ)| ≤ m.tp / (m.tp + m.fn : ℕ) / 2 ^ 53
  f1_error : |m.f1 - 2 * m.tp / (2 * m.tp + m.fp + m.fn)| ≤
    2 * m.tp / (2 * m.tp + m.fp + m.fn) / 2 ^ 50
  accuracy_eq_one : ys.length ≤ 2 ^ 53 →
    (m.accuracy = 1 ↔ ys ≠ [] ∧ ∀ y ∈ ys, y.1 = y.2 ∧ (y.1 = 0 ∨ y.1 = 1))

/-- **The scores are sound** for all labels. -/
theorem metrics_sound : (calculateMetrics ys).Sound ys := by
  have hcorrect := correct_eq ys
  have hle : countLabels ys 1 1 + countLabels ys 0 0 ≤ ys.length := by
    rw [hcorrect]
    exact List.countP_le_length
  constructor
  case counts =>
    show countLabels ys 1 1 + countLabels ys 0 0 + countLabels ys 0 1 + countLabels ys 1 0 = _ ↔ _
    rw [counts_eq, List.countP_eq_length]
    simp only [decide_eq_true_eq, Binary]
  case accuracy => exact ⟨ratio_nonneg _ _, ratio_le_one hle⟩
  case precision => exact ⟨ratio_nonneg _ _, ratio_le_one (Nat.le_add_right _ _)⟩
  case recallScore => exact ⟨ratio_nonneg _ _, ratio_le_one (Nat.le_add_right _ _)⟩
  case f1 =>
    exact f1Score_mem (representable_ratio _ _) (representable_ratio _ _)
      (ratio_le_one (Nat.le_add_right _ _)) (ratio_le_one (Nat.le_add_right _ _))
  case accuracy_error => exact abs_ratio_sub_le _ _
  case precision_error => exact abs_ratio_sub_le _ _
  case recall_error => exact abs_ratio_sub_le _ _
  case f1_error => exact abs_f1Score_sub_le _ _ _
  case accuracy_eq_one =>
    intro hbound
    show ratio (countLabels ys 1 1 + countLabels ys 0 0) ys.length = 1 ↔ _
    cases ys with
    | nil => simp [ratio]
    | cons y ys =>
      rw [ratio_eq_one_iff (List.length_pos_of_ne_nil (List.cons_ne_nil y ys)) hle hbound, hcorrect,
        List.countP_eq_length]
      simp only [decide_eq_true_eq, ne_eq, reduceCtorEq, not_false_eq_true, true_and]

/-- With one of five anomalies found, the score is the double above `1 / 3`. -/
example : (calculateMetrics ((1, 1) :: List.replicate 4 (1, 0))).f1 =
    3002399751580331 / 2 ^ 53 := by
  decide +kernel

end Scores

/-! ## The ground truth -/

/-- What `pd.read_csv` returns for a dump. -/
structure DataFrame where
  columns : List (List Char)
  rows : List Reading

def readDataFrame (text : List Char) : Option DataFrame :=
  (readCsv text).map fun rows => ⟨csvColumns.splitOn ',', rows⟩

def featuresCols : List (List Char) :=
  ["FlowDur", "TotalPkts", "TotalBytes", "MaxLen", "MinLen", "IAT_min"].map String.toList

inductive GroundTruthMode
  | sklearn
  | filename
  | file

/-- `os.path.basename`. -/
def basename (path : List Char) : List Char := (path.splitOn '/').getLastD []

/-- **The trained model**, as the evaluation calls it. -/
structure Classifier where
  nClasses : ℕ
  predict : (Fin maxFeatures → ℚ) → ℤ
  predictProba : (Fin maxFeatures → ℚ) → Fin nClasses → ℚ

/-- A row with the columns that `analyze_csv` adds. -/
structure AnalyzedRow where
  reading : Reading
  predictionSklearn : ℤ
  probabilityNormal : ℚ
  probabilityAttack : ℚ
  predictionKernel : ℤ

inductive PyError
  | indexError

section Analyze

variable (model : Classifier) (csvFile : List Char) (expectedLabels : Option (List Char))
  (readLabels : List Char → Option (Option (List ℤ))) (mode : GroundTruthMode)

def analyzeRow (h : 1 < model.nClasses) (r : Reading) : AnalyzedRow where
  reading := r
  predictionSklearn := model.predict r.features
  probabilityNormal := model.predictProba r.features ⟨0, Nat.zero_lt_of_lt h⟩
  probabilityAttack := model.predictProba r.features ⟨1, h⟩
  predictionKernel := r.label

/-- `y_true`. `readLabels` says whether a file exists, and gives its column `Label` if it has
one. -/
def groundTruth (rows : List Reading) : List ℤ :=
  let predictions := rows.map fun r => model.predict r.features
  match mode with
  | .filename =>
    let name := (basename csvFile).map Char.toLower
    if "attack".toList <:+: name then List.replicate rows.length 1
    else if "benign".toList <:+: name ∨ "normal".toList <:+: name then
      List.replicate rows.length 0
    else predictions
  | .file =>
    match expectedLabels with
    | none => predictions
    | some file =>
      if file = [] then predictions
      else match readLabels file with
        | some (some labels) => if labels.length = rows.length then labels else predictions
        | _ => predictions
  | .sklearn => predictions

/-- `ground_truth_source`. -/
def groundTruthSource : List Char :=
  match mode with
  | .filename => "filename (auto-detected)".toList
  | .file => "file (".toList ++ expectedLabels.getD "None".toList ++ ")".toList
  | .sklearn => "sklearn predictions".toList

/-- `analyze_csv`, given what `pd.read_csv` makes of the file, if it exists. The columns of
`predict_proba` for both classes are taken, and a model without a second class raises. -/
def analyzeCsv : Option DataFrame →
    Except PyError (Option (List AnalyzedRow × Metrics × List Char))
  | none => .ok none
  | some df =>
    if df.rows.length = 0 then .ok none
    else if featuresCols.any fun col => !df.columns.contains col then .ok none
    else if h : 1 < model.nClasses then
      let yTrue := groundTruth model csvFile expectedLabels readLabels mode df.rows
      let yPred := df.rows.map Reading.label
      .ok (some (df.rows.map (analyzeRow model h), calculateMetrics (yTrue.zip yPred),
        groundTruthSource expectedLabels mode))
    else .error .indexError

end Analyze

/-! ## A dump against the loaded tree -/

theorem exactClass_lt {t : SkTree} (hc : t.nClasses ≤ 2) (v : Fin maxFeatures → ℕ) :
    t.exactClass v < 2 := (npArgmax t.nClasses_pos _).isLt.trans_le hc

theorem toInt_answer {t : SkTree} (hc : t.nClasses ≤ 2) (count : ℕ) (v : Fin maxFeatures → ℕ) :
    (t.answer count v).toInt = if t.Reached count v then (t.exactClass v : ℤ) else 0 := by
  have hlt := exactClass_lt hc v
  by_cases hr : t.Reached count v
  · rw [if_pos hr, SkTree.answer, if_pos hr]
    exact Int32.toInt_ofNat_of_lt (hlt.trans (by decide))
  · rw [if_neg hr, SkTree.answer, if_neg hr]
    rfl

theorem countLabels_zip {α : Type} (rs : List α) (f g : α → ℤ) (a b : ℤ) :
    countLabels ((rs.map f).zip (rs.map g)) a b = rs.countP fun r => f r = a ∧ g r = b := by
  rw [List.zip_map', countLabels, List.countP_map]
  rfl

section NoFalsePositives

variable (tree : DtTree maxDtNodes) (ac : Accounting) (t : LoadedTree) (behind : List UInt8)
  (es : List Event)

/-- The maps after a model was loaded and packets have passed. -/
def loadedRun : Maps := run (start tree ac) (.reload (updateBpfMap t behind) :: es)

variable {tree ac t behind es}

theorem toInt_label_loadedRun (ht : t.Separating) (hc : t.nClasses ≤ 2)
    (hes : ∀ e ∈ es, e.input?.isSome) {k : FlowKey} {dp : DataPoint}
    (h : (loadedRun tree ac t behind es).entry k = some dp) :
    dp.label.toInt = if t.Reached (countBehind behind) (flowVector (history k es)) then
      (t.exactClass (flowVector (history k es)) : ℤ) else 0 := by
  have hk : history k es ≠ [] := ((tracks_run tree ac _).present k dp h).ne_nil
  have h' : (run (start tree ac) ([] ++ .reload (updateBpfMap t behind) :: es)).entry k = some dp :=
    h
  obtain ⟨hsum, hf, hlabel⟩ := row_after_reload hes hk h'
  rw [hlabel, predictDt_eq_answer ht behind hsum hf]
  exact toInt_answer hc _ _

section Evaluate

variable (ht : t.Separating) (hc : t.nClasses ≤ 2) (hes : ∀ e ∈ es, e.input?.isSome)
  {predict : (Fin maxFeatures → ℚ) → ℤ}
  (hpredict : ∀ k, ((loadedRun tree ac t behind es).entry k).isSome →
    predict (fun i => flowVector (history k es) i) = t.exactClass (flowVector (history k es)))

include ht hc hes hpredict

/-- **What truth and dump say of a flow.** -/
theorem evaluated_flow {e : (_ : FlowKey) × DataPoint}
    (he : e ∈ (loadedRun tree ac t behind es).xdpFlowTracking.table.entries) :
    predict (flowReading e.1 (history e.1 es) e.2.label).features =
        t.exactClass (flowVector (history e.1 es)) ∧
      (flowReading e.1 (history e.1 es) e.2.label).label =
        if t.Reached (countBehind behind) (flowVector (history e.1 es)) then
          (t.exactClass (flowVector (history e.1 es)) : ℤ) else 0 := by
  have hl : (loadedRun tree ac t behind es).entry e.1 = some e.2 :=
    List.mem_dlookup (loadedRun tree ac t behind es).xdpFlowTracking.table.nodupKeys he
  exact ⟨hpredict e.1 (by rw [hl]; rfl), toInt_label_loadedRun ht hc hes hl⟩

/-- The counts of a complete dump, over the flows of the table. -/
theorem countLabels_dump {dump : List CsvRow}
    (hperm : dump.Perm (entryRows (loadedRun tree ac t behind es).xdpFlowTracking)) (a b : ℤ) :
    countLabels (((dump.map CsvRow.reading).map fun r => predict r.features).zip
        ((dump.map CsvRow.reading).map Reading.label)) a b =
      (loadedRun tree ac t behind es).xdpFlowTracking.table.entries.countP fun e =>
        (t.exactClass (flowVector (history e.1 es)) : ℤ) = a ∧
          (if t.Reached (countBehind behind) (flowVector (history e.1 es)) then
            (t.exactClass (flowVector (history e.1 es)) : ℤ) else 0) = b := by
  rw [countLabels_zip, (readings_perm tree ac _ hperm).countP_eq, List.countP_map]
  refine List.countP_congr fun e he => ?_
  obtain ⟨h1, h2⟩ := evaluated_flow ht hc hes hpredict he
  show decide (predict (flowReading e.1 (history e.1 es) e.2.label).features = a ∧
    (flowReading e.1 (history e.1 es) e.2.label).label = b) = true ↔ _
  rw [h1, h2]

/-- Truth and dump only say `0` and `1`. -/
theorem binary_dump {dump : List CsvRow}
    (hperm : dump.Perm (entryRows (loadedRun tree ac t behind es).xdpFlowTracking)) {y : ℤ × ℤ}
    (hy : y ∈ ((dump.map CsvRow.reading).map fun r => predict r.features).zip
      ((dump.map CsvRow.reading).map Reading.label)) : Binary y := by
  rw [List.zip_map'] at hy
  obtain ⟨r, hr, rfl⟩ := List.mem_map.mp hy
  obtain ⟨e, he, rfl⟩ := List.mem_map.mp ((readings_perm tree ac _ hperm).mem_iff.mp hr)
  obtain ⟨h1, h2⟩ := evaluated_flow ht hc hes hpredict he
  have hlt := exactClass_lt hc (flowVector (history e.1 es))
  refine ⟨h1.symm ▸ ?_, h2.symm ▸ ?_⟩
  · omega
  · split_ifs <;> omega

end Evaluate

theorem analyzeCsv_sklearn (model : Classifier) (h : 1 < model.nClasses) (csvFile : List Char)
    (readLabels : List Char → Option (Option (List ℤ))) {dump : List CsvRow} (hne : dump ≠ []) :
    analyzeCsv model csvFile none readLabels .sklearn (readDataFrame (csvText dump)) =
      .ok (some ((dump.map CsvRow.reading).map (analyzeRow model h),
        calculateMetrics (((dump.map CsvRow.reading).map fun r => model.predict r.features).zip
          ((dump.map CsvRow.reading).map Reading.label)),
        "sklearn predictions".toList)) := by
  have hlen : (dump.map CsvRow.reading).length ≠ 0 := by simpa using hne
  have hcols : ¬ (featuresCols.any fun col => !(csvColumns.splitOn ',').contains col) := by
    decide
  rw [readDataFrame, readCsv_csvText, Option.map_some, analyzeCsv]
  rw [if_neg hlen, if_neg hcols, dif_pos h]
  rfl

/-- **No false positives.** A tree with two classes is loaded, packets pass, and the table is dumped
and evaluated against the predictions of the same tree: no flow is called an anomaly that the tree
calls normal, and the anomalies missed are those whose leaf is too deep or beyond the count. -/
theorem no_false_positives (tree : DtTree maxDtNodes) (ac : Accounting) (t : LoadedTree)
    (ht : t.Separating) (hc : t.nClasses = 2) (behind : List UInt8) (es : List Event)
    (hes : ∀ e ∈ es, e.input?.isSome)
    (hz : Run.Along step (Spares FlowKey.zero) (start tree ac)
      (.reload (updateBpfMap t behind) :: es))
    (hne : (loadedRun tree ac t behind es).xdpFlowTracking.table.entries ≠ [])
    (order : List FlowKey)
    (ho : order.Perm (loadedRun tree ac t behind es).xdpFlowTracking.table.keys)
    (model : Classifier) (hm : model.nClasses = t.nClasses)
    (hpredict : ∀ k, ((loadedRun tree ac t behind es).entry k).isSome →
      model.predict (fun i => flowVector (history k es) i) =
        t.exactClass (flowVector (history k es)))
    (csvFile : List Char) (readLabels : List Char → Option (Option (List ℤ))) :
    ∃ n, ∀ rounds, n ≤ rounds → ∃ text rows m,
      dumpText (loadedRun tree ac t behind es).xdpFlowTracking order rounds = some text ∧
        analyzeCsv model csvFile none readLabels .sklearn (readDataFrame text) =
          .ok (some (rows, m, "sklearn predictions".toList)) ∧
        m.fp = 0 ∧
        m.fn = ((loadedRun tree ac t behind es).xdpFlowTracking.table.entries.countP fun e =>
          t.exactClass (flowVector (history e.1 es)) = 1 ∧
            ¬ t.Reached (countBehind behind) (flowVector (history e.1 es))) ∧
        m.tp + m.tn + m.fn = rows.length := by
  have hclasses : 1 < model.nClasses := by omega
  obtain ⟨dump, ⟨n, hn⟩, hperm⟩ :=
    (dumpExact_iff ho).mpr ((entry_run_eq_none_iff tree ac FlowKey.zero _).mpr hz)
  have hdump : dump ≠ [] := by
    rintro rfl
    exact hne (by simpa [entryRows] using hperm.symm.eq_nil)
  have hcount := countLabels_dump ht hc.le hes hpredict hperm
  set ys := ((dump.map CsvRow.reading).map fun r => model.predict r.features).zip
    ((dump.map CsvRow.reading).map Reading.label) with hys
  have hfp : countLabels ys 0 1 = 0 := by
    rw [hcount, List.countP_eq_zero]
    intro e _
    simp only [decide_eq_true_eq]
    split_ifs <;> omega
  refine ⟨n, fun rounds hr => ⟨csvText dump, _, calculateMetrics ys, ?_,
    analyzeCsv_sklearn model hclasses csvFile readLabels hdump, ?_, ?_, ?_⟩⟩
  · rw [dumpText]
    exact congrArg (Option.map csvText) (hn rounds hr)
  · exact hfp
  · show countLabels ys 1 0 = _
    rw [hcount]
    refine List.countP_congr fun e _ => ?_
    simp only [decide_eq_true_eq]
    split_ifs with hr
    · simp only [hr, not_true_eq_false, and_false, iff_false]
      omega
    · simp only [hr, not_false_eq_true, and_true]
      omega
  · have hall := counts_eq ys
    rw [hfp, Nat.add_zero] at hall
    have hlen : ys.length =
        ((dump.map CsvRow.reading).map (analyzeRow model hclasses)).length := by simp [hys]
    refine hall.trans ((List.countP_eq_length.mpr fun y hy => ?_).trans hlen)
    exact decide_eq_true (binary_dump ht hc.le hes hpredict hperm hy)

end NoFalsePositives

/-- The predictions of the chain with one split. -/
def predictChain (f : Fin maxFeatures → ℚ) : ℤ := if f featureTotalFwdPacket ≤ 1 / 2 then 0 else 1

/-- The chain with one split, trained on one sample of each class. -/
def chainClassifier : Classifier where
  nClasses := 2
  predict := predictChain
  predictProba f c := if (c : ℤ) = predictChain f then 1 else 0

theorem no_false_positives_chain :
    let s := loadedRun (DtTree.zero maxDtNodes) Accounting.zero (loadedChain (n := 1) (by decide))
      countThree [.packet (datagramAt 3000)]
    ∃ n, ∀ rounds, n ≤ rounds → ∃ text rows m,
      dumpText s.xdpFlowTracking s.xdpFlowTracking.table.keys rounds = some text ∧
        analyzeCsv chainClassifier "out.csv".toList none (fun _ => none) .sklearn
          (readDataFrame text) = .ok (some (rows, m, "sklearn predictions".toList)) ∧
        m.fp = 0 := by
  intro s
  have hx : (Event.packet (datagramAt 3000)).pkt? (udpKey 0) = some ⟨3000, 42⟩ := by
    rw [Event.pkt?_packet (flowKey?_datagramAt 3000), datagramAt, length_udpFrame]
    rfl
  have he : s.entry (udpKey 0) = some _ := lookup_step_of_pkt hx
    (Or.inr (by decide : (0 : ℕ) < maxFlowSaved))
  have hne : s.xdpFlowTracking.table.entries ≠ [] :=
    List.ne_nil_of_mem (List.of_mem_dlookup (a := udpKey 0) he)
  have hpkts : ∀ k, (s.entry k).isSome →
      1 ≤ flowVector (history k [.packet (datagramAt 3000)]) featureTotalFwdPacket := by
    intro k hk
    obtain ⟨dp, hdp⟩ := Option.isSome_iff_exists.mp hk
    have hsum := (tracks_run (DtTree.zero maxDtNodes) Accounting.zero _).present k dp hdp
    have hpos : 0 < (history k [.packet (datagramAt 3000)]).length :=
      List.length_pos_of_ne_nil hsum.ne_nil
    have hle : (history k [.packet (datagramAt 3000)]).length ≤ 1 := List.length_filterMap_le _ _
    show 1 ≤ (history k [.packet (datagramAt 3000)]).length % 2 ^ 32
    omega
  have hz : Run.Along step (Spares FlowKey.zero) (start (DtTree.zero maxDtNodes) Accounting.zero)
      [.reload (updateBpfMap (loadedChain (n := 1) (by decide)) countThree),
        .packet (datagramAt 3000)] := by
    refine ⟨fun hc => absurd hc (by decide), ?_, trivial⟩
    rw [Spares, Event.pkt?, datagramAt, flowKey?_udpFrame]
    exact fun hc => absurd hc (by decide)
  have hpredict : ∀ k, (s.entry k).isSome →
      predictChain (fun i => flowVector (history k [.packet (datagramAt 3000)]) i) =
        (chain 1).exactClass (flowVector (history k [.packet (datagramAt 3000)])) := by
    intro k hk
    have hv := hpkts k hk
    have hq : (1 : ℚ) ≤
        flowVector (history k [.packet (datagramAt 3000)]) featureTotalFwdPacket := by
      exact_mod_cast hv
    rw [predictChain, if_neg (by linarith), exactClass_chain hv]
    rfl
  obtain ⟨n, hn⟩ := no_false_positives (DtTree.zero maxDtNodes) Accounting.zero
    (loadedChain (n := 1) (by decide)) (separating_chain (by decide)) rfl countThree
    [.packet (datagramAt 3000)] (by simp [Event.input?]) hz hne _
    (List.Perm.refl _) chainClassifier rfl hpredict "out.csv".toList (fun _ => none)
  refine ⟨n, fun rounds hr => ?_⟩
  obtain ⟨text, rows, m, h1, h2, h3, -⟩ := hn rounds hr
  exact ⟨text, rows, m, h1, h2, h3⟩

end XdpDetector

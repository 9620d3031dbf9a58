import TransferCost.Proofs.Grid
import TransferCost.Proofs.Logged
import TransferCost.Proofs.SignLaw
import TransferCost.Proofs.SizeCosts

/-!
# Metrics that are left out

A reduction relative to zero is left out of an analysis.  This happens in four places: to the
reductions of cost and time of a transfer type, to the reductions of its shares, and to the rows of
the table of costs.  Each `Metric` names one of them.

## 1.  Which metrics are left out

`Analysis.omitted` reads off an analysis which of its metrics are missing, and
`mem_omitted_iff` says that these are the ones whose unoptimized mean counts as zero.  For a share,
that is a mean up to the tolerance of samples, and for all others one of the two zeros.

## 2.  Which of them are reported

Whoever reads the log should find each of them in a warning.  The walk that takes the shares is a
plain function and reports nothing, so the warnings are those of the other three places:
`warnings_ofSufficient`.  The log is complete if and only if no share counts as zero.
-/

namespace TransferCost

/-- A metric that is relative to an unoptimized mean. -/
inductive Metric where
  | cost (t : TransferType)
  | time (t : TransferType)
  | share (t : TransferType) (k : CostKind)
  | costAt (t : TransferType) (amount : Float)
deriving DecidableEq

namespace Metric

/-- There is such a metric in an analysis of the store.  A row of the table needs an amount that its
transfer type has in both modes. -/
def IsTaken (s : Store) : Metric → Prop
  | cost _ | time _ | share _ _ => True
  | costAt t a => Scaling.IsSharedBy s t a

/-- The unoptimized mean that a metric is relative to. -/
def denominator (s : Store) : Metric → Float
  | cost t => meanOf (s.samples ⟨.unoptimized, t⟩) (·.totalCost)
  | time t => meanOf (s.samples ⟨.unoptimized, t⟩) (·.timeMs)
  | share t k => meanOf (s.samples ⟨.unoptimized, t⟩) (·.breakdown.get k)
  | costAt t a => Scaling.meanCostAt s ⟨.unoptimized, t⟩ a

/-- It counts as zero. -/
def CountsAsZero (s : Store) (m : Metric) : Prop :=
  match m with
  | share _ _ => ¬ 1e-6 < m.denominator s
  | cost _ | time _ | costAt _ _ => m.denominator s = 0.0 ∨ m.denominator s = -0.0

/-- The metric of a share. -/
def isShare : Metric → Bool
  | share _ _ => true
  | cost _ | time _ | costAt _ _ => false

/-- The name of a metric.  No log has a name for shares, so that is left open. -/
def name (nameOfShare : TransferType → CostKind → String) : Metric → String
  | cost t => t.key ++ ".cost_reduction"
  | time t => t.key ++ ".time_improvement"
  | share t k => nameOfShare t k
  | costAt t a => SizeCost.metric t a

/-- The line that warns of a missing metric. -/
def warning (nameOfShare : TransferType → CostKind → String) (m : Metric) : String :=
  (Failure.divisionByZero (m.name nameOfShare)).message ++ "; metric omitted"

end Metric

/-! ## 1.  Which metrics are left out -/

/-- The metrics of a transfer type, each with its value. -/
def Improvement.metrics (t : TransferType) (i : Improvement) : List (Metric × Option Float) :=
  (.cost t, i.costReduction) :: (.time t, i.timeReduction) ::
    CostKind.all.map fun k => (.share t k, i.reductionOfKind.get k)

/-- The metric of a row, with its value. -/
def SizeCost.entry (row : SizeCost) : Metric × Option Float :=
  (.costAt row.transferType row.amount, row.costReduction)

/-- The metrics that have no value. -/
def missing (entries : List (Metric × Option Float)) : List Metric :=
  (entries.filter fun e => e.2.isNone).map Prod.fst

theorem mem_missing {entries : List (Metric × Option Float)} {m : Metric} :
    m ∈ missing entries ↔ (m, none) ∈ entries := by
  simp [missing]

theorem missing_append (entries entries' : List (Metric × Option Float)) :
    missing (entries ++ entries') = missing entries ++ missing entries' := by
  rw [missing, List.filter_append, List.map_append]
  rfl

namespace Analysis

variable {s : Store}

/-- The metrics of an analysis, each with its value, in the order in which they are taken. -/
def metrics (a : Analysis) : List (Metric × Option Float) :=
  (TransferType.all.flatMap fun t => (a.types.get t).improvement.metrics t) ++
    a.scaling.costs.map SizeCost.entry

/-- The metrics that are missing from an analysis. -/
def omitted (a : Analysis) : List Metric :=
  missing a.metrics

theorem mem_metrics_cost {a : Analysis} {t : TransferType} {r : Option Float} :
    (.cost t, r) ∈ a.metrics ↔ (a.types.get t).improvement.costReduction = r := by
  cases t <;> simp [metrics, Improvement.metrics, SizeCost.entry, TransferType.all, eq_comm]

theorem mem_metrics_time {a : Analysis} {t : TransferType} {r : Option Float} :
    (.time t, r) ∈ a.metrics ↔ (a.types.get t).improvement.timeReduction = r := by
  cases t <;> simp [metrics, Improvement.metrics, SizeCost.entry, TransferType.all, eq_comm]

theorem mem_metrics_share {a : Analysis} {t : TransferType} {k : CostKind} {r : Option Float} :
    (.share t k, r) ∈ a.metrics ↔ (a.types.get t).improvement.reductionOfKind.get k = r := by
  cases t <;> simp [metrics, Improvement.metrics, SizeCost.entry, TransferType.all, k.mem_all]

theorem mem_metrics_costAt {a : Analysis} {t : TransferType} {x : Float} {r : Option Float} :
    (.costAt t x, r) ∈ a.metrics ↔
      ∃ row ∈ a.scaling.costs, row.transferType = t ∧ row.amount = x ∧ row.costReduction = r := by
  simp [metrics, Improvement.metrics, SizeCost.entry, and_assoc]

theorem types_ofSufficient (s : Store) (t : TransferType) :
    (ofSufficient s).value.types.get t = (TypeAnalysis.ofStore s t).value := by
  cases t <;> rfl

theorem improvement_ofStore (s : Store) (t : TransferType) :
    (TypeAnalysis.ofStore s t).value.improvement =
      (Improvement.between t.key (.ofSamples (s.samples ⟨.optimized, t⟩))
        (.ofSamples (s.samples ⟨.unoptimized, t⟩))).value := rfl

theorem mem_costs_iff {row : SizeCost} : row ∈ (Scaling.ofStore s).value.costs ↔
    ∃ t a, Scaling.IsSharedBy s t a ∧ Scaling.rowAt s t a = row := by
  have hblock (t : TransferType) : row ∈ (Scaling.costsOfType s t).value ↔
      ∃ a, Scaling.IsSharedBy s t a ∧ Scaling.rowAt s t a = row := by
    simp only [Scaling.isSharedBy_iff, Scaling.costsOfType, Logged.value_mapM, List.mem_map]
    rfl
  rw [Scaling.costs_ofStore, List.mem_append, hblock, hblock]
  constructor
  · rintro (h | h)
    · exact ⟨_, h⟩
    · exact ⟨_, h⟩
  · rintro ⟨t, h⟩
    cases t
    · exact .inl h
    · exact .inr h

theorem costReduction_rowAt_eq_none_iff {t : TransferType} {a : Float} :
    (Scaling.rowAt s t a).costReduction = none ↔
      Scaling.meanCostAt s ⟨.unoptimized, t⟩ a = 0.0 ∨
        Scaling.meanCostAt s ⟨.unoptimized, t⟩ a = -0.0 := by
  rw [Scaling.meanCostAt_eq]
  exact value_reductionOrOmit_eq_none_iff _

/-- **A metric is left out if and only if its unoptimized mean counts as zero.** -/
theorem mem_omitted_iff {m : Metric} :
    m ∈ (ofSufficient s).value.omitted ↔ m.IsTaken s ∧ m.CountsAsZero s := by
  rw [omitted, mem_missing]
  cases m with
  | cost t =>
    rw [mem_metrics_cost, types_ofSufficient, improvement_ofStore]
    exact (value_reductionOrOmit_eq_none_iff _).trans (iff_of_eq (true_and _)).symm
  | time t =>
    rw [mem_metrics_time, types_ofSufficient, improvement_ofStore]
    exact (value_reductionOrOmit_eq_none_iff _).trans (iff_of_eq (true_and _)).symm
  | share t k =>
    rw [mem_metrics_share, types_ofSufficient, improvement_ofStore]
    simp only [Improvement.between, Means.ofSamples, Logged.value_bind, Logged.value_pure,
      PerKind.get_ofFn]
    exact shareReduction_eq_none_iff.trans (iff_of_eq (true_and _)).symm
  | costAt t a =>
    rw [mem_metrics_costAt, scaling_ofSufficient]
    constructor
    · rintro ⟨row, hrow, rfl, rfl, hnone⟩
      obtain ⟨t, a, hshared, rfl⟩ := mem_costs_iff.mp hrow
      exact ⟨hshared, costReduction_rowAt_eq_none_iff.mp hnone⟩
    · rintro ⟨hshared, hzero⟩
      exact ⟨_, mem_costs_iff.mpr ⟨t, a, hshared, rfl⟩, rfl, rfl,
        costReduction_rowAt_eq_none_iff.mpr hzero⟩

theorem nodup_sharedAmounts (optimized unoptimized : List Sample) :
    (sharedAmounts optimized unoptimized).Nodup :=
  (List.mergeSort_perm _ _).nodup_iff.mpr ((AmountGroups.nodup_distinct _).filter _)

/-- The metrics of the table of costs, block by block. -/
theorem map_entry_costs (s : Store) :
    ((Scaling.ofStore s).value.costs.map SizeCost.entry).map Prod.fst =
      TransferType.all.flatMap fun t =>
        (sharedAmounts (s.samples ⟨.optimized, t⟩) (s.samples ⟨.unoptimized, t⟩)).map
          (Metric.costAt t) := by
  have hblock (t : TransferType) :
      ((Scaling.costsOfType s t).value.map SizeCost.entry).map Prod.fst =
        (sharedAmounts (s.samples ⟨.optimized, t⟩) (s.samples ⟨.unoptimized, t⟩)).map
          (Metric.costAt t) := by
    rw [Scaling.costsOfType, Logged.value_mapM, List.map_map, List.map_map]
    rfl
  rw [Scaling.costs_ofStore, List.map_append, List.map_append, hblock, hblock]
  simp [TransferType.all]

/-- **No metric is taken twice.** -/
theorem nodup_metrics (s : Store) : ((ofSufficient s).value.metrics.map Prod.fst).Nodup := by
  have htypes : (TransferType.all.flatMap fun t =>
      ((ofSufficient s).value.types.get t).improvement.metrics t).map Prod.fst =
        TransferType.all.flatMap fun t => .cost t :: .time t :: CostKind.all.map (.share t) := rfl
  rw [metrics, List.map_append, htypes, scaling_ofSufficient, map_entry_costs]
  refine List.Nodup.append (by decide) (List.nodup_flatMap.mpr ⟨?_, ?_⟩) ?_
  · intro t ht
    exact (nodup_sharedAmounts _ _).map fun a a' h => (Metric.costAt.inj h).2
  · simp [TransferType.all, List.Disjoint]
  · simp [TransferType.all, CostKind.all, List.Disjoint]

theorem nodup_omitted (s : Store) : (ofSufficient s).value.omitted.Nodup :=
  (nodup_metrics s).sublist (List.filter_sublist.map Prod.fst)

end Analysis

/-! ## 2.  Which of them are reported -/

namespace Logged

variable {α β : Type}

/-- The warnings on the way to a result. -/
def warnings (x : Logged α) : List Event :=
  x.events.filter fun e => decide (e.level = .warn)

@[simp] theorem warnings_pure (a : α) : (pure a : Logged α).warnings = [] := rfl

@[simp] theorem warnings_map (f : α → β) (x : Logged α) : (f <$> x).warnings = x.warnings := by
  rw [warnings, events_map, warnings]

@[simp] theorem warnings_bind (x : Logged α) (f : α → Logged β) :
    (x >>= f).warnings = x.warnings ++ (f x.value).warnings := by
  rw [warnings, events_bind, List.filter_append]
  rfl

theorem warnings_report (e : Event) :
    (report e).warnings = if e.level = .warn then [e] else [] := by
  split_ifs with h <;> simp [warnings, h]

theorem warnings_mapM (f : α → Logged β) (as : List α) :
    (as.mapM f).warnings = as.flatMap fun a => (f a).warnings := by
  induction as with
  | nil => rfl
  | cons a rest ih => simp [List.mapM_cons, ih]

end Logged

section Reports

variable (nameOfShare : TransferType → CostKind → String)

/-- The reports of those missing metrics that are no shares. -/
def reports (entries : List (Metric × Option Float)) : List Event :=
  ((missing entries).filter fun m => !m.isShare).map fun m => .metricOmitted (m.name nameOfShare)

theorem reports_append (entries entries' : List (Metric × Option Float)) :
    reports nameOfShare (entries ++ entries') =
      reports nameOfShare entries ++ reports nameOfShare entries' := by
  simp [reports, missing_append]

theorem reports_cons (e : Metric × Option Float) (entries : List (Metric × Option Float)) :
    reports nameOfShare (e :: entries) =
      reports nameOfShare [e] ++ reports nameOfShare entries :=
  reports_append nameOfShare [e] entries

theorem reports_shares (t : TransferType) (value : CostKind → Option Float) :
    reports nameOfShare (CostKind.all.map fun k => (.share t k, value k)) = [] := by
  have hshares : ∀ m ∈ missing (CostKind.all.map fun k => (.share t k, value k)),
      m.isShare = true := by
    intro m hm
    obtain ⟨k, -, hk⟩ := List.mem_map.mp (mem_missing.mp hm)
    obtain rfl : Metric.share t k = m := congrArg Prod.fst hk
    rfl
  rw [reports, List.map_eq_nil_iff, List.filter_eq_nil_iff]
  intro m hm
  rw [hshares m hm]
  exact Bool.false_ne_true

theorem warnings_reductionOrOmit {m : Metric} (hm : m.isShare = false) (o u : Float) :
    (reductionOrOmit (m.name nameOfShare) o u).warnings =
      reports nameOfShare [(m, (reductionOrOmit (m.name nameOfShare) o u).value)] := by
  unfold reductionOrOmit relativeReduction
  by_cases h : (u == 0.0) = true
  · simp [h, hm, reports, missing, Logged.warnings, Event.level]
  · simp [h, reports, missing]

/-- A transfer type reports what it lacks, but for shares. -/
theorem warnings_between (t : TransferType) (o u : Means) :
    (Improvement.between t.key o u).warnings =
      reports nameOfShare ((Improvement.between t.key o u).value.metrics t) := by
  rw [Improvement.metrics, reports_cons, reports_cons nameOfShare (.time t, _), reports_shares,
    List.append_nil]
  simp only [Improvement.between, Logged.warnings_bind, Logged.warnings_pure, Logged.value_bind,
    Logged.value_pure, List.append_nil]
  congr 1
  · exact warnings_reductionOrOmit nameOfShare (m := .cost t) rfl o.totalCost u.totalCost
  · exact warnings_reductionOrOmit nameOfShare (m := .time t) rfl o.timeMs u.timeMs

/-- A block of the table reports each row without a reduction. -/
theorem warnings_costsOfType (s : Store) (t : TransferType) :
    (Scaling.costsOfType s t).warnings =
      reports nameOfShare ((Scaling.costsOfType s t).value.map SizeCost.entry) := by
  rw [Scaling.costsOfType, Logged.warnings_mapM, Logged.value_mapM]
  induction sharedAmounts (s.samples ⟨.optimized, t⟩) (s.samples ⟨.unoptimized, t⟩) with
  | nil => rfl
  | cons a rest ih =>
    rw [List.flatMap_cons, List.map_cons, List.map_cons, reports_cons, ih]
    congr 1
    simp only [SizeCost.ofSamples, Logged.warnings_bind, Logged.warnings_pure, List.append_nil]
    exact warnings_reductionOrOmit nameOfShare (m := .costAt t a) rfl _ _

theorem warnings_scaling (s : Store) : (Scaling.ofStore s).warnings =
    reports nameOfShare ((Scaling.ofStore s).value.costs.map SizeCost.entry) := by
  have hoptimum (points : List ScalingPoint) (optimum : Option ScalingOptimum) :
      (Scaling.optimumEvent points optimum).level = .info := by
    cases optimum <;> rfl
  rw [Scaling.costs_ofStore, List.map_append, reports_append, ← warnings_costsOfType,
    ← warnings_costsOfType]
  simp [Scaling.ofStore, Logged.warnings_report, hoptimum]

theorem warnings_type (s : Store) (t : TransferType) : (TypeAnalysis.ofStore s t).warnings =
    reports nameOfShare ((TypeAnalysis.ofStore s t).value.improvement.metrics t) := by
  unfold TypeAnalysis.ofStore
  simp only [Logged.warnings_bind, Logged.warnings_pure, Logged.value_bind, Logged.value_pure,
    List.append_nil]
  rw [Logged.warnings_report, if_neg (by simp [Event.level]), List.nil_append,
    warnings_between nameOfShare]

theorem Analysis.warnings_eq_append (s : Store) : (ofSufficient s).warnings =
    (TypeAnalysis.ofStore s .singleRecipient).warnings ++
      ((TypeAnalysis.ofStore s .multiWallet).warnings ++ (Scaling.ofStore s).warnings) := by
  unfold ofSufficient
  rw [Logged.warnings_bind, Logged.warnings_bind, Logged.warnings_bind, Logged.warnings_bind,
    Logged.warnings_pure, Logged.warnings_report, if_neg (by simp [Event.level]),
    List.nil_append, List.append_nil]

theorem Analysis.metrics_ofSufficient (s : Store) : (ofSufficient s).value.metrics =
    (TypeAnalysis.ofStore s .singleRecipient).value.improvement.metrics .singleRecipient ++
      ((TypeAnalysis.ofStore s .multiWallet).value.improvement.metrics .multiWallet ++
        (Scaling.ofStore s).value.costs.map SizeCost.entry) := by
  rw [metrics, scaling_ofSufficient, ← List.append_assoc]
  simp only [TransferType.all, List.flatMap_cons, List.flatMap_nil, List.append_nil,
    types_ofSufficient]

/-- **An analysis reports each missing metric that is no share, in the order in which they are
taken, and warns of nothing else.** -/
theorem Analysis.warnings_ofSufficient (s : Store) :
    (ofSufficient s).warnings = reports nameOfShare (ofSufficient s).value.metrics := by
  rw [warnings_eq_append, metrics_ofSufficient, reports_append, reports_append,
    ← warnings_type, ← warnings_type, ← warnings_scaling]

end Reports

theorem Event.text_metricOmitted (metric : String) : (metricOmitted metric).text =
    (Failure.divisionByZero metric).message ++ "; metric omitted" := by
  change _ ++ ("'" ++ "; metric omitted") = _
  rw [← String.append_assoc]
  rfl

namespace Analysis

variable {s : Store} {threshold : ℕ} {a : Analysis}

theorem ofStore_of_ok (ha : (ofStore s threshold).value = .ok a) :
    ofStore s threshold = .ok <$> ofSufficient s := by
  unfold ofStore at ha ⊢
  cases hcheck : s.check threshold with
  | error e =>
    rw [hcheck] at ha
    exact absurd ha (by simp)
  | ok done => rfl

/-- The warnings in a log, line by line. -/
def warningLines (events : List Event) : List String :=
  (events.filter fun e => decide (e.level = .warn)).map Event.text

/-- What a log tells of the metrics that are missing from an analysis. -/
structure TellsOmissions (s : Store) (nameOfShare : TransferType → CostKind → String)
    (lines : List String) (a : Analysis) : Prop where
  /-- The missing metrics are those whose unoptimized mean counts as zero. -/
  omitted : ∀ m, m ∈ a.omitted ↔ m.IsTaken s ∧ m.CountsAsZero s
  nodup : a.omitted.Nodup
  /-- There is one line for each of them that is no share, and no other line. -/
  reported : lines = (a.omitted.filter fun m => !m.isShare).map (·.warning nameOfShare)
  /-- There is one line for each missing metric at all if and only if no share is missing. -/
  complete : lines.Perm (a.omitted.map (·.warning nameOfShare)) ↔
    ∀ t k, ¬ (Metric.share t k).CountsAsZero s

/-- **An analysis warns of each metric that it leaves out, unless it is a share.**  The metrics that
it leaves out are those whose unoptimized mean counts as zero, each of them once.  The warnings of
the run are the lines of those that are no shares, in the order in which they are taken, and nothing
else.  So there is a warning for each metric left out if and only if no share counts as zero: a
share that does is left out in silence, whatever it would be called in the log. -/
theorem warnings_of_omissions (ha : (ofStore s threshold).value = .ok a)
    (nameOfShare : TransferType → CostKind → String) :
    TellsOmissions s nameOfShare (warningLines (ofStore s threshold).events) a := by
  have hlog := ofStore_of_ok ha
  obtain rfl : (ofSufficient s).value = a := by
    rw [hlog] at ha
    exact Except.ok.inj ha
  have hlines : warningLines (ofStore s threshold).events =
      ((ofSufficient s).value.omitted.filter fun m => !m.isShare).map (·.warning nameOfShare) := by
    have hwarnings := warnings_ofSufficient nameOfShare s
    rw [Logged.warnings] at hwarnings
    rw [hlog, Logged.events_map, warningLines, hwarnings, reports, List.map_map]
    exact List.map_congr_left fun m _ => Event.text_metricOmitted _
  refine ⟨fun m => mem_omitted_iff, nodup_omitted s, hlines, ?_⟩
  rw [hlines]
  constructor
  · intro hperm t k hzero
    have hlength := hperm.length_eq
    rw [List.length_map, List.length_map, List.length_filter_eq_length_iff] at hlength
    have hmem : Metric.share t k ∈ (ofSufficient s).value.omitted :=
      mem_omitted_iff.mpr ⟨True.intro, hzero⟩
    exact absurd (hlength _ hmem) Bool.false_ne_true
  · intro hshares
    have hnone : ∀ m ∈ (ofSufficient s).value.omitted, (!m.isShare) = true := by
      rintro m hm
      cases m with
      | share t k => exact absurd (mem_omitted_iff.mp hm).2 (hshares t k)
      | cost t => rfl
      | time t => rfl
      | costAt t a => rfl
    rw [List.filter_eq_self.mpr hnone]

/-- Samples with two kinds of cost and no time. -/
def costsOfTwoKinds : Store :=
  ⟨.fill [{ Scaling.oneSubunit with breakdown := ⟨0.5, 0.5, 0.0, 0.0⟩ }]⟩

/-- A name for shares. -/
def pathOfShare (t : TransferType) (k : CostKind) : String :=
  t.key ++ ".cost_reduction_by_type." ++ k.key

/-- The times are warned of, and the overheads are not. -/
theorem warnings_of_omissions_two_kinds : ∃ a, (ofStore costsOfTwoKinds 1).value = .ok a ∧
    TellsOmissions costsOfTwoKinds pathOfShare (warningLines (ofStore costsOfTwoKinds 1).events) a ∧
    .time .multiWallet ∈ a.omitted ∧ .share .multiWallet .overhead ∈ a.omitted ∧
    ¬ (warningLines (ofStore costsOfTwoKinds 1).events).Perm
      (a.omitted.map (·.warning pathOfShare)) := by
  have hok : (ofStore costsOfTwoKinds 1).value = .ok (ofSufficient costsOfTwoKinds).value := rfl
  have htells := warnings_of_omissions hok pathOfShare
  have htime : (Metric.time .multiWallet).CountsAsZero costsOfTwoKinds :=
    .inl (by decide +kernel)
  have hoverhead : (Metric.share .multiWallet .overhead).CountsAsZero costsOfTwoKinds := by
    change ¬ 1e-6 < meanOf (costsOfTwoKinds.samples ⟨.unoptimized, .multiWallet⟩)
      (·.breakdown.get .overhead)
    decide +kernel
  exact ⟨_, hok, htells, (htells.omitted _).mpr ⟨True.intro, htime⟩,
    (htells.omitted _).mpr ⟨True.intro, hoverhead⟩,
    fun hperm => htells.complete.mp hperm _ _ hoverhead⟩

end Analysis
end TransferCost

import Mathlib.Data.List.Fold
import SenhubAgent.Http.Nagios

/-!
# The status of a Nagios check

What a check answers in terms of what it evaluated. A channel evaluates its series one by
one, their aggregate, or the state of each (`evaluations`); it is unmeasured when it has no
series, or none with a number to aggregate. The check then answers the highest status
number (`CheckRun.status_eq`), in which UNKNOWN stands above CRITICAL: a check with
a critical series answers CRITICAL, unless a channel is unmeasured or an evaluation is
UNKNOWN, when it answers UNKNOWN (`CheckRun.critical_reported`).
-/

namespace SenhubAgent.Http.Nagios

open SenhubAgent.Lib SenhubAgent.Otlp

/-! ## The highest of a list of statuses -/

theorem worst_eq_foldr (statuses : List Nat) : worst statuses = statuses.foldr max 0 := by
  have hstep : (fun worst status : Nat => if status > worst then status else worst) = max := by
    funext worst status
    split <;> omega
  unfold worst
  rw [hstep, List.foldl_eq_foldr]

variable {statuses : List Nat}

theorem le_worst {status : Nat} (h : status ∈ statuses) : status ≤ worst statuses := by
  rw [worst_eq_foldr]
  induction statuses with
  | nil => cases h
  | cons first rest ih =>
    rw [List.foldr_cons]
    cases List.mem_cons.mp h with
    | inl hfirst => omega
    | inr hrest =>
      have := ih hrest
      omega

/-- The highest status is OK or one of the list. -/
theorem worst_mem (statuses : List Nat) : worst statuses = 0 ∨ worst statuses ∈ statuses := by
  rw [worst_eq_foldr]
  induction statuses with
  | nil => exact Or.inl rfl
  | cons first rest ih =>
    rw [List.foldr_cons, List.mem_cons]
    cases Nat.le_total first (rest.foldr max 0) with
    | inl hle =>
      rw [Nat.max_eq_right hle]
      cases ih with
      | inl hzero => exact Or.inl hzero
      | inr hmem => exact Or.inr (Or.inr hmem)
    | inr hge =>
      rw [Nat.max_eq_left hge]
      exact Or.inr (Or.inl rfl)

theorem worst_eq_zero_iff (statuses : List Nat) :
    worst statuses = 0 ↔ ∀ status ∈ statuses, status = 0 := by
  constructor
  · intro hzero status hmem
    have := le_worst hmem
    omega
  · intro hall
    cases worst_mem statuses with
    | inl hzero => exact hzero
    | inr hmem => exact hall _ hmem

/-- Over statuses up to `top`, the highest is `top` exactly when `top` is one of them. -/
theorem worst_eq_top_iff {top : Nat} (htop : 0 < top) (hall : ∀ status ∈ statuses, status ≤ top) :
    worst statuses = top ↔ top ∈ statuses := by
  constructor
  · intro heq
    cases worst_mem statuses with
    | inl hzero => omega
    | inr hmem => exact heq ▸ hmem
  · intro hmem
    have hle := le_worst hmem
    cases worst_mem statuses with
    | inl hzero => omega
    | inr hworst =>
      have := hall _ hworst
      omega

section Status

variable {F : Type} (env : Env F)

/-! ## What a channel evaluates -/

/-- How a channel's series are evaluated. -/
inductive Mode
  | states
  | aggregated
  | separate
deriving DecidableEq

/-- The mode of a channel with the series given; `none` without a series. -/
def channelMode (metricDef : NagiosMetric) (metrics : List (CheckedMetric F)) : Option Mode :=
  (matchingMetrics metricDef metrics).head?.map fun first =>
    if declaresStates env first then .states
    else if metricDef.aggregates then .aggregated
    else .separate

/-- The status of the aggregate of the series that are numbers, if there are any. -/
def aggregateStatus (metricDef : NagiosMetric) (metrics : List (CheckedMetric F))
    (overrides : NagiosOverrides) : Option Nat :=
  match metrics.filterMap numericValue with
  | [] => none
  | value :: values =>
    some (evaluateThreshold env (aggregateValues env (value :: values) metricDef.aggregation)
      (overridden overrides.warning metricDef.warning)
      (overridden overrides.critical metricDef.critical) metricDef.invert)

/-- The status of one series against its own thresholds, if it is a `float64`. -/
def seriesStatus (metricDef : NagiosMetric) (overrides : NagiosOverrides)
    (metric : CheckedMetric F) : Option Nat :=
  match metric.value with
  | .float64 val =>
    some (evaluateThreshold env val
      (overridden overrides.warning (tagSpecificThresholds metricDef metric).1)
      (overridden overrides.critical (tagSpecificThresholds metricDef metric).2)
      metricDef.invert)
  | _ => none

/-- The statuses of what a channel evaluates. -/
def evaluations (metricDef : NagiosMetric) (metrics : List (CheckedMetric F))
    (overrides : NagiosOverrides) : List Nat :=
  let series := matchingMetrics metricDef metrics
  match channelMode env metricDef metrics with
  | none => []
  | some .states => series.map fun metric => (convertHealthToNagiosStatus env metric).status
  | some .aggregated => (aggregateStatus env metricDef series overrides).toList
  | some .separate => series.filterMap (seriesStatus env metricDef overrides)

/-- A channel without a series, or without a number to aggregate. -/
def Unmeasured (metricDef : NagiosMetric) (metrics : List (CheckedMetric F)) : Prop :=
  matchingMetrics metricDef metrics = [] ∨
    (channelMode env metricDef metrics = some .aggregated ∧
      (matchingMetrics metricDef metrics).filterMap numericValue = [])

/-! ## Statuses stay between OK and UNKNOWN -/

theorem evaluateThreshold_le (value : F) (warning critical : String) (invert : Bool) :
    evaluateThreshold env value warning critical invert ≤ 3 := by
  unfold evaluateThreshold
  dsimp only
  repeat' split
  all_goals omega

theorem convertHealthToNagiosStatus_le (metric : CheckedMetric F) :
    (convertHealthToNagiosStatus env metric).status ≤ 3 := by
  unfold convertHealthToNagiosStatus
  split
  next => exact Nat.le_refl 3
  next healthValue _ =>
    split
    next lookupValue _ =>
      show severityToNagiosStatus env lookupValue.severity ≤ 3
      unfold severityToNagiosStatus
      split <;> omega
    next =>
      unfold standardHealth
      repeat' split
      all_goals simp

section

variable (metricDef : NagiosMetric) (metrics : List (CheckedMetric F)) (overrides : NagiosOverrides)

theorem evaluations_le : ∀ status ∈ evaluations env metricDef metrics overrides, status ≤ 3 := by
  intro status hmem
  unfold evaluations at hmem
  split at hmem
  next => cases hmem
  next =>
    obtain ⟨metric, _, rfl⟩ := List.mem_map.mp hmem
    exact convertHealthToNagiosStatus_le env metric
  next =>
    have hsome := Option.mem_toList.mp hmem
    unfold aggregateStatus at hsome
    split at hsome
    next => cases hsome
    next =>
      cases hsome
      exact evaluateThreshold_le env _ _ _ _
  next =>
    obtain ⟨metric, _, hsome⟩ := List.mem_filterMap.mp hmem
    unfold seriesStatus at hsome
    split at hsome
    next =>
      cases hsome
      exact evaluateThreshold_le env _ _ _ _
    next => cases hsome

/-! ## The status of a channel -/

theorem separateSeries_status (overrides : NagiosOverrides) (metric : CheckedMetric F) :
    (separateSeries env metricDef overrides metric).map (·.status)
      = seriesStatus env metricDef overrides metric := by
  unfold separateSeries seriesStatus
  cases metric.value with
  | float64 val => rfl
  | float32 val => rfl
  | integer val => rfl
  | other => rfl

theorem processNagiosMetricSeparate_status :
    (processNagiosMetricSeparate env metricDef metrics overrides).status
      = worst (metrics.filterMap (seriesStatus env metricDef overrides)) := by
  show worst ((metrics.filterMap (separateSeries env metricDef overrides)).map (·.status)) = _
  rw [List.map_filterMap]
  congr 2
  funext metric
  exact separateSeries_status env metricDef overrides metric

theorem processNagiosMetricAggregated_status :
    (processNagiosMetricAggregated env metricDef metrics overrides).status
      = (aggregateStatus env metricDef metrics overrides).getD 3 := by
  unfold processNagiosMetricAggregated aggregateStatus
  cases metrics.filterMap numericValue with
  | nil => rfl
  | cons value values => rfl

theorem processNagiosHealthMetric_status :
    (processNagiosHealthMetric env metricDef metrics).status
      = worst (metrics.map fun metric => (convertHealthToNagiosStatus env metric).status) := by
  unfold processNagiosHealthMetric
  simp only [List.map_map, Function.comp_def]

/-- An unmeasured channel is UNKNOWN; another has the highest status it evaluated. -/
theorem processNagiosMetric_status :
    (Unmeasured env metricDef metrics ∧
        (processNagiosMetric env metricDef metrics overrides).status = 3) ∨
      (¬ Unmeasured env metricDef metrics ∧
        (processNagiosMetric env metricDef metrics overrides).status
          = worst (evaluations env metricDef metrics overrides)) := by
  unfold Unmeasured processNagiosMetric evaluations channelMode
  cases matchingMetrics metricDef metrics with
  | nil => exact Or.inl ⟨Or.inl rfl, rfl⟩
  | cons first rest =>
    simp only [List.head?_cons, Option.map_some, reduceCtorEq, false_or]
    by_cases hstates : declaresStates env first
    · refine Or.inr ⟨by simp [hstates], ?_⟩
      simp only [hstates, if_true]
      exact processNagiosHealthMetric_status env metricDef (first :: rest)
    · by_cases haggregates : metricDef.aggregates
      · simp only [hstates, haggregates, if_true, Bool.false_eq_true, if_false, true_and,
          processNagiosMetricAggregated_status]
        unfold aggregateStatus
        cases hvalues : (first :: rest).filterMap numericValue with
        | nil => exact Or.inl ⟨rfl, rfl⟩
        | cons value values => exact Or.inr ⟨by simp, by simp [worst]⟩
      · refine Or.inr ⟨by simp [hstates, haggregates], ?_⟩
        simp only [hstates, haggregates, Bool.false_eq_true, if_false]
        exact processNagiosMetricSeparate_status env metricDef (first :: rest) overrides

theorem processNagiosMetric_le :
    (processNagiosMetric env metricDef metrics overrides).status ≤ 3 := by
  cases processNagiosMetric_status env metricDef metrics overrides with
  | inl hunmeasured => exact Nat.le_of_eq hunmeasured.2
  | inr hmeasured =>
    rw [hmeasured.2]
    cases worst_mem (evaluations env metricDef metrics overrides) with
    | inl hzero => omega
    | inr hmem => exact evaluations_le env metricDef metrics overrides _ hmem

/-- A channel is UNKNOWN when it is unmeasured or evaluates something to UNKNOWN. -/
theorem processNagiosMetric_unknown_iff :
    (processNagiosMetric env metricDef metrics overrides).status = 3 ↔
      Unmeasured env metricDef metrics ∨ 3 ∈ evaluations env metricDef metrics overrides := by
  have htop := worst_eq_top_iff (by decide) (evaluations_le env metricDef metrics overrides)
  cases processNagiosMetric_status env metricDef metrics overrides with
  | inl hunmeasured => exact ⟨fun _ => Or.inl hunmeasured.1, fun _ => hunmeasured.2⟩
  | inr hmeasured =>
    rw [hmeasured.2, htop]
    exact ⟨Or.inr, fun h => h.resolve_left hmeasured.1⟩

end

/-- A channel with a series evaluates something, unless its series are held one by one
against the thresholds and none of them is a `float64`. -/
theorem evaluations_ne_nil {metricDef : NagiosMetric} {metrics : List (CheckedMetric F)}
    (overrides : NagiosOverrides) (hmeasured : ¬ Unmeasured env metricDef metrics)
    (hreadable : channelMode env metricDef metrics = some .separate →
      ∃ metric ∈ matchingMetrics metricDef metrics, ∃ v, metric.value = .float64 v) :
    evaluations env metricDef metrics overrides ≠ [] := by
  obtain ⟨hseries, hnumeric⟩ := not_or.mp hmeasured
  unfold evaluations
  cases hmode : channelMode env metricDef metrics with
  | none =>
    unfold channelMode at hmode
    rw [Option.map_eq_none_iff, List.head?_eq_none_iff] at hmode
    exact absurd hmode hseries
  | some mode =>
    cases mode with
    | states => simpa using hseries
    | aggregated =>
      unfold aggregateStatus
      cases hvalues : (matchingMetrics metricDef metrics).filterMap numericValue with
      | nil => exact absurd ⟨hmode, hvalues⟩ hnumeric
      | cons value values => simp [hvalues]
    | separate =>
      obtain ⟨metric, hmem, v, hv⟩ := hreadable hmode
      intro hnil
      have hnone := List.filterMap_eq_nil_iff.mp hnil metric hmem
      simp [seriesStatus, hv] at hnone

end Status

/-! ## The status of the check -/

theorem slice_of_nothing {α : Type} {start stop : Int} {page : List α}
    (h : sliceOf [] start stop = some page) : page = [] := by
  unfold sliceOf at h
  split at h
  · rw [← Option.some.inj h, List.drop_nil, List.take_nil]
  · exact absurd h (by simp)

/-- No page of nothing holds a series. -/
theorem page_of_nothing {α τ : Type} [DecidableEq τ] {view : SeriesView α τ} {f : MetricFilter τ}
    {page : List α} (h : applyMetricFilter view [] f = some page) : page = [] := by
  unfold applyMetricFilter at h
  split at h
  · exact (Option.some.inj h).symm
  · unfold pageOf at h
    split at h
    · exact (Option.some.inj h).symm
    · exact slice_of_nothing h

/-- One run of a check: what the agent knows, the cache, and the request. -/
structure CheckRun (F : Type) where
  env : Env F
  cache : List (CheckedMetric F)
  check : NagiosCheck
  filter : MetricFilter String
  overrides : NagiosOverrides

namespace CheckRun

variable {F : Type} (run : CheckRun F)

/-- The status of the answer; `none` for a check that panics on its page. -/
def status : Option Nat :=
  (executeNagiosCheck run.env run.cache run.check run.filter run.overrides).map (·.status)

/-- The series in scope. -/
def metrics : List (CheckedMetric F) :=
  (checkMetrics run.env run.cache run.check run.filter run.overrides).getD []

def evaluations (metricDef : NagiosMetric) : List Nat :=
  Nagios.evaluations run.env metricDef run.metrics run.overrides

def Unmeasured (metricDef : NagiosMetric) : Prop :=
  Nagios.Unmeasured run.env metricDef run.metrics

def channelStatus (metricDef : NagiosMetric) : Nat :=
  (processNagiosMetric run.env metricDef run.metrics run.overrides).status

/-- A channel whose series are held one by one against the thresholds has a `float64`. -/
def Readable (metricDef : NagiosMetric) : Prop :=
  channelMode run.env metricDef run.metrics = some .separate →
    ∃ metric ∈ matchingMetrics metricDef run.metrics, ∃ v, metric.value = .float64 v

theorem metrics_of_no_probe (h : probeMetrics run.env run.cache run.check = []) :
    run.metrics = [] := by
  have htags : applyNagiosTagFilters (probeMetrics run.env run.cache run.check)
      run.check.tagFilters = [] := by
    rw [h]
    rfl
  unfold metrics checkMetrics
  rw [htags]
  cases hpage : applyMetricFilter (metricView id) [] run.filter with
  | none => rfl
  | some page =>
    rw [page_of_nothing hpage]
    rfl

variable {status : Nat}

/-- Without a series in scope a check is UNKNOWN; otherwise its status is the highest of
its channels'. -/
theorem status_eq (hanswered : run.status = some status) :
    (run.metrics = [] ∧ status = 3) ∨
      (run.metrics ≠ [] ∧ status = worst (run.check.metrics.map run.channelStatus)) := by
  unfold CheckRun.status executeNagiosCheck at hanswered
  by_cases hprobe : probeMetrics run.env run.cache run.check = []
  · rw [if_pos hprobe] at hanswered
    exact Or.inl ⟨run.metrics_of_no_probe hprobe, (Option.some.inj hanswered).symm⟩
  · rw [if_neg hprobe, Option.map_map] at hanswered
    obtain ⟨metrics, hmetrics, hresponse⟩ := Option.map_eq_some_iff.mp hanswered
    have hscope : run.metrics = metrics := by
      unfold CheckRun.metrics
      rw [hmetrics]
      rfl
    rw [hscope, ← hresponse]
    unfold channelStatus
    rw [hscope]
    by_cases hempty : metrics = []
    · refine Or.inl ⟨hempty, ?_⟩
      rw [Function.comp_apply, checkResponse, if_pos hempty]
    · refine Or.inr ⟨hempty, ?_⟩
      rw [Function.comp_apply, checkResponse, if_neg hempty]
      dsimp only
      rw [List.map_map]
      rfl

variable {metricDef : NagiosMetric}

/-- Something is evaluated only on a series in scope. -/
theorem metrics_of_evaluated {evaluated : Nat} (h : evaluated ∈ run.evaluations metricDef) :
    run.metrics ≠ [] := by
  intro hempty
  unfold evaluations at h
  rw [hempty] at h
  cases h

theorem channelStatus_le (s : Nat) (h : s ∈ run.check.metrics.map run.channelStatus) : s ≤ 3 := by
  obtain ⟨metricDef, _, hs⟩ := List.mem_map.mp h
  rw [← hs]
  exact processNagiosMetric_le run.env metricDef run.metrics run.overrides

theorem status_unknown_iff (hanswered : run.status = some status) (h : run.metrics ≠ []) :
    status = 3 ↔ ∃ metricDef ∈ run.check.metrics,
      run.Unmeasured metricDef ∨ 3 ∈ run.evaluations metricDef := by
  cases run.status_eq hanswered with
  | inl hempty => exact absurd hempty.1 h
  | inr hworst =>
    rw [hworst.2, worst_eq_top_iff (by decide) run.channelStatus_le, List.mem_map]
    simp only [channelStatus, processNagiosMetric_unknown_iff]
    rfl

theorem status_of_evaluated_critical (hanswered : run.status = some status)
    (hdef : metricDef ∈ run.check.metrics) (hmem : 2 ∈ run.evaluations metricDef) :
    status = 2 ∨ status = 3 := by
  cases run.status_eq hanswered with
  | inl hempty => exact absurd hempty.1 (run.metrics_of_evaluated hmem)
  | inr hworst =>
    have hchannel : 2 ≤ run.channelStatus metricDef := by
      unfold channelStatus
      cases processNagiosMetric_status run.env metricDef run.metrics run.overrides with
      | inl hunmeasured => omega
      | inr hmeasured => exact hmeasured.2 ▸ le_worst hmem
    have hle := le_worst (List.mem_map_of_mem (f := run.channelStatus) hdef)
    -- the highest is the status of a channel, and no channel goes above UNKNOWN
    cases worst_mem (run.check.metrics.map run.channelStatus) with
    | inl hzero => omega
    | inr htop =>
      have := run.channelStatus_le _ htop
      omega

theorem measured_of_ok (hanswered : run.status = some status) (h : status = 0)
    (hdef : metricDef ∈ run.check.metrics) :
    ¬ run.Unmeasured metricDef ∧ ∀ evaluated ∈ run.evaluations metricDef, evaluated = 0 := by
  cases run.status_eq hanswered with
  | inl hempty => omega
  | inr hworst =>
    have hchannel : run.channelStatus metricDef = 0 :=
      (worst_eq_zero_iff _).mp (hworst.2 ▸ h) _ (List.mem_map_of_mem hdef)
    unfold channelStatus at hchannel
    cases processNagiosMetric_status run.env metricDef run.metrics run.overrides with
    | inl hunmeasured => omega
    | inr hmeasured => exact ⟨hmeasured.1, (worst_eq_zero_iff _).mp (hmeasured.2 ▸ hchannel)⟩

/-- A check that answers with a series evaluated CRITICAL answers CRITICAL or UNKNOWN, and UNKNOWN
exactly when a channel is unmeasured or something is evaluated UNKNOWN. It answers OK only
when every channel has a series, every readable channel evaluated something, and all it
evaluated is OK. -/
theorem critical_reported (hanswered : run.status = some status) :
    ((∃ metricDef ∈ run.check.metrics, 2 ∈ run.evaluations metricDef) →
      (status = 2 ∨ status = 3) ∧
        (status = 3 ↔ ∃ metricDef ∈ run.check.metrics,
          run.Unmeasured metricDef ∨ 3 ∈ run.evaluations metricDef)) ∧
    (status = 0 → ∀ metricDef ∈ run.check.metrics,
      matchingMetrics metricDef run.metrics ≠ [] ∧
      (run.Readable metricDef → run.evaluations metricDef ≠ []) ∧
      ∀ evaluated ∈ run.evaluations metricDef, evaluated = 0) := by
  constructor
  · intro hcritical
    obtain ⟨metricDef, hdef, hmem⟩ := hcritical
    exact ⟨run.status_of_evaluated_critical hanswered hdef hmem,
      run.status_unknown_iff hanswered (run.metrics_of_evaluated hmem)⟩
  · intro hok metricDef hdef
    obtain ⟨hmeasured, hall⟩ := run.measured_of_ok hanswered hok hdef
    exact ⟨fun hnone => hmeasured (Or.inl hnone),
      fun hreadable => evaluations_ne_nil run.env run.overrides hmeasured hreadable, hall⟩

end CheckRun

/-! ## A critical channel behind a missing one -/

/-- Whole numbers for the values, and no definition with states. -/
def wholeEnv : Env Int where
  float :=
    { zero := 0
      ofInt := id
      add := (· + ·)
      div := (· / ·)
      lt := fun a b => decide (a < b)
      eq := fun a b => decide (a = b)
      toInt := id
      parseFloat := fun s =>
        if s ≠ "" ∧ s.toList.all Char.isDigit then
          some (s.toList.foldl (fun n c => 10 * n + (c.toNat - '0'.toNat)) 0)
        else none
      fixed := fun _ v => toString v }
  equalFold := fun a b => a == b
  toLower := id
  definitionLookups := some fun _ _ => ""
  stateLookup := fun _ _ => none

/-- Two channels of the shipped `system_health` check. -/
def systemHealth : NagiosCheck where
  name := "system_health"
  description := "Overall system health check"
  probeFilter := ""
  tagFilters := []
  metrics :=
    [⟨"cpu_usage_total", "average", "80", "90", "%", false, "", []⟩,
      ⟨"memory_used_percent", "max", "85", "95", "%", false, "", []⟩]

/-- A host that reports its CPU at 97 % and no memory metric. -/
def busyCpu : CheckRun Int where
  env := wholeEnv
  cache := [⟨.float64 97, 0, "", "cpu", "cpu_usage_total", ∅, none⟩]
  check := systemHealth
  filter := ⟨∅, ∅, [], 0, 0⟩
  overrides := ⟨"", "", ∅⟩

/-- The CPU channel is CRITICAL and the check answers UNKNOWN. -/
theorem busyCpu_hides_critical :
    (∃ metricDef ∈ busyCpu.check.metrics, 2 ∈ busyCpu.evaluations metricDef) ∧
      busyCpu.status = some 3 := by
  refine ⟨⟨_, List.mem_cons_self, ?_⟩, ?_⟩
  · decide
  · decide

/-- The same host with its memory metric. -/
def busyCpuWithMemory : CheckRun Int :=
  { busyCpu with
    cache := busyCpu.cache ++ [⟨.float64 40, 0, "", "memory", "memory_used_percent", ∅, none⟩] }

theorem busyCpuWithMemory_critical :
    busyCpuWithMemory.status = some 2 ∧ ¬ ∃ metricDef ∈ busyCpuWithMemory.check.metrics,
      busyCpuWithMemory.Unmeasured metricDef ∨ 3 ∈ busyCpuWithMemory.evaluations metricDef := by
  have hanswered : busyCpuWithMemory.status = some 2 := by decide
  refine ⟨hanswered, fun hunknown => ?_⟩
  have hcritical : 2 ∈ busyCpuWithMemory.evaluations (systemHealth.metrics.head (by decide)) := by
    decide
  have hiff := ((busyCpuWithMemory.critical_reported hanswered).1
    ⟨_, List.head_mem _, hcritical⟩).2
  exact absurd (hiff.mpr hunknown) (by decide)

end SenhubAgent.Http.Nagios

import SenhubAgent.Http.MetricFilter

/-!
# Nagios checks

A check names channels (metrics) with their thresholds. `executeNagiosCheck` takes every
series of the cache, keeps those the check, the query and the overrides ask for, and
turns each channel into a status: its series held one by one against the thresholds, their
aggregate held against them, or, where the metric's definition names its values as
states, the severity of each state. Every level keeps the highest status number.

Mirroring notes:
- A status is its number: 0 OK, 1 WARNING, 2 CRITICAL, 3 UNKNOWN.
- `float64` is a type with the operations the code uses (`FloatOps`); nothing depends on
  what they compute. A `float32` is carried as the `float64` it converts to, and `int`,
  `int32` and `int64`, which every function here treats alike, are one kind of value.
- The cache is the list of its metrics, whose values may be of any type.
- The query's filter is that of `MetricFilter`: an offset and a limit that add up past the
  largest `int` make it panic, and the check answers nothing (`none`).
- `sort.Slice` is not stable; series with equal keys only differ in the order of the
  message, and the model keeps them as they come.
- Logging is left out.
-/

namespace SenhubAgent.Http.Nagios

open SenhubAgent.Lib SenhubAgent.Otlp

/-! ## Data -/

/-- What the evaluation does with a `float64`. -/
structure FloatOps (F : Type) where
  zero : F
  /-- `float64(n)` of an integer -/
  ofInt : Int → F
  add : F → F → F
  div : F → F → F
  /-- `a < b` -/
  lt : F → F → Bool
  /-- `a == b` -/
  eq : F → F → Bool
  /-- `int(v)` -/
  toInt : F → Int
  /-- `strconv.ParseFloat(s, 64)` -/
  parseFloat : String → Option F
  /-- `%.nf` of `fmt` -/
  fixed : Nat → F → String

structure LookupValue where
  text : String
  severity : String
  description : String

/-- What a check asks the rest of the agent. -/
structure Env (F : Type) where
  float : FloatOps F
  equalFold : String → String → Bool
  toLower : String → String
  /-- `definitionLookups()[probe][metric]`; `none` where the definitions cannot be read -/
  definitionLookups : Option (String → String → String)
  /-- the mappings of the lookup that the friendly transformer of the probe type names for
  the metric, where there is a registry, a transformer, a lookup id and a table for it -/
  stateLookup : String → String → Option (Int → Option LookupValue)

/-- `CachedMetric.Value`, an `interface{}`. -/
inductive MetricValue (F : Type)
  | float64 (v : F)
  | float32 (v : F)
  | integer (v : Int)
  | other

structure NagiosTagFilter where
  key : String
  values : List String
  operator : String

structure NagiosTagThreshold where
  tags : AssocMap String String
  warning : String
  critical : String

structure NagiosMetric where
  channel : String
  aggregation : String
  warning : String
  critical : String
  unit : String
  invert : Bool
  tagContext : String
  tagSpecificThresholds : List NagiosTagThreshold

structure NagiosCheck where
  name : String
  description : String
  probeFilter : String
  tagFilters : List NagiosTagFilter
  metrics : List NagiosMetric

/-- What a request gives in place of the check's own thresholds and tags. -/
structure NagiosOverrides where
  warning : String
  critical : String
  tagFilters : AssocMap String String

structure NagiosMetricResult where
  status : Nat
  message : String
  perfData : String

structure NagiosResponse where
  status : Nat
  statusText : String
  message : String
  perfData : String

/-- A cached metric with its value as the check reads it. -/
abbrev CheckedMetric (F : Type) := CachedMetric (MetricValue F)

/-! ## Which series a check sees -/

section Scope

variable {F : Type}

def matchProbe (env : Env F) (metrics : List (CheckedMetric F)) (filter : String) :
    List (CheckedMetric F) :=
  metrics.filter fun metric =>
    env.equalFold (tagValue metric.tags "probe_type") filter
      || env.equalFold metric.probeName filter

/-- Whether one filter of the check's definition lets a tag value through. -/
def NagiosTagFilter.allows (filter : NagiosTagFilter) (tagValue : String) : Bool :=
  match filter.operator with
  | "in" => filter.values.isEmpty || filter.values.contains tagValue
  | "not_in" => !filter.values.contains tagValue
  | "equals" => match filter.values with
    | [] => true
    | value :: _ => tagValue == value
  | "not_equals" => match filter.values with
    | [] => true
    | value :: _ => tagValue != value
  | "exists" => tagValue != ""
  | _ => true

/-- The series that pass every filter of the check. -/
def applyNagiosTagFilters (metrics : List (CheckedMetric F)) (filters : List NagiosTagFilter) :
    List (CheckedMetric F) :=
  metrics.filter fun metric =>
    filters.all fun filter => filter.allows (tagValue metric.tags filter.key)

/-- Whether the tags hold every wanted value. -/
def haveTags (tags wanted : AssocMap String String) : Bool :=
  wanted.entries.all fun ⟨key, value⟩ => tagValue tags key == value

def keepMatchingTags (metrics : List (CheckedMetric F)) (tagFilters : AssocMap String String) :
    List (CheckedMetric F) :=
  metrics.filter fun metric => haveTags metric.tags tagFilters

end Scope

/-! ## One value against its thresholds -/

section Evaluate

variable {F : Type} (env : Env F)

def getStatusText : Nat → String
  | 0 => "OK"
  | 1 => "WARNING"
  | 2 => "CRITICAL"
  | _ => "UNKNOWN"

/-- The status of a value: 3 where a threshold that is needed is no number. -/
def evaluateThreshold (value : F) (warning critical : String) (invert : Bool) : Nat :=
  match env.float.parseFloat warning with
  | none => 3
  | some warnThreshold =>
    -- beyond a threshold: above it, or below it for an inverted metric
    let beyond := fun threshold =>
      if invert then env.float.lt value threshold else env.float.lt threshold value
    if trimSpace critical = "" then
      if beyond warnThreshold then 1 else 0
    else match env.float.parseFloat critical with
      | none => 3
      | some critThreshold =>
        if beyond critThreshold then 2 else if beyond warnThreshold then 1 else 0

def sumValues (values : List F) : F := values.foldl env.float.add env.float.zero

def average (values : List F) : F :=
  env.float.div (sumValues env values) (env.float.ofInt values.length)

/-- An aggregation that is not known is the average. -/
def aggregateValues (values : List F) (aggregation : String) : F :=
  match values with
  | [] => env.float.zero
  | first :: _ =>
    match aggregation with
    | "average" | "avg" => average env values
    | "max" => values.foldl (fun max v => if env.float.lt max v then v else max) first
    | "min" => values.foldl (fun min v => if env.float.lt v min then v else min) first
    | "sum" => sumValues env values
    | "count" => env.float.ofInt values.length
    | _ => average env values

def isLabelChar (c : Char) : Bool :=
  ('a' ≤ c && c ≤ 'z') || ('A' ≤ c && c ≤ 'Z') || ('0' ≤ c && c ≤ '9') || c == '_'

def cleanPerfDataLabel (name : String) : String :=
  let cleaned := replaceChar '-' '_' (replaceChar '.' '_' (replaceChar ' ' '_' name))
  String.ofList (cleaned.toList.filter isLabelChar)

def convertToStandardUOM (unit : String) : String :=
  match env.toLower unit with
  | "bytes" => "B"
  | "kilobytes" | "kb" => "KB"
  | "megabytes" | "mb" => "MB"
  | "gigabytes" | "gb" => "GB"
  | "milliseconds" | "ms" => "ms"
  | "seconds" | "s" => "s"
  | "percent" | "%" => "%"
  | "celsius" | "°c" => "°C"
  | "fahrenheit" | "°f" => "°F"
  | _ => unit

def getPerfDataMinMax (unit : String) : String × String :=
  match env.toLower unit with
  | "%" | "percent" | "°c" | "celsius" => ("0", "100")
  | "ms" | "milliseconds" | "s" | "seconds" => ("0", "")
  | "bytes" | "b" | "kb" | "mb" | "gb" => ("0", "")
  | "#" | "count" | "counter" => ("0", "")
  | _ => ("", "")

def buildPerfData (name : String) (value : F) (warning critical unit : String) : String :=
  let range := getPerfDataMinMax env unit
  cleanPerfDataLabel name ++ "=" ++ env.float.fixed 2 value ++ convertToStandardUOM env unit
    ++ ";" ++ warning ++ ";" ++ critical ++ ";" ++ range.1 ++ ";" ++ range.2

/-- The highest of a list of statuses, OK for none. -/
def worst (statuses : List Nat) : Nat :=
  statuses.foldl (fun worst status => if status > worst then status else worst) 0

/-- A request's threshold, if it gives one, over the configured one. -/
def overridden (override configured : String) : String :=
  if override ≠ "" then override else configured

/-! ## One channel -/

def numericValue (metric : CheckedMetric F) : Option F :=
  match metric.value with
  | .float64 v => some v
  | .float32 v => some v
  | _ => none

/-- A channel as one value, held against one pair of thresholds. -/
def processNagiosMetricAggregated (metricDef : NagiosMetric) (metrics : List (CheckedMetric F))
    (overrides : NagiosOverrides) : NagiosMetricResult :=
  let values := metrics.filterMap numericValue
  if values = [] then
    { status := 3
      message := "No numeric values found for channel: " ++ metricDef.channel
      perfData := "" }
  else
    let aggregatedValue := aggregateValues env values metricDef.aggregation
    let warning := overridden overrides.warning metricDef.warning
    let critical := overridden overrides.critical metricDef.critical
    let status := evaluateThreshold env aggregatedValue warning critical metricDef.invert
    let message := metricDef.channel ++ ": " ++ getStatusText status ++ " "
      ++ env.float.fixed 2 aggregatedValue ++ metricDef.unit
    { status := status
      message := if values.length > 1 then
          message ++ " (" ++ metricDef.aggregation ++ " of " ++ toString values.length ++ " series)"
        else message
      perfData := buildPerfData env metricDef.channel aggregatedValue warning critical
        metricDef.unit }

/-- The thresholds of the first entry whose tags the series has. -/
def tagSpecificThresholds (metricDef : NagiosMetric) (metric : CheckedMetric F) : String × String :=
  match metricDef.tagSpecificThresholds.find? fun entry => haveTags metric.tags entry.tags with
  | some entry => (entry.warning, entry.critical)
  | none => (metricDef.warning, metricDef.critical)

/-- What one series of a channel that is not aggregated adds to the result: nothing
unless its value is a `float64`. -/
def separateSeries (metricDef : NagiosMetric) (overrides : NagiosOverrides)
    (metric : CheckedMetric F) : Option NagiosMetricResult :=
  match metric.value with
  | .float64 val =>
    let thresholds := tagSpecificThresholds metricDef metric
    let warning := overridden overrides.warning thresholds.1
    let critical := overridden overrides.critical thresholds.2
    let status := evaluateThreshold env val warning critical metricDef.invert
    let context := if metricDef.tagContext = "" then "" else tagValue metric.tags metricDef.tagContext
    let metricName := if context ≠ "" then metricDef.channel ++ "_" ++ context
      else metricDef.channel
    let label := if context ≠ "" then metricDef.channel ++ "[" ++ context ++ "]"
      else metricDef.channel
    some
      { status := status
        message := label ++ ": " ++ getStatusText status ++ " " ++ env.float.fixed 2 val
          ++ metricDef.unit
        perfData := buildPerfData env metricName val warning critical metricDef.unit }
  | _ => none

/-- A channel series by series: the worst status, and all their texts. -/
def processNagiosMetricSeparate (metricDef : NagiosMetric) (metrics : List (CheckedMetric F))
    (overrides : NagiosOverrides) : NagiosMetricResult :=
  let results := metrics.filterMap (separateSeries env metricDef overrides)
  { status := worst (results.map (·.status))
    message := ", ".intercalate (results.map (·.message))
    perfData := " ".intercalate (results.map (·.perfData)) }

def declaresStates (metric : CheckedMetric F) : Bool :=
  match env.definitionLookups with
  | none => false
  | some lookups =>
    let probeType := tagValue metric.tags "probe_type"
    let probe := if probeType = "" then metric.probeName else probeType
    lookups probe metric.metricName ≠ ""

def severityToNagiosStatus (severity : String) : Nat :=
  match env.toLower severity with
  | "ok" => 0
  | "warning" => 1
  | "error" => 2
  | _ => 3

/-- The value of a state series, its status and its text. -/
structure HealthState (F : Type) where
  value : F
  status : Nat
  text : String

/-- The status of a state that no lookup names. -/
def standardHealth (healthValue : F) : HealthState F :=
  match env.float.toInt healthValue with
  | 0 => ⟨healthValue, 0, "OK"⟩
  | 1 => ⟨healthValue, 1, "WARNING"⟩
  | 2 => ⟨healthValue, 2, "CRITICAL"⟩
  | 3 => ⟨healthValue, 3, "UNKNOWN"⟩
  | _ =>
    if env.float.eq healthValue (env.float.ofInt 1) then ⟨healthValue, 0, "OK"⟩
    else if env.float.eq healthValue env.float.zero then ⟨healthValue, 2, "CRITICAL"⟩
    else ⟨healthValue, 3, "UNKNOWN - Unexpected health value: " ++ env.float.fixed 0 healthValue⟩

/-- The lookup entry for a state of a metric, for a metric with a probe type. -/
def stateEntry (metric : CheckedMetric F) (healthValue : F) : Option LookupValue :=
  let probeType := tagValue metric.tags "probe_type"
  if probeType = "" then none
  else (env.stateLookup probeType metric.metricName).bind fun mappings =>
    mappings (env.float.toInt healthValue)

def healthNumber (metric : CheckedMetric F) : Option F :=
  match metric.value with
  | .float64 v => some v
  | .float32 v => some v
  | .integer v => some (env.float.ofInt v)
  | .other => none

def convertHealthToNagiosStatus (metric : CheckedMetric F) : HealthState F :=
  match healthNumber env metric with
  | none => ⟨env.float.zero, 3, "UNKNOWN - Invalid health value type"⟩
  | some healthValue =>
    match stateEntry env metric healthValue with
    | some lookupValue =>
      let nagiosStatus := severityToNagiosStatus env lookupValue.severity
      let statusText := if lookupValue.description ≠ "" ∧ nagiosStatus > 0 then
          lookupValue.text ++ " (" ++ lookupValue.description ++ ")"
        else lookupValue.text
      ⟨healthValue, nagiosStatus, statusText⟩
    | none => standardHealth env healthValue

def buildHealthPerfData (name : String) (value : F) : String :=
  cleanPerfDataLabel name ++ "=" ++ env.float.fixed 0 value ++ ";;;0;3"

def healthContext (metricDef : NagiosMetric) (metric : CheckedMetric F) : String :=
  match metric.tags.lookup "component" with
  | some componentName => componentName
  | none => match metric.tags.lookup "instance" with
    | some instanceName => instanceName
    | none => metricDef.channel

/-- The line about the series that are not OK, for several series. -/
def failureMessages (metrics : List (CheckedMetric F)) : List String :=
  (metrics.filter fun metric => (convertHealthToNagiosStatus env metric).status > 0).map
    fun metric =>
      (metric.tags.lookup "component").getD "component" ++ ": "
        ++ (convertHealthToNagiosStatus env metric).text

def healthSummary (metricDef : NagiosMetric) (metrics : List (CheckedMetric F))
    (statuses : List Nat) : String :=
  let summary := getStatusText (worst statuses) ++ " - " ++ metricDef.channel ++ ": "
    ++ toString (statuses.count 0) ++ " OK, " ++ toString (statuses.count 1) ++ " Warning, "
    ++ toString (statuses.count 2) ++ " Critical, " ++ toString (statuses.count 3) ++ " Unknown"
  let failures := failureMessages env metrics
  if worst statuses > 0 ∧ failures ≠ [] then summary ++ " - " ++ ", ".intercalate failures
  else summary

/-- A channel of declared states; thresholds play no part in it. -/
def processNagiosHealthMetric (metricDef : NagiosMetric) (metrics : List (CheckedMetric F)) :
    NagiosMetricResult :=
  let states := metrics.map fun metric =>
    (healthContext metricDef metric, convertHealthToNagiosStatus env metric)
  let statuses := states.map (·.2.status)
  { status := worst statuses
    message := match states with
      | [(contextName, state)] => contextName ++ ": " ++ state.text
      | _ => healthSummary env metricDef metrics statuses
    perfData := " ".intercalate (states.map fun s => buildHealthPerfData env s.1 s.2.value) }

def seriesOrderKey (metric : CheckedMetric F) : String :=
  (metric.tags.keys.insertionSort (· ≤ ·)).foldl
    (fun b k => b ++ "\x00" ++ k ++ "=" ++ tagValue metric.tags k) metric.probeName

/-- The series of a channel, in the order the message lists them. -/
def matchingMetrics (metricDef : NagiosMetric) (metrics : List (CheckedMetric F)) :
    List (CheckedMetric F) :=
  (metrics.filter fun metric => metric.metricName == metricDef.channel).insertionSort
    fun a b => seriesOrderKey a ≤ seriesOrderKey b

def NagiosMetric.aggregates (metricDef : NagiosMetric) : Bool :=
  metricDef.aggregation != "" && metricDef.aggregation != "none"

def processNagiosMetric (metricDef : NagiosMetric) (metrics : List (CheckedMetric F))
    (overrides : NagiosOverrides) : NagiosMetricResult :=
  match matchingMetrics metricDef metrics with
  | [] =>
    { status := 3
      message := "No metrics found for channel: " ++ metricDef.channel
      perfData := "" }
  | first :: rest =>
    if declaresStates env first then processNagiosHealthMetric env metricDef (first :: rest)
    else if metricDef.aggregates then
      processNagiosMetricAggregated env metricDef (first :: rest) overrides
    else processNagiosMetricSeparate env metricDef (first :: rest) overrides

/-! ## The check -/

/-- The series of the probes a check is about. -/
def probeMetrics (cache : List (CheckedMetric F)) (check : NagiosCheck) : List (CheckedMetric F) :=
  if check.probeFilter ≠ "" then matchProbe env cache check.probeFilter else cache

/-- The series a check evaluates its channels on; `none` where the query's filter panics. -/
def checkMetrics (cache : List (CheckedMetric F)) (check : NagiosCheck)
    (filter : MetricFilter String) (overrides : NagiosOverrides) :
    Option (List (CheckedMetric F)) :=
  (applyMetricFilter (metricView id)
    (applyNagiosTagFilters (probeMetrics env cache check) check.tagFilters) filter).map fun metrics =>
      keepMatchingTags metrics overrides.tagFilters

/-- The answer from the series that are left. -/
def checkResponse (check : NagiosCheck) (overrides : NagiosOverrides)
    (metrics : List (CheckedMetric F)) : NagiosResponse :=
  if metrics = [] then
    { status := 3
      statusText := "UNKNOWN"
      message := "No metrics match filters for check " ++ check.name
      perfData := "" }
  else
    let results := check.metrics.map fun metricDef =>
      processNagiosMetric env metricDef metrics overrides
    let overallStatus := worst (results.map (·.status))
    let statusText := getStatusText overallStatus
    let messages := (results.map (·.message)).filter (· ≠ "")
    { status := overallStatus
      statusText := statusText
      message := if messages ≠ [] then ", ".intercalate messages
        else check.description ++ " - " ++ statusText
      perfData := " ".intercalate ((results.map (·.perfData)).filter (· ≠ "")) }

/-- A check whose probes have no metrics is unknown; `none` where the query panics. -/
def executeNagiosCheck (cache : List (CheckedMetric F)) (check : NagiosCheck)
    (filter : MetricFilter String) (overrides : NagiosOverrides) : Option NagiosResponse :=
  if probeMetrics env cache check = [] then
    some
      { status := 3
        statusText := "UNKNOWN"
        message := "No metrics available for check " ++ check.name
        perfData := "" }
  else (checkMetrics env cache check filter overrides).map (checkResponse env check overrides)

end Evaluate

end SenhubAgent.Http.Nagios

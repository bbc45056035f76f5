import SenhubAgent.Lib.Latest
import SenhubAgent.OtelMapper.Expand
import SenhubAgent.Otlp.MetricStore
import SenhubAgent.Prometheus.Ladder

/-!
# From an OTLP metric to the record that is exported

What the `otlp_receiver` probe makes of one metric of a request, and what the exporters make of
that: `flattenMetric` turns the metric's points into datapoints with flat tags, `ingest` stamps
the probe's own identity on them, the data store adds a unit where the probe's definition knows
one, the store keys the tags into a map, and `Resolve` reads name, instrument type, temporality
and unit back out of that map.

Mirroring notes:
- A protobuf message is the record of its fields; `AnyValue` variants the receiver does not
  print (arrays, lists of pairs) are one case.
- `%g`, `strconv.FormatFloat` and the reading of bytes as text are parameters (`Printing`).
- A point without a usable time is stamped with `now`.
- The operator's tags (global, governance, custom), which `enrichWithConfiguredTags` lays over a
  datapoint once it has its unit, are taken to be none. One with the key of a control tag would
  take its place; the results are about what a sender can do.
- Of `Resolve`, the branch of ingested metrics is modelled; what it does with any other metric
  is a parameter.
-/

namespace SenhubAgent.OtlpReceiver

open SenhubAgent.Lib SenhubAgent.Otlp
open SenhubAgent.OtelMapper (OtelRecord)

/-! ## The wire form -/

/-- The value of an attribute. -/
inductive AnyValue where
  | string (s : String)
  | bool (b : Bool)
  | int (n : Int)
  | double (x : Float)
  | bytes (bs : List UInt8)
  | other

structure KeyValue where
  key : String
  /-- `none` where the message has no value -/
  value : Option AnyValue

/-- What a sum or a histogram counts from: the last report, or the start. -/
inductive Temporality where
  | unspecified | delta | cumulative
deriving DecidableEq

/-- A `NumberDataPoint`; its value as a `float64`, zero where none is set. -/
structure NumberPoint where
  attributes : List KeyValue
  timeUnixNano : Nat
  value : Float

/-- A point with explicit buckets, kept as it came. -/
structure HistogramPoint where
  attributes : List KeyValue
  timeUnixNano : Nat
  payload : HistogramValue

/-- What the receiver reads of an exponential histogram. -/
structure ExpHistogramPoint where
  attributes : List KeyValue
  timeUnixNano : Nat
  count : UInt64
  sum : Option Float
  min : Option Float
  max : Option Float

/-- A count, a sum and the quantiles the sender computed. -/
structure SummaryPoint where
  attributes : List KeyValue
  timeUnixNano : Nat
  count : UInt64
  sum : Float
  /-- quantile and value -/
  quantiles : List (Float × Float)

/-- The kinds of a metric, each with its points. -/
inductive MetricData where
  | gauge (points : List NumberPoint)
  | sum (isMonotonic : Bool) (temporality : Temporality) (points : List NumberPoint)
  | histogram (temporality : Temporality) (points : List HistogramPoint)
  | exponentialHistogram (points : List ExpHistogramPoint)
  | summary (points : List SummaryPoint)
  /-- unset, or newer than the receiver -/
  | unknown

structure Metric where
  name : String
  unit : String
  data : MetricData

/-- Texts of the Go library that the receiver stores and does not look at. -/
structure Printing where
  /-- `fmt.Sprintf("%g", x)` -/
  general : Float → String
  /-- `strconv.FormatFloat(x, 'g', -1, 64)` -/
  shortest : Float → String
  bytesText : List UInt8 → String

/-! ## Attributes become tags -/

section

variable (print : Printing)

/-- An attribute's value as the text of a tag. -/
def anyValueToString : Option AnyValue → String
  | some (.string s) => s
  | some (.bool b) => if b then "true" else "false"
  | some (.int n) => toString n
  | some (.double x) => print.general x
  | some (.bytes bs) => print.bytesText bs
  | some .other | none => ""

/-- `tags.Tag{Key: k, Value: v}` -/
def plainTag (k v : String) : Tag := ⟨k, v, false⟩

/-- Attributes without a key are dropped. -/
def attributesToTags (attrs : List KeyValue) : List Tag :=
  attrs.filterMap fun kv =>
    if kv.key = "" then none else some (plainTag kv.key (anyValueToString print kv.value))

/-- Resource tags overlaid with point tags. -/
def mergeTags (resourceTags pointTags : List Tag) : List Tag :=
  resourceTags.filter (fun t => !pointTags.any fun p => p.key == t.key) ++ pointTags

def temporalityTagKey : String := "otel_temporality"
def temporalityDelta : String := "delta"
def metricTypeOTLPIngest : String := "otlp_ingest"

/-- Cumulative is the default and not tagged. -/
def temporalityTags (t : Temporality) : List Tag :=
  if t = .delta then [plainTag temporalityTagKey temporalityDelta] else []

/-- The sender's tags, then the control tags that `Resolve` reads, then what tells the series of
one point apart. -/
def ingestTags (unit otelType : String) (attrs : List KeyValue) (resourceTags extra : List Tag) :
    List Tag :=
  mergeTags resourceTags (attributesToTags print attrs)
    ++ [plainTag "metric_type" metricTypeOTLPIngest, plainTag "otel_type" otelType]
    ++ (if unit ≠ "" then [plainTag "unit" unit] else [])
    ++ extra

/-- Drops a key that the series of a point need for themselves (`le`, `quantile`). -/
def withoutAttr (attrs : List KeyValue) (key : String) : List KeyValue :=
  attrs.filter fun kv => kv.key ≠ key

/-! ## Points become datapoints -/

/-- `pointTime`: unset, or past what nanoseconds in an `int64` hold, is now. -/
def pointTime (now : Instant) (tsNano : Nat) : Instant :=
  if tsNano = 0 ∨ tsNano > 2 ^ 63 - 1 then now else (tsNano : Int)

variable (now : Instant)

def numberPointToDataPoint (name unit otelType : String) (dp : NumberPoint)
    (resourceTags extra : List Tag) : DataPoint :=
  { name := name, timestamp := pointTime now dp.timeUnixNano, value := dp.value
    tags := ingestTags print unit otelType dp.attributes resourceTags extra, histogram := none }

/-- The whole histogram is the payload; the value is its count, for sinks that show no buckets. -/
def histogramToDataPoint (name unit : String) (dp : HistogramPoint)
    (resourceTags extra : List Tag) : DataPoint :=
  { name := name, timestamp := pointTime now dp.timeUnixNano, value := dp.payload.count.toFloat
    tags := ingestTags print unit "histogram" (withoutAttr dp.attributes "le") resourceTags extra
    histogram := some dp.payload }

/-- A series of a point that is split into several: its own name, unit, type and value. -/
def scalarPoint (name unit otelType : String) (timeUnixNano : Nat) (value : Float)
    (attrs : List KeyValue) (resourceTags extra : List Tag) : DataPoint :=
  { name := name, timestamp := pointTime now timeUnixNano, value := value
    tags := ingestTags print unit otelType attrs resourceTags extra, histogram := none }

/-- The two extremes, where the sender reports them. -/
def minMaxPoints (name unit : String) (dp : ExpHistogramPoint) (resourceTags : List Tag) :
    List DataPoint :=
  let gauge (suffix : String) (v : Float) :=
    scalarPoint print now (name ++ suffix) unit "gauge" dp.timeUnixNano v dp.attributes resourceTags []
  (dp.min.map (gauge "_min")).toList ++ (dp.max.map (gauge "_max")).toList

/-- The aggregates only: exponential buckets are not stored. -/
def expHistogramToDataPoints (name unit : String) (dp : ExpHistogramPoint)
    (resourceTags : List Tag) : List DataPoint :=
  let counter (suffix unit : String) (v : Float) :=
    scalarPoint print now (name ++ suffix) unit "counter" dp.timeUnixNano v dp.attributes
      resourceTags []
  counter "_count" "1" dp.count.toFloat :: (dp.sum.map (counter "_sum" unit)).toList
    ++ minMaxPoints print now name unit dp resourceTags

/-- A count, a sum, and one gauge for each quantile. -/
def summaryToDataPoints (name unit : String) (dp : SummaryPoint) (resourceTags : List Tag) :
    List DataPoint :=
  let attrs := withoutAttr dp.attributes "quantile"
  let series (name unit otelType : String) (v : Float) (extra : List Tag) :=
    scalarPoint print now name unit otelType dp.timeUnixNano v attrs resourceTags extra
  series (name ++ "_count") "1" "counter" dp.count.toFloat []
    :: series (name ++ "_sum") unit "counter" dp.sum []
    :: dp.quantiles.map fun qv =>
      series name unit "gauge" qv.2 [plainTag "quantile" (print.shortest qv.1)]

def sumInstrumentType (isMonotonic : Bool) : String :=
  if isMonotonic then "counter" else "updowncounter"

/-- The buckets fit their bounds and hold no more than the count. -/
def HistogramPoint.valid (dp : HistogramPoint) : Bool :=
  Prometheus.bucketLayoutValid dp.payload.bucketCounts dp.payload.explicitBounds.length
    dp.payload.count

/-- The datapoints of a metric, and how many points of it were dropped. -/
def flattenMetric (m : Metric) (resourceTags : List Tag) : List DataPoint × Nat :=
  if m.name = "" then ([], 0)
  else
    match m.data with
    | .gauge points =>
      (points.map fun dp =>
        numberPointToDataPoint print now m.name m.unit "gauge" dp resourceTags [], 0)
    | .sum isMonotonic temporality points =>
      (points.map fun dp => numberPointToDataPoint print now m.name m.unit
        (sumInstrumentType isMonotonic) dp resourceTags (temporalityTags temporality), 0)
    | .histogram temporality points =>
      ((points.filter HistogramPoint.valid).map fun dp =>
        histogramToDataPoint print now m.name m.unit dp resourceTags (temporalityTags temporality),
        points.countP fun dp => !dp.valid)
    | .exponentialHistogram points =>
      (points.flatMap fun dp => expHistogramToDataPoints print now m.name m.unit dp resourceTags, 0)
    | .summary points =>
      (points.flatMap fun dp => summaryToDataPoints print now m.name m.unit dp resourceTags, 0)
    | .unknown => ([], 1)

/-! ## The probe's identity and the data store -/

/-- A relayed agent's own probe tags are dropped, so that the receiver's are the only ones. -/
def withoutProbeIdentity (dp : DataPoint) : DataPoint :=
  { dp with tags := dp.tags.filter fun t => !(t.key == "probe_name" || t.key == "probe_type") }

def enrichDataPoint (probeName probeType : String) (dp : DataPoint) : DataPoint :=
  { dp with tags := dp.tags ++ [plainTag "probe_name" probeName, plainTag "probe_type" probeType] }

/-- What the data store asks of a probe type's definition; a definition that knows no unit for
a name answers `""`. -/
structure Transformer where
  applyUnitCorrection : String → Float → AssocMap String String → Option Float
  getUnit : String → String

/-- The tags as a map, private ones included. -/
def tagMapOf (tags : List Tag) : AssocMap String String :=
  insertAll ∅ (tags.map fun t => (t.key, t.value))

/-- `applyUnitCorrections`, for one datapoint. -/
def applyUnitCorrection (load : String → Option Transformer) (dp : DataPoint) : DataPoint :=
  let tagMap := tagMapOf dp.tags
  let probeName := tagValue tagMap "probe_name"
  if probeName = "" then dp
  else
    let probeType := tagValue tagMap "probe_type"
    match load (if probeType = "" then probeName else probeType) with
    | none => dp
    | some t =>
      { dp with
        value := (t.applyUnitCorrection dp.name dp.value tagMap).getD dp.value
        tags :=
          if (tagMap.lookup "unit").isNone ∧ t.getUnit dp.name ≠ "" then
            dp.tags ++ [plainTag "unit" (t.getUnit dp.name)]
          else dp.tags }

/-! ## Resolve -/

/-- Anything but `delta` is cumulative. -/
def temporalityFromTags (t : AssocMap String String) : String :=
  if tagValue t temporalityTagKey = temporalityDelta then temporalityDelta else ""

def isSystemTag (tag : String) : Bool := tag == "probe_name" || tag == "probe_type" || tag == "unit"

/-- The tags that go out as attributes: not empty, and neither identity nor control tags. -/
def passesAsAttribute (name value : String) : Bool :=
  !(value == "" || isSystemTag name || name == "metric_type" || name == "otel_type"
    || name == temporalityTagKey || name == "unit")

/-- An ingested metric goes out under the name and unit it came with, as the instrument its tags
name; one they do not know is a gauge. -/
def resolveOTLPIngested (m : StoredMetric) (includeProbeTags : Bool) : OtelRecord :=
  let otelType := tagValue m.tags "otel_type"
  let known := otelType == "counter" || otelType == "gauge" || otelType == "updowncounter"
  let identity := (∅ : AssocMap String String).insert "probe_name" m.probeName
  let identity := if m.probeType ≠ "" then identity.insert "probe_type" m.probeType else identity
  { name := m.metricName
    unit := m.unit
    type := if m.histogram.isSome then "histogram" else if known then otelType else "gauge"
    temporality := temporalityFromTags m.tags
    attributes :=
      if includeProbeTags then
        (m.tags.entries.filter fun e => passesAsAttribute e.1 e.2).foldl
          (fun attrs e => attrs.insert e.1 e.2) identity
      else identity
    value := m.value
    description := "OTLP-ingested metric"
    histogram := m.histogram }

theorem resolveOTLPIngested_name (m : StoredMetric) (includeProbeTags : Bool) :
    (resolveOTLPIngested m includeProbeTags).name = m.metricName := rfl

theorem resolveOTLPIngested_unit (m : StoredMetric) (includeProbeTags : Bool) :
    (resolveOTLPIngested m includeProbeTags).unit = m.unit := rfl

/-- `byDefinition` is what `Resolve` does with a metric that is not an ingested one. -/
def resolve (byDefinition : StoredMetric → Except String (List OtelRecord)) (includeProbeTags : Bool)
    (m : StoredMetric) : Except String (List OtelRecord) :=
  if tagValue m.tags "metric_type" = metricTypeOTLPIngest then
    .ok [resolveOTLPIngested m includeProbeTags]
  else byDefinition m

end

end SenhubAgent.OtlpReceiver

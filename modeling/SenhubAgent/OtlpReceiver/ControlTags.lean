import SenhubAgent.OtlpReceiver.Decode

/-!
# Control tags and the sender's attributes

The receiver's control tags (`metric_type`, `otel_type`, `unit`, `otel_temporality`) travel in the
same list as the attributes of the sender. Of two tags with one key the later counts, and the
control tags come later, so a tag that is always there cannot be replaced; `unit` and
`otel_temporality` are there only for a metric with a unit and for a delta sum or histogram.

`lastTag` says what a list of tags means. `Series` is what one point of a metric is split into,
without its tags; it depends on no attribute. `attributes_keep_kind_iff` puts the two together:
whatever the sender's attributes, the records carry the receiver's identity, and they are of the
same kind as without attributes exactly when no attribute stands where a control tag is missing
(`Quiet`).
-/

namespace SenhubAgent.OtlpReceiver

open SenhubAgent.Lib SenhubAgent.Otlp
open SenhubAgent.OtelMapper (OtelRecord)

/-! ## What a list of tags means -/

/-- The value of the last tag with a key. -/
def lastTag (k : String) (ts : List Tag) : Option String :=
  latest k (ts.map fun t => (t.key, t.value))

theorem lastTag_append (k : String) (ts ts' : List Tag) :
    lastTag k (ts ++ ts') = (lastTag k ts').or (lastTag k ts) := by
  unfold lastTag
  rw [List.map_append, latest_append]

@[simp] theorem lastTag_plainTag (k key value : String) :
    lastTag k [plainTag key value] = if key = k then some value else none := rfl

variable {k : String} {ts : List Tag}

theorem lastTag_filter {p : String → Bool} (h : p k = true) (ts : List Tag) :
    lastTag k (ts.filter fun t => p t.key) = lastTag k ts := by
  have hpairs : (ts.filter fun t => p t.key).map (fun t => (t.key, t.value))
      = (ts.map fun t => (t.key, t.value)).filter fun w => p w.1 := by
    rw [List.filter_map]
    rfl
  unfold lastTag
  rw [hpairs, latest_filter]
  intro w _ hw
  rw [hw, h]

theorem lastTag_eq_none_iff : lastTag k ts = none ↔ ∀ t ∈ ts, t.key ≠ k := by
  unfold lastTag
  rw [latest_eq_none_iff, List.forall_mem_map]

theorem lookup_tagMapOf (k : String) (ts : List Tag) : (tagMapOf ts).lookup k = lastTag k ts := by
  unfold tagMapOf lastTag
  rw [lookup_insertAll, AList.lookup_empty, Option.or_none]

/-- None of the tags is private. -/
def Public (ts : List Tag) : Prop := ∀ t ∈ ts, t.isPrivate = false

theorem lookup_flattenTags (h : Public ts) (k : String) :
    (flattenTags ts).lookup k = lastTag k ts := by
  have hfold : flattenTags ts = tagMapOf ts := by
    unfold flattenTags tagMapOf insertAll
    rw [List.foldl_map]
    refine List.foldl_ext _ _ _ fun m t ht => ?_
    rw [h t ht]
    rfl
  rw [hfold, lookup_tagMapOf]

section

variable (print : Printing)

/-- The text of the last attribute with a key. -/
def sentBy (k : String) : List KeyValue → Option String
  | [] => none
  | kv :: attrs =>
    (sentBy k attrs).or (if kv.key = k then some (anyValueToString print kv.value) else none)

/-- What the sender says under a key: a point's attribute before the resource's. -/
def sent (k : String) (resource attrs : List KeyValue) : Option String :=
  (sentBy print k attrs).or (sentBy print k resource)

theorem lastTag_attributesToTags (hk : k ≠ "") (attrs : List KeyValue) :
    lastTag k (attributesToTags print attrs) = sentBy print k attrs := by
  induction attrs with
  | nil => rfl
  | cons kv attrs ih =>
    unfold attributesToTags at ih ⊢
    rw [List.filterMap_cons, sentBy, ← ih]
    by_cases hempty : kv.key = ""
    · have hne : kv.key ≠ k := fun h => hk (h ▸ hempty)
      simp [hempty, Ne.symm hk]
    · simp [hempty, lastTag, plainTag, latest]

theorem lastTag_mergeTags (k : String) (resourceTags pointTags : List Tag) :
    lastTag k (mergeTags resourceTags pointTags)
      = (lastTag k pointTags).or (lastTag k resourceTags) := by
  unfold mergeTags
  rw [lastTag_append]
  cases hpoint : lastTag k pointTags with
  | some v => simp
  | none =>
    have hkept : (!pointTags.any fun p => p.key == k) = true := by
      rw [Bool.not_eq_true', List.any_eq_false]
      intro p hp hkey
      exact lastTag_eq_none_iff.mp hpoint p hp (beq_iff_eq.mp hkey)
    exact congrArg _ (lastTag_filter (p := fun key => !pointTags.any fun p => p.key == key) hkept _)

theorem public_attributesToTags (attrs : List KeyValue) : Public (attributesToTags print attrs) := by
  intro t ht
  obtain ⟨kv, _, hkv⟩ := List.mem_filterMap.mp ht
  split at hkv
  next => cases hkv
  next =>
    cases hkv
    rfl

end

/-! ## Series -/

/-- A discriminating tag of a series. -/
inductive Extra where
  | plain | delta | quantile (q : Float)

/-- What one point of a metric is split into, and the attributes it takes along. -/
structure Series where
  name : String
  unit : String
  otelType : String
  extra : Extra
  attrs : List KeyValue
  timeUnixNano : Nat
  value : Float
  histogram : Option HistogramValue

section

variable (print : Printing) (now : Instant)

def Extra.tags : Extra → List Tag
  | .plain => []
  | .delta => temporalityTags .delta
  | .quantile q => [plainTag "quantile" (print.shortest q)]

def Series.point (resourceTags : List Tag) (s : Series) : DataPoint :=
  { name := s.name, timestamp := pointTime now s.timeUnixNano, value := s.value
    tags := ingestTags print s.unit s.otelType s.attrs resourceTags (s.extra.tags print)
    histogram := s.histogram }

def ofTemporality (t : Temporality) : Extra := if t = .delta then .delta else .plain

def numberSeries (m : Metric) (otelType : String) (extra : Extra) (dp : NumberPoint) : Series :=
  ⟨m.name, m.unit, otelType, extra, dp.attributes, dp.timeUnixNano, dp.value, none⟩

def histogramSeries (m : Metric) (extra : Extra) (dp : HistogramPoint) : Series :=
  ⟨m.name, m.unit, "histogram", extra, withoutAttr dp.attributes "le", dp.timeUnixNano,
    dp.payload.count.toFloat, some dp.payload⟩

def expHistogramSeries (m : Metric) (dp : ExpHistogramPoint) : List Series :=
  let series (suffix unit otelType : String) (v : Float) : Series :=
    ⟨m.name ++ suffix, unit, otelType, .plain, dp.attributes, dp.timeUnixNano, v, none⟩
  series "_count" "1" "counter" dp.count.toFloat :: (dp.sum.map (series "_sum" m.unit "counter")).toList
    ++ ((dp.min.map (series "_min" m.unit "gauge")).toList
      ++ (dp.max.map (series "_max" m.unit "gauge")).toList)

def summarySeries (m : Metric) (dp : SummaryPoint) : List Series :=
  let series (name unit otelType : String) (v : Float) (extra : Extra) : Series :=
    ⟨name, unit, otelType, extra, withoutAttr dp.attributes "quantile", dp.timeUnixNano, v, none⟩
  series (m.name ++ "_count") "1" "counter" dp.count.toFloat .plain
    :: series (m.name ++ "_sum") m.unit "counter" dp.sum .plain
    :: dp.quantiles.map fun qv => series m.name m.unit "gauge" qv.2 (.quantile qv.1)

def Metric.series (m : Metric) : List Series :=
  if m.name = "" then []
  else
    match m.data with
    | .gauge points => points.map (numberSeries m "gauge" .plain)
    | .sum isMonotonic t points =>
      points.map (numberSeries m (sumInstrumentType isMonotonic) (ofTemporality t))
    | .histogram t points =>
      (points.filter HistogramPoint.valid).map (histogramSeries m (ofTemporality t))
    | .exponentialHistogram points => points.flatMap (expHistogramSeries m)
    | .summary points => points.flatMap (summarySeries m)
    | .unknown => []

theorem tags_ofTemporality (t : Temporality) :
    (ofTemporality t).tags print = temporalityTags t := by
  cases t <;> rfl

theorem expHistogram_eq (m : Metric) (dp : ExpHistogramPoint) (resourceTags : List Tag) :
    expHistogramToDataPoints print now m.name m.unit dp resourceTags
      = (expHistogramSeries m dp).map (Series.point print now resourceTags) := by
  unfold expHistogramToDataPoints expHistogramSeries minMaxPoints
  cases dp.sum <;> cases dp.min <;> cases dp.max <;> rfl

theorem summary_eq (m : Metric) (dp : SummaryPoint) (resourceTags : List Tag) :
    summaryToDataPoints print now m.name m.unit dp resourceTags
      = (summarySeries m dp).map (Series.point print now resourceTags) := by
  unfold summaryToDataPoints summarySeries
  simp only [List.map_cons, List.map_map]
  rfl

/-- The datapoints of a metric are those of its series. -/
theorem flattenMetric_eq (m : Metric) (resourceTags : List Tag) :
    (flattenMetric print now m resourceTags).1
      = m.series.map (Series.point print now resourceTags) := by
  unfold flattenMetric Metric.series
  split
  next => rfl
  next =>
    cases m.data with
    | gauge points =>
      rw [List.map_map]
      rfl
    | sum isMonotonic t points | histogram t points =>
      dsimp only
      rw [List.map_map, ← tags_ofTemporality print]
      rfl
    | exponentialHistogram points =>
      rw [List.map_flatMap]
      exact List.flatMap_congr fun dp _ => expHistogram_eq print now m dp resourceTags
    | summary points =>
      rw [List.map_flatMap]
      exact List.flatMap_congr fun dp _ => summary_eq print now m dp resourceTags
    | unknown => rfl

/-! ## A metric sent with no attributes -/

def MetricData.bare : MetricData → MetricData
  | .gauge points => .gauge (points.map fun dp => { dp with attributes := [] })
  | .sum isMonotonic t points => .sum isMonotonic t (points.map fun dp => { dp with attributes := [] })
  | .histogram t points => .histogram t (points.map fun dp => { dp with attributes := [] })
  | .exponentialHistogram points =>
    .exponentialHistogram (points.map fun dp => { dp with attributes := [] })
  | .summary points => .summary (points.map fun dp => { dp with attributes := [] })
  | .unknown => .unknown

def Metric.bare (m : Metric) : Metric := { m with data := m.data.bare }

def Series.bare (s : Series) : Series := { s with attrs := [] }

theorem series_bare (m : Metric) : m.bare.series = m.series.map Series.bare := by
  unfold Metric.series Metric.bare
  split
  next => rfl
  next =>
    cases m.data with
    | gauge points | sum isMonotonic t points =>
      simp only [MetricData.bare, List.map_map]
      rfl
    | histogram t points =>
      simp only [MetricData.bare, List.filter_map, List.map_map]
      rfl
    | exponentialHistogram points =>
      simp only [MetricData.bare, List.flatMap_map, List.map_flatMap]
      refine List.flatMap_congr fun dp _ => ?_
      unfold expHistogramSeries
      cases dp.sum <;> cases dp.min <;> cases dp.max <;> rfl
    | summary points =>
      simp only [MetricData.bare, List.flatMap_map, List.map_flatMap]
      refine List.flatMap_congr fun dp _ => ?_
      simp only [summarySeries, List.map_cons, List.map_map]
      rfl
    | unknown => rfl

end

/-! ## From a series to its record -/

/-- A receiver and the sink that reads it. -/
structure Pipeline where
  print : Printing
  now : Instant
  receivedAt : Instant
  probeName : String
  probeType : String
  load : String → Option Transformer
  includeProbeTags : Bool
  byDefinition : StoredMetric → Except String (List OtelRecord)

/-- The point as the data store hands it on. -/
def Pipeline.handedOn (p : Pipeline) (dp : DataPoint) : DataPoint :=
  applyUnitCorrection p.load (enrichDataPoint p.probeName p.probeType (withoutProbeIdentity dp))

def Pipeline.exportPoint (p : Pipeline) (dp : DataPoint) : Except String (List OtelRecord) :=
  resolve p.byDefinition p.includeProbeTags ((p.handedOn dp).entry p.receivedAt p.now)

/-- What a metric of a request is exported as. -/
def Pipeline.exported (p : Pipeline) (m : Metric) (resource : List KeyValue) :
    List (Except String (List OtelRecord)) :=
  (flattenMetric p.print p.now m (attributesToTags p.print resource)).1.map p.exportPoint

/-- The unit the probe's definition has for a name. -/
def Pipeline.declaredUnit (p : Pipeline) (name : String) : String :=
  if p.probeName = "" then ""
  else
    match p.load (if p.probeType = "" then p.probeName else p.probeType) with
    | none => ""
    | some t => t.getUnit name

section

variable (p : Pipeline) (resource : List KeyValue) (s : Series)

/-- The tags the receiver hands over for a series. -/
def Pipeline.receivedTags : List Tag :=
  (enrichDataPoint p.probeName p.probeType (withoutProbeIdentity
    (s.point p.print p.now (attributesToTags p.print resource)))).tags

theorem public_receivedTags : Public (p.receivedTags resource s) := by
  have hextra : Public (s.extra.tags p.print) := by
    cases s.extra <;> simp [Public, Extra.tags, temporalityTags, plainTag]
  have hresource := public_attributesToTags p.print resource
  have hattrs := public_attributesToTags p.print s.attrs
  intro t ht
  simp only [Pipeline.receivedTags, enrichDataPoint, withoutProbeIdentity, Series.point, ingestTags,
    mergeTags, List.mem_append, List.mem_filter, List.mem_cons, List.not_mem_nil, or_false] at ht
  rcases ht with ⟨(((⟨h, -⟩ | h) | rfl | rfl) | h) | h, -⟩ | rfl | rfl
  · exact hresource t h
  · exact hattrs t h
  · rfl
  · rfl
  · split at h
    · rw [List.mem_singleton.mp h]
      rfl
    · cases h
  · exact hextra t h
  · rfl
  · rfl

/-- A key that names no probe reads as it was decoded. -/
theorem lastTag_received (hname : k ≠ "probe_name") (htype : k ≠ "probe_type") :
    lastTag k (p.receivedTags resource s) = lastTag k (ingestTags p.print s.unit s.otelType s.attrs
      (attributesToTags p.print resource) (s.extra.tags p.print)) := by
  simp only [Pipeline.receivedTags, enrichDataPoint, withoutProbeIdentity, Series.point]
  have hkept : (!(k == "probe_name" || k == "probe_type")) = true := by simp [hname, htype]
  rw [lastTag_append, lastTag_eq_none_iff.mpr, Option.none_or]
  · exact lastTag_filter (p := fun key => !(key == "probe_name" || key == "probe_type")) hkept _
  · intro t ht
    simp only [List.mem_cons, List.not_mem_nil, or_false] at ht
    rcases ht with rfl | rfl
    · exact Ne.symm hname
    · exact Ne.symm htype

theorem received_probeName : lastTag "probe_name" (p.receivedTags resource s) = some p.probeName := by
  simp only [Pipeline.receivedTags, enrichDataPoint, lastTag_append]
  rfl

theorem received_probeType : lastTag "probe_type" (p.receivedTags resource s) = some p.probeType := by
  simp only [Pipeline.receivedTags, enrichDataPoint, lastTag_append]
  rfl

theorem lastTag_ingest (hk : k ≠ "") : lastTag k (ingestTags p.print s.unit s.otelType
      s.attrs (attributesToTags p.print resource) (s.extra.tags p.print))
    = ((lastTag k (s.extra.tags p.print)).or (if s.unit ≠ "" ∧ "unit" = k then some s.unit else none)).or
      ((lastTag k [plainTag "metric_type" metricTypeOTLPIngest, plainTag "otel_type" s.otelType]).or
        (sent p.print k resource s.attrs)) := by
  have hunit : lastTag k (if s.unit ≠ "" then [plainTag "unit" s.unit] else [])
      = if s.unit ≠ "" ∧ "unit" = k then some s.unit else none := by
    by_cases h : s.unit = ""
    · simp [h, lastTag, latest]
    · simp only [ne_eq, h, not_false_eq_true, if_true, true_and, lastTag_plainTag]
  unfold ingestTags sent
  rw [lastTag_append, lastTag_append, lastTag_append, lastTag_mergeTags, hunit,
    lastTag_attributesToTags p.print hk, lastTag_attributesToTags p.print hk]
  simp only [Option.or_assoc]

theorem lastTag_received_of_ne_unit (hname : k ≠ "probe_name") (htype : k ≠ "probe_type")
    (hunit : "unit" ≠ k) (hk : k ≠ "") : lastTag k (p.receivedTags resource s)
      = (lastTag k (s.extra.tags p.print)).or
        ((lastTag k [plainTag "metric_type" metricTypeOTLPIngest, plainTag "otel_type" s.otelType]).or
          (sent p.print k resource s.attrs)) := by
  rw [lastTag_received p resource s hname htype, lastTag_ingest p resource s hk,
    if_neg fun h => hunit h.2, Option.or_none]

theorem received_metricType :
    lastTag "metric_type" (p.receivedTags resource s) = some metricTypeOTLPIngest := by
  rw [lastTag_received_of_ne_unit p resource s (by decide) (by decide) (by decide) (by decide)]
  have hextra : lastTag "metric_type" (s.extra.tags p.print) = none := by cases s.extra <;> rfl
  rw [hextra]
  rfl

theorem received_otelType : lastTag "otel_type" (p.receivedTags resource s) = some s.otelType := by
  rw [lastTag_received_of_ne_unit p resource s (by decide) (by decide) (by decide) (by decide)]
  have hextra : lastTag "otel_type" (s.extra.tags p.print) = none := by cases s.extra <;> rfl
  rw [hextra]
  rfl

theorem received_unit : lastTag "unit" (p.receivedTags resource s)
    = if s.unit ≠ "" then some s.unit else sent p.print "unit" resource s.attrs := by
  rw [lastTag_received p resource s (by decide) (by decide), lastTag_ingest p resource s (by decide)]
  have hextra : lastTag "unit" (s.extra.tags p.print) = none := by cases s.extra <;> rfl
  have hcontrol : lastTag "unit" [plainTag "metric_type" metricTypeOTLPIngest,
      plainTag "otel_type" s.otelType] = none := rfl
  rw [hextra, hcontrol]
  by_cases h : s.unit = "" <;> simp [h]

/-- A series the receiver tags as a delta. -/
def Series.isDelta : Series → Bool
  | ⟨_, _, _, .delta, _, _, _, _⟩ => true
  | _ => false

theorem received_temporality : lastTag temporalityTagKey (p.receivedTags resource s)
    = if s.isDelta then some temporalityDelta
      else sent p.print temporalityTagKey resource s.attrs := by
  rw [lastTag_received_of_ne_unit p resource s (by decide) (by decide) (by decide) (by decide)]
  have hcontrol : lastTag temporalityTagKey [plainTag "metric_type" metricTypeOTLPIngest,
      plainTag "otel_type" s.otelType] = none := rfl
  rw [hcontrol, Option.none_or]
  rcases s with ⟨name, unit, otelType, extra, attrs, time, value, histogram⟩
  cases extra <;> rfl

/-! ## What the record says -/

theorem handedOn_tags :
    (p.handedOn (s.point p.print p.now (attributesToTags p.print resource))).tags
      = if lastTag "unit" (p.receivedTags resource s) = none ∧ p.declaredUnit s.name ≠ "" then
          p.receivedTags resource s ++ [plainTag "unit" (p.declaredUnit s.name)]
        else p.receivedTags resource s := by
  have hname : tagValue (tagMapOf (p.receivedTags resource s)) "probe_name" = p.probeName := by
    rw [tagValue, lookup_tagMapOf, received_probeName, Option.getD_some]
  have htype : tagValue (tagMapOf (p.receivedTags resource s)) "probe_type" = p.probeType := by
    rw [tagValue, lookup_tagMapOf, received_probeType, Option.getD_some]
  unfold Pipeline.handedOn applyUnitCorrection Pipeline.declaredUnit
  dsimp only
  rw [← Pipeline.receivedTags, hname, htype, lookup_tagMapOf]
  by_cases hempty : p.probeName = ""
  · rw [if_pos hempty, if_pos hempty, if_neg fun h => h.2 rfl]
    rfl
  · simp only [hempty, if_false]
    cases p.load (if p.probeType = "" then p.probeName else p.probeType) with
    | none =>
      simp only [ne_eq, not_true_eq_false, and_false, if_false]
      rfl
    | some t =>
      simp only [Option.isNone_iff_eq_none]
      rfl

/-- The metric as the store has it. -/
def Pipeline.stored : StoredMetric :=
  (p.handedOn (s.point p.print p.now (attributesToTags p.print resource))).entry p.receivedAt p.now

theorem stored_tags : (p.stored resource s).tags
    = flattenTags (p.handedOn (s.point p.print p.now (attributesToTags p.print resource))).tags := by
  unfold Pipeline.stored
  generalize p.handedOn _ = dp
  rfl

/-- The identity and the unit are read from the tags. -/
theorem stored_fields : (p.stored resource s).probeName = tagValue (p.stored resource s).tags "probe_name" ∧
    (p.stored resource s).probeType = tagValue (p.stored resource s).tags "probe_type" ∧
    (p.stored resource s).unit = tagValue (p.stored resource s).tags "unit" := by
  unfold Pipeline.stored
  generalize p.handedOn _ = dp
  exact ⟨rfl, rfl, rfl⟩

theorem stored_name : (p.stored resource s).metricName = s.name := by
  unfold Pipeline.stored DataPoint.entry Pipeline.handedOn applyUnitCorrection
  dsimp only
  split
  · rfl
  · split <;> rfl

theorem stored_histogram : (p.stored resource s).histogram = s.histogram := by
  unfold Pipeline.stored DataPoint.entry Pipeline.handedOn applyUnitCorrection
  dsimp only
  split
  · rfl
  · split <;> rfl

theorem stored_lookup (k : String) : (p.stored resource s).tags.lookup k
    = (lastTag k (p.receivedTags resource s)).or
      (if p.declaredUnit s.name ≠ "" ∧ "unit" = k then some (p.declaredUnit s.name) else none) := by
  have hpublic := public_receivedTags p resource s
  rw [stored_tags, handedOn_tags]
  split
  next h =>
    have hboth : Public (p.receivedTags resource s ++ [plainTag "unit" (p.declaredUnit s.name)]) := by
      intro t ht
      rcases List.mem_append.mp ht with ht | ht
      · exact hpublic t ht
      · rw [List.mem_singleton.mp ht]
        rfl
    rw [lookup_flattenTags hboth, lastTag_append, lastTag_plainTag]
    by_cases hk : "unit" = k
    · subst hk
      simp [h.1, h.2]
    · simp [hk]
  next h =>
    rw [lookup_flattenTags hpublic]
    by_cases hk : p.declaredUnit s.name ≠ "" ∧ "unit" = k
    · obtain ⟨hunit, rfl⟩ := hk
      obtain ⟨v, hv⟩ := Option.ne_none_iff_exists'.mp fun hnone => h ⟨hnone, hunit⟩
      rw [hv, Option.some_or]
    · rw [if_neg hk, Option.or_none]

theorem stored_tagValue (hk : "unit" ≠ k) : tagValue (p.stored resource s).tags k
    = (lastTag k (p.receivedTags resource s)).getD "" := by
  rw [tagValue, stored_lookup, if_neg fun h => hk h.2, Option.or_none]

theorem stored_unit : (p.stored resource s).unit
    = if s.unit ≠ "" then s.unit
      else (sent p.print "unit" resource s.attrs).getD (p.declaredUnit s.name) := by
  rw [(stored_fields p resource s).2.2, tagValue, stored_lookup, received_unit]
  by_cases hunit : s.unit = ""
  · by_cases hdeclared : p.declaredUnit s.name = ""
    · simp [hunit, hdeclared]
    · cases sent p.print "unit" resource s.attrs <;> simp [hunit, hdeclared]
  · simp [hunit]

theorem stored_probeName : (p.stored resource s).probeName = p.probeName := by
  rw [(stored_fields p resource s).1, stored_tagValue p resource s (by decide), received_probeName, Option.getD_some]

theorem stored_probeType : (p.stored resource s).probeType = p.probeType := by
  rw [(stored_fields p resource s).2.1, stored_tagValue p resource s (by decide), received_probeType, Option.getD_some]

def Pipeline.record : OtelRecord := resolveOTLPIngested (p.stored resource s) p.includeProbeTags

/-- Whatever the sender's `metric_type`, the metric is resolved as an ingested one. -/
theorem exportPoint_eq :
    p.exportPoint (s.point p.print p.now (attributesToTags p.print resource))
      = .ok [p.record resource s] := by
  show resolve p.byDefinition p.includeProbeTags (p.stored resource s) = _
  unfold resolve
  rw [stored_tagValue p resource s (by decide), received_metricType, Option.getD_some, if_pos rfl]
  rfl

/-- What a metric is: name, instrument type, temporality and unit. -/
def kindOf (r : OtelRecord) : String × String × String × String :=
  (r.name, r.type, r.temporality, r.unit)

/-- The instrument type of a series' record. -/
def Series.recordType : String :=
  if s.histogram.isSome then "histogram"
  else if s.otelType == "counter" || s.otelType == "gauge" || s.otelType == "updowncounter" then
    s.otelType
  else "gauge"

theorem record_kind : kindOf (p.record resource s)
    = (s.name, s.recordType,
      if s.isDelta ∨ sent p.print temporalityTagKey resource s.attrs = some temporalityDelta then
        temporalityDelta else "",
      if s.unit ≠ "" then s.unit
        else (sent p.print "unit" resource s.attrs).getD (p.declaredUnit s.name)) := by
  have htype : (p.record resource s).type = s.recordType := by
    unfold Pipeline.record resolveOTLPIngested Series.recordType
    rw [stored_histogram, stored_tagValue p resource s (by decide), received_otelType,
      Option.getD_some]
  have htemporality : (p.record resource s).temporality
      = if s.isDelta ∨ sent p.print temporalityTagKey resource s.attrs = some temporalityDelta then
        temporalityDelta else "" := by
    unfold Pipeline.record resolveOTLPIngested temporalityFromTags
    dsimp only
    rw [stored_tagValue p resource s (by decide), received_temporality]
    cases s.isDelta with
    | true => simp
    | false =>
      cases sent p.print temporalityTagKey resource s.attrs with
      | none => simp [temporalityDelta]
      | some v => simp
  unfold kindOf
  rw [htype, htemporality]
  unfold Pipeline.record
  rw [resolveOTLPIngested_name, resolveOTLPIngested_unit, stored_name, stored_unit]

theorem lookup_foldl_passing (hk : ∀ v, passesAsAttribute k v = false) :
    ∀ (es : List (Sigma fun _ : String => String)) (attrs : AssocMap String String),
      ((es.filter fun e => passesAsAttribute e.1 e.2).foldl (fun attrs e => attrs.insert e.1 e.2)
        attrs).lookup k = attrs.lookup k := by
  intro es
  induction es with
  | nil => intro attrs; rfl
  | cons e es ih =>
    intro attrs
    by_cases hpass : passesAsAttribute e.1 e.2 = true
    · have hne : k ≠ e.1 := fun h => by
        rw [← h, hk] at hpass
        cases hpass
      rw [List.filter_cons, if_pos hpass, List.foldl_cons, ih, AList.lookup_insert_ne hne]
    · rw [List.filter_cons, if_neg hpass, ih]

/-- The record carries the receiver's identity, whatever the sender called itself. -/
theorem record_identity : (p.record resource s).attributes.lookup "probe_name" = some p.probeName ∧
    (p.probeType ≠ "" → (p.record resource s).attributes.lookup "probe_type" = some p.probeType) := by
  have hbase : ∀ k, (∀ v, passesAsAttribute k v = false) →
      (p.record resource s).attributes.lookup k
        = (if p.probeType ≠ "" then
            ((∅ : AssocMap String String).insert "probe_name" p.probeName).insert "probe_type" p.probeType
          else (∅ : AssocMap String String).insert "probe_name" p.probeName).lookup k := by
    intro k hk
    unfold Pipeline.record resolveOTLPIngested
    dsimp only
    rw [stored_probeName, stored_probeType]
    split
    · exact lookup_foldl_passing hk _ _
    · rfl
  refine ⟨?_, fun htype => ?_⟩
  · rw [hbase _ fun v => by simp [passesAsAttribute, isSystemTag]]
    split
    · rw [AList.lookup_insert_ne (by decide), AList.lookup_insert]
    · rw [AList.lookup_insert]
  · rw [hbase _ fun v => by simp [passesAsAttribute, isSystemTag], if_pos htype, AList.lookup_insert]

/-- With no attributes, only the receiver speaks. -/
theorem record_kind_bare : kindOf (p.record [] s.bare)
    = (s.name, s.recordType, if s.isDelta then temporalityDelta else "",
      if s.unit ≠ "" then s.unit else p.declaredUnit s.name) := by
  rw [record_kind]
  have hsent : ∀ k, sent p.print k [] s.bare.attrs = none := fun _ => rfl
  rw [hsent, hsent]
  rcases s with ⟨name, unit, otelType, extra, attrs, time, value, histogram⟩
  cases extra <;> rfl

/-- No attribute of the sender stands where the receiver sets no control tag: none under `unit`
for a series without a unit, unless it says what the definition says, and no `delta` under
`otel_temporality` for a series that is no delta. -/
def Series.Quiet : Prop :=
  (s.unit = "" → ∀ v, sent p.print "unit" resource s.attrs = some v → v = p.declaredUnit s.name) ∧
    (s.isDelta = false → sent p.print temporalityTagKey resource s.attrs ≠ some temporalityDelta)

theorem kind_eq_bare_iff :
    kindOf (p.record resource s) = kindOf (p.record [] s.bare) ↔ s.Quiet p resource := by
  rw [record_kind, record_kind_bare]
  simp only [Prod.mk.injEq, true_and]
  refine and_comm.trans (and_congr ?_ ?_)
  · by_cases hunit : s.unit = ""
    · simp only [hunit, ne_eq, not_true_eq_false, if_false, true_imp_iff]
      cases sent p.print "unit" resource s.attrs with
      | none => simp
      | some v => simp
    · simp [hunit]
  · cases s.isDelta with
    | true => simp
    | false =>
      by_cases hsent : sent p.print temporalityTagKey resource s.attrs = some temporalityDelta
      · simp [hsent, temporalityDelta]
      · simp [hsent]

end

theorem exported_eq (p : Pipeline) (m : Metric) (resource : List KeyValue) :
    p.exported m resource = (m.series.map (p.record resource)).map fun r => .ok [r] := by
  unfold Pipeline.exported
  rw [flattenMetric_eq, List.map_map, List.map_map]
  refine List.map_congr_left fun s _ => ?_
  rw [Function.comp_apply, Function.comp_apply, exportPoint_eq]

/-- **What the sender's attributes can change.** Every record carries the receiver's identity.
The records are of the same kind (name, instrument type, temporality, unit) as those of the
metric sent with no attributes exactly when every series of the metric is quiet. -/
theorem attributes_keep_kind_iff (p : Pipeline) (m : Metric) (resource : List KeyValue) :
    ∃ records bare : List OtelRecord, p.exported m resource = records.map (fun r => .ok [r]) ∧
      p.exported m.bare [] = bare.map (fun r => .ok [r]) ∧
      (∀ r ∈ records, r.attributes.lookup "probe_name" = some p.probeName ∧
        (p.probeType ≠ "" → r.attributes.lookup "probe_type" = some p.probeType)) ∧
      (records.map kindOf = bare.map kindOf ↔ ∀ s ∈ m.series, s.Quiet p resource) := by
  refine ⟨m.series.map (p.record resource), m.bare.series.map (p.record []),
    exported_eq p m resource, exported_eq p m.bare [], ?_, ?_⟩
  · intro r hr
    obtain ⟨s, _, rfl⟩ := List.mem_map.mp hr
    exact record_identity p resource s
  · rw [series_bare, List.map_map, List.map_map, List.map_map, List.map_inj_left]
    refine forall₂_congr fun s _ => ?_
    rw [Function.comp_apply, Function.comp_apply, Function.comp_apply]
    exact kind_eq_bare_iff p resource s

/-! ## Two attributes that are read as control tags -/

/-- A receiver whose definition knows no units. -/
def plainReceiver : Pipeline where
  print := ⟨fun _ => "0", fun _ => "0", fun _ => ""⟩
  now := 0
  receivedAt := 0
  probeName := "apps"
  probeType := "otlp_receiver"
  load := fun _ => none
  includeProbeTags := true
  byDefinition := fun _ => .error "no definition"

def oneSum (attrs : List KeyValue) : Metric :=
  ⟨"requests", "", .sum true .cumulative [⟨attrs, 0, 1⟩]⟩

/-- The kinds of the records of a metric. -/
def kinds (exported : List (Except String (List OtelRecord))) :
    List (String × String × String × String) :=
  exported.flatMap fun
    | .ok records => records.map kindOf
    | .error _ => []

/-- A cumulative counter without a unit, sent with the attributes `otel_temporality=delta` and
`unit=By`, is exported as a delta in bytes. -/
theorem attributes_retype :
    kinds (plainReceiver.exported (oneSum []) []) = [("requests", "counter", "", "")] ∧
    kinds (plainReceiver.exported (oneSum [⟨"otel_temporality", some (.string "delta")⟩,
      ⟨"unit", some (.string "By")⟩]) []) = [("requests", "counter", "delta", "By")] := by
  decide +kernel

end SenhubAgent.OtlpReceiver

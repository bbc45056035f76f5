import Mathlib.Data.List.Find
import Mathlib.Data.List.Induction
import SenhubAgent.Otlp.StoreAccount

/-!
# A batch supersedes the run before it

The OTLP and the Zabbix output keep the latest value of every series. When a probe delivers a
batch, both hand the probe's name to `retireSuperseded`, which takes out (OTLP) or marks
(Zabbix) the probe's series that were received more than half a cadence before.

The name is read from the point's tags beside the store, which reads it again when it files the
point, and the two readings differ: the OTLP output takes the last tag, a private one too, the
Zabbix output the first, and the stores file a point under the last public one. A point the store
refuses hands its name over as well. A batch supersedes the run before it exactly when the names
read are those of the points the store takes (`batch_supersedes_iff`).

Mirroring notes:
- The memory guard's answer and the clock may change from point to point and are given with it.
- Go ranges over a map in no fixed order; the loops take the order as an argument.
- The Zabbix store's key and what else an entry holds follow the source; nothing here depends
  on them.
-/

namespace SenhubAgent.DataStore

open SenhubAgent.Lib SenhubAgent.Otlp

/-! ## One loop over a batch -/

section Loop

variable {σ β : Type} (skip : β → Bool) (upsert : σ → β → σ) (nameOf : β → String)
  (storedAs : σ → β → Option String)

/-- The loop of `AddDataPoints`: the store after it, and `probes`. -/
def addLoop : List β → σ × List String → σ × List String
  | [], r => r
  | d :: batch, (s, probes) =>
    if skip d then addLoop batch (s, probes)
    else addLoop batch (upsert s d, if nameOf d ≠ "" then probes.insert (nameOf d) else probes)

/-- The names under which the loop stores a series. -/
def storedNames : List β → σ → List String
  | [], _ => []
  | d :: batch, s =>
    if skip d then storedNames batch s else (storedAs s d).toList ++ storedNames batch (upsert s d)

variable {skip upsert nameOf storedAs}

variable {p : String}

theorem mem_probes :
    ∀ {batch : List β} {s : σ} {probes : List String},
      p ∈ (addLoop skip upsert nameOf batch (s, probes)).2 ↔
        p ∈ probes ∨ p ≠ "" ∧ ∃ d ∈ batch, skip d = false ∧ nameOf d = p := by
  intro batch
  induction batch with
  | nil => simp [addLoop]
  | cons d batch ih =>
    intro s probes
    unfold addLoop
    split
    next hskip =>
      rw [ih]
      simp [hskip]
    next hskip =>
      rw [ih]
      split
      next hname =>
        rw [List.mem_insert_iff, List.exists_mem_cons_iff]
        grind
      next hname =>
        rw [List.exists_mem_cons_iff]
        grind

/-- A point of the batch meets `P`, with the store as it is when its turn comes. -/
def Meets (skip : β → Bool) (upsert : σ → β → σ) (P : σ → β → Prop) : List β → σ → Prop
  | [], _ => False
  | d :: batch, s =>
    if skip d then Meets skip upsert P batch s
    else P s d ∨ Meets skip upsert P batch (upsert s d)

theorem meets_congr {P Q : σ → β → Prop} (h : ∀ s d, P s d ↔ Q s d) :
    ∀ {batch : List β} {s : σ}, Meets skip upsert P batch s ↔ Meets skip upsert Q batch s := by
  intro batch
  induction batch with
  | nil => exact Iff.rfl
  | cons d batch ih =>
    intro s
    unfold Meets
    split
    next => exact ih
    next => exact or_congr (h s d) ih

theorem meets_never {P : σ → β → Prop} (h : ∀ s d, ¬ P s d) :
    ∀ {batch : List β} {s : σ}, ¬ Meets skip upsert P batch s := by
  intro batch
  induction batch with
  | nil => exact id
  | cons d batch ih =>
    intro s
    unfold Meets
    split
    next => exact ih
    next => exact not_or.mpr ⟨h s d, ih⟩

theorem mem_storedNames :
    ∀ {batch : List β} {s : σ}, p ∈ storedNames skip upsert storedAs batch s ↔
      Meets skip upsert (fun s d => storedAs s d = some p) batch s := by
  intro batch
  induction batch with
  | nil => exact iff_of_false List.not_mem_nil id
  | cons d batch ih =>
    intro s
    unfold storedNames Meets
    split
    next => exact ih
    next => rw [List.mem_append, Option.mem_toList, ih]

/-- The non-empty names read from the batch are those of the points the store takes. -/
def NamesAgree (skip : β → Bool) (upsert : σ → β → σ) (reads : β → String → Prop)
    (takes : σ → β → String → Prop) (batch : List β) (s : σ) : Prop :=
  ∀ p, p ≠ "" → ((∃ d ∈ batch, skip d = false ∧ reads d p) ↔
    Meets skip upsert (fun s d => takes s d p) batch s)

/-- The loop hands over the names it stores under exactly when these agree. -/
theorem handed_iff {reads : β → String → Prop} {takes : σ → β → String → Prop} {batch : List β}
    {s : σ} (hreads : ∀ d p, p ≠ "" → (nameOf d = p ↔ reads d p))
    (htakes : ∀ s d p, storedAs s d = some p ↔ p ≠ "" ∧ takes s d p) :
    (∀ p, p ∈ (addLoop skip upsert nameOf batch (s, [])).2 ↔
        p ∈ storedNames skip upsert storedAs batch s) ↔
      NamesAgree skip upsert reads takes batch s := by
  unfold NamesAgree
  refine forall_congr' fun p => ?_
  rw [mem_probes, mem_storedNames]
  by_cases hp : p = ""
  · have hnone : ¬ Meets skip upsert (fun s d => storedAs s d = some p) batch s := by
      rw [meets_congr fun s d => htakes s d p]
      exact meets_never fun s d h => h.1 hp
    simp [hp, hp ▸ hnone]
  · have hread : ∀ d, nameOf d = p ↔ reads d p := fun d => hreads d p hp
    have htake : ∀ s d, storedAs s d = some p ↔ takes s d p := fun s d =>
      (htakes s d p).trans (and_iff_right hp)
    rw [meets_congr htake]
    simp [hp, hread]

end Loop

/-! ## Two readings of a tag -/

theorem lookup_flattenTags (ts : List Tag) (key : String) :
    (flattenTags ts).lookup key =
      (ts.reverse.find? fun t => !t.isPrivate && t.key == key).map (·.value) := by
  induction ts using List.reverseRecOn with
  | nil => rfl
  | append_singleton ts t ih =>
    unfold flattenTags at ih ⊢
    rw [List.foldl_concat, List.reverse_concat, List.find?_cons]
    cases hpriv : t.isPrivate with
    | true => simpa using ih
    | false =>
      by_cases hkey : t.key = key
      · subst hkey
        simp
      · have hne : key ≠ t.key := fun h => hkey h.symm
        simpa [hpriv, beq_false_of_ne hkey, AList.lookup_insert_ne hne] using ih

/-- `dataPointTag`: the last occurrence. -/
def dataPointTag (dp : DataPoint) (key : String) : String :=
  ((dp.tags.reverse.find? fun t => t.key == key).map (·.value)).getD ""

/-- The Zabbix output's `tagValue`: the first occurrence. -/
def firstTagValue (ts : List Tag) (key : String) : String :=
  ((ts.find? fun t => t.key == key).map (·.value)).getD ""

variable {dp : DataPoint} {key : String} {arrival : Instant}

/-- The first tag that `wanted` holds of has the value `v`. -/
def FirstValue (wanted : Tag → Bool) (ts : List Tag) (v : String) : Prop :=
  ∃ before t after, ts = before ++ t :: after ∧ (∀ t' ∈ before, wanted t' = false) ∧
    wanted t = true ∧ t.value = v

/-- The last tag that `wanted` holds of has the value `v`. -/
def LastValue (wanted : Tag → Bool) (ts : List Tag) (v : String) : Prop :=
  ∃ before t after, ts = before ++ t :: after ∧ (∀ t' ∈ after, wanted t' = false) ∧
    wanted t = true ∧ t.value = v

def isKey (key : String) (t : Tag) : Bool := t.key == key

def isPublicKey (key : String) (t : Tag) : Bool := !t.isPrivate && t.key == key

theorem lastValue_iff_reverse {wanted : Tag → Bool} {ts : List Tag} {v : String} :
    LastValue wanted ts v ↔ FirstValue wanted ts.reverse v := by
  constructor
  · rintro ⟨before, t, after, rfl, hafter, ht⟩
    exact ⟨after.reverse, t, before.reverse, by simp, by simpa using hafter, ht⟩
  · rintro ⟨before, t, after, hts, hbefore, ht⟩
    refine ⟨after.reverse, t, before.reverse, ?_, by simpa using hbefore, ht⟩
    rw [← List.reverse_reverse ts, hts]
    simp

/-- A lookup that answers `""` for no tag finds another value on a tag. -/
theorem find_value_iff {wanted : Tag → Bool} {ts : List Tag} {v : String} (hv : v ≠ "") :
    ((ts.find? wanted).map (·.value)).getD "" = v ↔ FirstValue wanted ts v := by
  unfold FirstValue
  cases hfind : ts.find? wanted with
  | none =>
    rw [List.find?_eq_none] at hfind
    refine ⟨fun h => absurd h.symm hv, ?_⟩
    rintro ⟨before, t, after, rfl, -, ht, -⟩
    exact absurd ht (hfind t (by simp))
  | some t =>
    obtain ⟨ht, before, after, hts, hbefore⟩ := List.find?_eq_some_iff_append.mp hfind
    constructor
    · intro h
      exact ⟨before, t, after, hts, fun t' ht' => by simpa using hbefore t' ht', ht, h⟩
    · rintro ⟨before', t', after', hts', hbefore', ht', rfl⟩
      have hfind' : ts.find? wanted = some t' :=
        List.find?_eq_some_iff_append.mpr
          ⟨ht', before', after', hts', fun a ha => by simpa using hbefore' a ha⟩
      rw [Option.some.inj (hfind.symm.trans hfind')]
      rfl

theorem dataPointTag_iff {v : String} (hv : v ≠ "") :
    dataPointTag dp key = v ↔ LastValue (isKey key) dp.tags v :=
  (find_value_iff hv).trans lastValue_iff_reverse.symm

theorem firstTagValue_iff {ts : List Tag} {v : String} (hv : v ≠ "") :
    firstTagValue ts key = v ↔ FirstValue (isKey key) ts v :=
  find_value_iff hv

theorem tagValue_iff {ts : List Tag} {v : String} (hv : v ≠ "") :
    tagValue (flattenTags ts) key = v ↔ LastValue (isPublicKey key) ts v := by
  rw [tagValue, lookup_flattenTags]
  exact (find_value_iff hv).trans lastValue_iff_reverse.symm

/-- The point has a probe type, as the stores read it. -/
def Typed (dp : DataPoint) : Prop :=
  ∃ v, v ≠ "" ∧ LastValue (isPublicKey "probe_type") dp.tags v

theorem typed_iff : Typed dp ↔ tagValue (flattenTags dp.tags) "probe_type" ≠ "" := by
  constructor
  · rintro ⟨v, hv, hlast⟩
    rwa [(tagValue_iff hv).mpr hlast]
  · exact fun h => ⟨_, h, (tagValue_iff h).mp rfl⟩

/-! ## What a batch does -/

/-- A batch at `arrival` follows what was stored: the names it hands over, and the series before
and after these are superseded. -/
structure Supersedes {E : Type} (probeOf : E → String) (receivedAt : E → Instant)
    (interval : String → Duration) (arrival : Instant) (stored : String → Prop)
    (probes : List String) (before after : String → Option E) : Prop where
  /-- the names are those under which a series was stored -/
  handed : ∀ p, p ∈ probes ↔ stored p
  /-- no series of these probes is left from an earlier run -/
  fresh : ∀ k e, after k = some e → stored (probeOf e) → 0 < interval (probeOf e) →
    timeSub arrival (receivedAt e) ≤ (interval (probeOf e)).tdiv 2
  others : ∀ k e, before k = some e → ¬ stored (probeOf e) → after k = some e

/-- A series of a probe of the batch that an earlier run reported. -/
def superseded (interval : String → Duration) (probes : List String) (arrival : Instant)
    (probe : String) (receivedAt : Instant) : Bool :=
  decide (probe ∈ probes) &&
    !(decide (interval probe ≤ 0) || decide (timeSub arrival receivedAt ≤ (interval probe).tdiv 2))

theorem superseded_nil (interval : String → Duration) (arrival : Instant) (probe : String)
    (receivedAt : Instant) : superseded interval [] arrival probe receivedAt = false := rfl

theorem filter_all {E : Type} (o : Option E) : (o.filter fun _ => true) = o := by
  cases o <;> rfl

/-- Where the pass over the series takes out the superseded ones, all rests on the names. -/
theorem supersedes_iff_handed {E : Type} {probeOf : E → String} {receivedAt : E → Instant}
    {interval : String → Duration} {stored : String → Prop}
    {probes : List String} {before after : String → Option E} (order : List String)
    (horder : ∀ k e, before k = some e → k ∈ order)
    (hafter : ∀ k, after k = (before k).filter fun e =>
      !(decide (k ∈ order) && superseded interval probes arrival (probeOf e) (receivedAt e))) :
    Supersedes probeOf receivedAt interval arrival stored probes before after ↔
      ∀ p, p ∈ probes ↔ stored p := by
  refine ⟨Supersedes.handed, fun handed => ⟨handed, fun k e he hp hint => ?_, fun k e he hp => ?_⟩⟩
  · rw [hafter, Option.filter_eq_some_iff] at he
    obtain ⟨hbefore, hkeep⟩ := he
    have hnot : ¬interval (probeOf e) ≤ 0 := by simpa using hint
    simpa [superseded, horder k e hbefore, (handed _).mpr hp, hnot] using hkeep
  · rw [hafter, he, Option.filter_some, superseded, decide_eq_false (mt (handed _).mp hp)]
    simp

/-- The probe's name as the stores file a point under it. -/
def probeNameOf (dp : DataPoint) : String := tagValue (flattenTags dp.tags) "probe_name"

/-! ## The OTLP output -/

/-- A point as it comes: the memory guard's answer to it, and the clock. -/
structure Delivery where
  point : DataPoint
  guard : Option MemoryState
  now : Instant

/-- The verbatim relay takes the point. -/
def relayed (relay : Bool) (d : Delivery) : Bool :=
  relay && dataPointTag d.point "probe_type" == "otlp_receiver"

def otlpUpsert (arrival : Instant) (s : MetricStore) (d : Delivery) : MetricStore :=
  (s.upsertAt d.guard d.point arrival d.now).1

/-- The name a series is stored under for the point, if one is. -/
def otlpStoredAs (arrival : Instant) (s : MetricStore) (d : Delivery) : Option String :=
  if (s.upsertAt d.guard d.point arrival d.now).2 = .stored then some (probeNameOf d.point) else none

/-- The store and `probes` at the end of the loop of `AddDataPoints`. -/
def otlpLoop (relay : Bool) (arrival : Instant) (s : MetricStore) (batch : List Delivery) :
    MetricStore × List String :=
  addLoop (relayed relay) (otlpUpsert arrival) (fun d => dataPointTag d.point "probe_name") batch (s, [])

/-- `OTLPSyncStrategy.AddDataPoints` -/
def otlpAddDataPoints (relay : Bool) (arrival : Instant) (s : MetricStore) (batch : List Delivery)
    (order : List String) : MetricStore :=
  let r := otlpLoop relay arrival s batch
  if 0 < r.2.length then (r.1.retireSuperseded r.2 arrival order).1 else r.1

theorem entries_dropWhere (stale : StoredMetric → Bool)
    (uncount : AssocMap String Nat → String → AssocMap String Nat) :
    ∀ (order : List String) (s : MetricStore),
      (MetricStore.dropWhere stale uncount order s).1.entries =
        eraseWhere (fun _ e => stale e) order s.entries := by
  intro order
  induction order with
  | nil => intro s; rfl
  | cons k order ih =>
    intro s
    unfold MetricStore.dropWhere eraseWhere
    cases s.entries.lookup k with
    | none => exact ih s
    | some e =>
      dsimp only
      split
      next => exact ih _
      next => exact ih s

/-- The store takes the point under the name `p`: the point has that name and a type, and its
series is known or neither the memory guard nor a cap refuses a new one. -/
structure Takes (arrival : Instant) (s : MetricStore) (d : Delivery) (p : String) : Prop where
  named : LastValue (isPublicKey "probe_name") d.point.tags p
  typed : Typed d.point
  unguarded : d.guard ≠ some .hard
  room : (d.point.entry arrival d.now).key ∈ s.entries ∨
    d.guard ≠ some .soft ∧ ¬(s.probeBudget > 0 ∧ s.probeSeriesCount p ≥ s.probeBudget) ∧
      ¬(s.maxEntries > 0 ∧ s.size ≥ s.maxEntries)

theorem storePoint_stored_iff {s : MetricStore} {k : String} {e : StoredMetric} :
    (s.storePoint k e).2 = .stored ↔ k ∈ s.entries ∨
      ¬(s.probeBudget > 0 ∧ s.probeSeriesCount e.probeName ≥ s.probeBudget) ∧
        ¬(s.maxEntries > 0 ∧ s.size ≥ s.maxEntries) := by
  unfold MetricStore.storePoint
  split_ifs <;> simp_all

theorem upsertAt_stored_iff {s : MetricStore} {guard : Option MemoryState} {now : Instant} :
    (s.upsertAt guard dp arrival now).2 = .stored ↔
      ((dp.entry arrival now).probeName ≠ "" ∧ (dp.entry arrival now).probeType ≠ "") ∧
      guard ≠ some .hard ∧ ((dp.entry arrival now).key ∈ s.entries ∨ guard ≠ some .soft ∧
        ¬(s.probeBudget > 0 ∧ s.probeSeriesCount (dp.entry arrival now).probeName ≥ s.probeBudget) ∧
        ¬(s.maxEntries > 0 ∧ s.size ≥ s.maxEntries)) := by
  unfold MetricStore.upsertAt
  dsimp only
  rw [← not_or]
  split
  next hnameless => simp [hnameless]
  next hnamed =>
    rw [and_iff_right hnamed]
    split
    next => simp
    next =>
      split
      next hnew => simp [hnew]
      next hknown =>
        rw [storePoint_stored_iff]
        simp [not_not.mp hknown]
    next hhard hsoft =>
      rw [storePoint_stored_iff, and_iff_right hhard, and_iff_right hsoft]

theorem otlpStoredAs_iff {s : MetricStore} {d : Delivery} {p : String} :
    otlpStoredAs arrival s d = some p ↔ p ≠ "" ∧ Takes arrival s d p := by
  have hname : (d.point.entry arrival d.now).probeName = probeNameOf d.point := rfl
  unfold otlpStoredAs
  rw [Option.ite_none_right_eq_some, upsertAt_stored_iff, hname]
  constructor
  · rintro ⟨⟨⟨hne, htyped⟩, hguard, hroom⟩, hp⟩
    obtain rfl := Option.some.inj hp
    exact ⟨hne, (tagValue_iff hne).mp rfl, typed_iff.mpr htyped, hguard, hroom⟩
  · rintro ⟨hne, hnamed, htyped, hguard, hroom⟩
    obtain rfl : probeNameOf d.point = p := (tagValue_iff hne).mpr hnamed
    exact ⟨⟨⟨hne, typed_iff.mp htyped⟩, hguard, hroom⟩, rfl⟩

/-! ## The Zabbix output -/

structure ZabbixEntry where
  probeName : String
  probeType : String
  metricName : String
  value : Float
  unit : String
  tags : AssocMap String String
  histogram : Option HistogramValue
  observedAt : Instant
  receivedAt : Instant
  /-- a later run of the probe did not report the series -/
  retired : Bool

structure ZabbixStore where
  entries : AssocMap String ZabbixEntry
  cadences : AssocMap String Duration

def zabbixStoreKey (probeName probeType metric : String) (tagMap : AssocMap String String) : String :=
  let keys := tagMap.keys.filter fun k => !(k == "probe_name" || k == "probe_type" || k == "unit")
  (keys.insertionSort (· ≤ ·)).foldl (fun b k => b ++ "\x00" ++ k ++ "=" ++ tagValue tagMap k)
    (probeName ++ "\x00" ++ probeType ++ "\x00" ++ metric)

def zabbixEntry (dp : DataPoint) (receivedAt now : Instant) : ZabbixEntry :=
  let tagMap := flattenTags dp.tags
  { probeName := tagValue tagMap "probe_name"
    probeType := tagValue tagMap "probe_type"
    metricName := dp.name
    value := dp.value
    unit := tagValue tagMap "unit"
    tags := tagMap
    histogram := dp.histogram
    observedAt := if dp.timestamp = zeroTime then now else dp.timestamp
    receivedAt := receivedAt
    retired := false }

def zabbixUpsert (arrival : Instant) (s : ZabbixStore) (d : Delivery) : ZabbixStore :=
  let e := zabbixEntry d.point arrival d.now
  if e.probeName = "" ∨ e.probeType = "" then s
  else { s with entries := s.entries.insert (zabbixStoreKey e.probeName e.probeType e.metricName e.tags) e }

def zabbixStoredAs (arrival : Instant) (_ : ZabbixStore) (d : Delivery) : Option String :=
  let e := zabbixEntry d.point arrival d.now
  if e.probeName = "" ∨ e.probeType = "" then none else some e.probeName

def ZabbixStore.interval (s : ZabbixStore) (p : String) : Duration := (s.cadences.lookup p).getD 0

/-- The loop of `retireSuperseded`. -/
def retireLoop (stale : ZabbixEntry → Bool) :
    List String → AssocMap String ZabbixEntry → AssocMap String ZabbixEntry
  | [], m => m
  | k :: order, m =>
    match m.lookup k with
    | none => retireLoop stale order m
    | some e =>
      retireLoop stale order (if e.retired || !stale e then m else m.insert k { e with retired := true })

/-- The store and `probes` at the end of the loop of `AddDataPoints`. -/
def zabbixLoop (arrival : Instant) (s : ZabbixStore) (batch : List Delivery) :
    ZabbixStore × List String :=
  addLoop (fun _ => false) (zabbixUpsert arrival) (fun d => firstTagValue d.point.tags "probe_name")
    batch (s, [])

/-- `Strategy.AddDataPoints` -/
def zabbixAddDataPoints (arrival : Instant) (s : ZabbixStore) (batch : List Delivery)
    (order : List String) : ZabbixStore :=
  let r := zabbixLoop arrival s batch
  if 0 < r.2.length then
    let stale := fun e : ZabbixEntry =>
      superseded r.1.interval r.2 arrival e.probeName e.receivedAt
    { r.1 with entries := retireLoop stale order r.1.entries }
  else r.1

/-- The series whose value is pushed. -/
def current (m : AssocMap String ZabbixEntry) (k : String) : Option ZabbixEntry :=
  (m.lookup k).filter fun e => !e.retired

theorem current_retireLoop (stale : ZabbixEntry → Bool) (k : String) :
    ∀ (order : List String) (m : AssocMap String ZabbixEntry),
      current (retireLoop stale order m) k =
        (current m k).filter fun e => !(decide (k ∈ order) && stale e) := by
  intro order
  induction order with
  | nil =>
    intro m
    simp only [retireLoop, List.not_mem_nil, decide_false, Bool.false_and, Bool.not_false, filter_all]
  | cons k' order ih =>
    intro m
    unfold retireLoop
    by_cases hk : k = k'
    · subst hk
      cases he : m.lookup k with
      | none =>
        rw [ih, current, he]
        rfl
      | some e =>
        rw [ih]
        cases hretired : e.retired with
        | true => simp [current, he, hretired, Option.filter_some]
        | false =>
          cases hstale : stale e with
          | true | false => simp [current, he, hretired, hstale, Option.filter_some]
    · cases m.lookup k' with
      | none => simp [ih, hk]
      | some e =>
        have hsame : current (if e.retired || !stale e then m else m.insert k' { e with retired := true }) k
            = current m k := by
          unfold current
          split
          next => rfl
          next => rw [AList.lookup_insert_ne hk]
        rw [ih, hsame]
        simp [hk]

theorem zabbixStoredAs_iff {s : ZabbixStore} {d : Delivery} {p : String} :
    zabbixStoredAs arrival s d = some p ↔
      p ≠ "" ∧ LastValue (isPublicKey "probe_name") d.point.tags p ∧ Typed d.point := by
  have hname : (zabbixEntry d.point arrival d.now).probeName = probeNameOf d.point := rfl
  unfold zabbixStoredAs
  dsimp only
  rw [Option.ite_none_left_eq_some, not_or, hname]
  constructor
  · rintro ⟨⟨hne, htyped⟩, hp⟩
    obtain rfl := Option.some.inj hp
    exact ⟨hne, (tagValue_iff hne).mp rfl, typed_iff.mpr htyped⟩
  · rintro ⟨hne, hnamed, htyped⟩
    obtain rfl : probeNameOf d.point = p := (tagValue_iff hne).mpr hnamed
    exact ⟨⟨hne, typed_iff.mp htyped⟩, rfl⟩

/-! ## Both outputs -/

/-- A batch hands over the names under which it stored, leaves no series of theirs with a known
cadence from before half of it, and every series of another probe, exactly when the names read
beside the store are those of the points it takes: for the OTLP output, where relayed points are
left out, the last `probe_name` of each point, for the Zabbix output the first. -/
theorem batch_supersedes_iff (arrival : Instant) (batch : List Delivery) (order : List String) :
    (∀ relay s, (∀ k ∈ (otlpLoop relay arrival s batch).1.entries, k ∈ order) →
      (Supersedes StoredMetric.probeName StoredMetric.receivedAt
        (otlpLoop relay arrival s batch).1.interval arrival
        (· ∈ storedNames (relayed relay) (otlpUpsert arrival) (otlpStoredAs arrival) batch s)
        (otlpLoop relay arrival s batch).2
        (fun k => (otlpLoop relay arrival s batch).1.entries.lookup k)
        (fun k => (otlpAddDataPoints relay arrival s batch order).entries.lookup k) ↔
      NamesAgree (relayed relay) (otlpUpsert arrival)
        (fun d => LastValue (isKey "probe_name") d.point.tags) (Takes arrival) batch s)) ∧
    ∀ s, (∀ k ∈ (zabbixLoop arrival s batch).1.entries, k ∈ order) →
      (Supersedes ZabbixEntry.probeName ZabbixEntry.receivedAt (zabbixLoop arrival s batch).1.interval
        arrival
        (· ∈ storedNames (fun _ => false) (zabbixUpsert arrival) (zabbixStoredAs arrival) batch s)
        (zabbixLoop arrival s batch).2 (current (zabbixLoop arrival s batch).1.entries)
        (current (zabbixAddDataPoints arrival s batch order).entries) ↔
      NamesAgree (fun _ => false) (zabbixUpsert arrival)
        (fun d => FirstValue (isKey "probe_name") d.point.tags)
        (fun _ d p => LastValue (isPublicKey "probe_name") d.point.tags p ∧ Typed d.point) batch s) := by
  refine ⟨fun relay s horder => ?_, fun s horder => ?_⟩
  · refine (supersedes_iff_handed order (fun k e he => horder k (mem_of_lookup he)) fun k => ?_).trans
      (handed_iff (fun d p => dataPointTag_iff) fun s d p => otlpStoredAs_iff)
    unfold otlpAddDataPoints
    dsimp only
    split
    next => rw [MetricStore.retireSuperseded, entries_dropWhere, lookup_eraseWhere]; rfl
    next hnone =>
      have hnil : (otlpLoop relay arrival s batch).2 = [] := List.eq_nil_of_length_eq_zero (by omega)
      simp only [hnil, superseded_nil, Bool.and_false, Bool.not_false, filter_all]
  · refine (supersedes_iff_handed order
      (fun k e he => horder k (mem_of_lookup (Option.filter_eq_some_iff.mp he).1)) fun k => ?_).trans
      (handed_iff (fun d p => firstTagValue_iff) fun s d p => zabbixStoredAs_iff)
    unfold zabbixAddDataPoints
    dsimp only
    split
    next => exact current_retireLoop _ k order _
    next hnone =>
      have hnil : (zabbixLoop arrival s batch).2 = [] := List.eq_nil_of_length_eq_zero (by omega)
      simp only [hnil, superseded_nil, Bool.and_false, Bool.not_false, filter_all]
      rfl

/-- A sample of the probe `scrape` with a label `probe_name`, as the probe passes it on: the
label's tag comes before the probe's own. -/
def labelled : Delivery :=
  ⟨⟨"up", 9, 1, [⟨"probe_name", "app", false⟩, ⟨"probe_name", "scrape", false⟩,
    ⟨"probe_type", "promscrape", false⟩], none⟩, none, 9⟩

/-- A series of each of the two probes, received at 0 and collected every 10. -/
def polled : ZabbixStore :=
  { (zabbixLoop 0 ⟨∅, ∅⟩
      [⟨⟨"old", 0, 1, [⟨"probe_name", "app", false⟩, ⟨"probe_type", "web", false⟩], none⟩, none, 0⟩,
       ⟨⟨"old", 0, 1, [⟨"probe_name", "scrape", false⟩, ⟨"probe_type", "web", false⟩], none⟩, none, 0⟩]).1
    with cadences := (AList.insert "app" 10 ∅).insert "scrape" 10 }

/-- The sample is stored under `scrape` and supersedes `app`: the series of `app`, which
delivered nothing, is retired, and that of `scrape` is pushed on. -/
theorem label_supersedes_other :
    (zabbixLoop 9 polled [labelled]).2 = ["app"] ∧
      storedNames (fun _ => false) (zabbixUpsert 9) (zabbixStoredAs 9) [labelled] polled = ["scrape"] ∧
      (let after := zabbixAddDataPoints 9 polled [labelled]
        (zabbixLoop 9 polled [labelled]).1.entries.keys
       current polled.entries (zabbixStoreKey "app" "web" "old" ∅) ≠ none ∧
       current after.entries (zabbixStoreKey "app" "web" "old" ∅) = none ∧
       current after.entries (zabbixStoreKey "scrape" "web" "old" ∅) ≠ none) := by
  decide +kernel

/-- A point of the probe `app`. -/
def appDelivery : Delivery :=
  ⟨⟨"up", 9, 1, [⟨"probe_name", "app", false⟩, ⟨"probe_type", "web", false⟩], none⟩, none, 9⟩

theorem names_agree_app : NamesAgree (fun _ => false) (zabbixUpsert 9)
    (fun d => FirstValue (isKey "probe_name") d.point.tags)
    (fun _ d p => LastValue (isPublicKey "probe_name") d.point.tags p ∧ Typed d.point)
    [appDelivery] polled := by
  have hlists : (zabbixLoop 9 polled [appDelivery]).2 = ["app"] ∧
      storedNames (fun _ => false) (zabbixUpsert 9) (zabbixStoredAs 9) [appDelivery] polled
        = ["app"] := by
    decide +kernel
  have hhanded : ∀ p, p ∈ (zabbixLoop 9 polled [appDelivery]).2 ↔
      p ∈ storedNames (fun _ => false) (zabbixUpsert 9) (zabbixStoredAs 9) [appDelivery] polled := by
    intro p
    rw [hlists.1, hlists.2]
  exact (handed_iff (fun d p => firstTagValue_iff) fun s d p => zabbixStoredAs_iff).mp hhanded

/-- What the Zabbix output pushes of `app` after its point came within half a cadence. A point
that the OTLP store refuses under its hard memory limit hands over a name nothing is stored
under. -/
theorem batch_supersedes_app :
    (∀ k e, current (zabbixAddDataPoints 9 polled [appDelivery]
        (zabbixLoop 9 polled [appDelivery]).1.entries.keys).entries k = some e →
      e.probeName = "app" → timeSub 9 e.receivedAt ≤ 5) ∧
    ¬ NamesAgree (relayed false) (otlpUpsert 9)
      (fun d => LastValue (isKey "probe_name") d.point.tags) (Takes 9)
      [⟨loadPoint, some .hard, 9⟩] loadStore := by
  constructor
  · have h := ((batch_supersedes_iff 9 [appDelivery] _).2 polled fun k hk =>
      AList.mem_keys.mp hk).mpr names_agree_app
    have hstored : "app" ∈ storedNames (fun _ => false) (zabbixUpsert 9) (zabbixStoredAs 9)
        [appDelivery] polled := by
      decide +kernel
    have hcadence : (zabbixLoop 9 polled [appDelivery]).1.interval "app" = 10 := by decide +kernel
    intro k e he hp
    have hfresh := h.fresh k e he (hp ▸ hstored)
    rw [hp, hcadence] at hfresh
    exact hfresh (by decide)
  · intro hagree
    have h := ((batch_supersedes_iff 9 [⟨loadPoint, some .hard, 9⟩] _).1 false loadStore fun k hk =>
      AList.mem_keys.mp hk).mpr hagree
    have hstored := (h.handed "host").mp (by decide +kernel)
    exact absurd hstored (by decide +kernel)

end SenhubAgent.DataStore

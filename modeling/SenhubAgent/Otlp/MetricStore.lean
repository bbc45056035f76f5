import Mathlib.Data.List.Sort
import Mathlib.Data.String.Basic
import SenhubAgent.Histogram
import SenhubAgent.Lib.AssocMap
import SenhubAgent.Lib.Delimited
import SenhubAgent.Time

/-!
# The last-writer-wins metric store

`metricStore` keeps the latest value of every series, one entry per `storeKey`, and
beside the entries a count of series per probe, which the per-probe budget reads.
This file models the operations that touch either: `upsertAt`, `retireSuperseded`,
`evictStale`, `forgetProbes`, `noteProbeCadence`, `snapshotForCheckpoint` and
`restoreFromSnapshot`. `StoreAccount` proves that the count is right in every run.

Mirroring notes:
- Go ranges over a map in no fixed order. The loops that delete while ranging take
  the order as an argument; a snapshot is listed in the order of the model's map
  and a restore may get it in any.
- `strings.ToLower` is a parameter: nothing depends on what it folds.
- The memory guard is what it answers on this call; `none` is a store without one.
- `dropped` of a result is the reason whose counter the source increments.
- `retireSuperseded` and `evictStale` are one loop. They differ in what is stale
  and in what they leave of a count that reaches zero.
-/

namespace SenhubAgent.Otlp

open SenhubAgent.Lib

/-! ## Datapoints and series keys -/

structure Tag where
  key : String
  value : String
  isPrivate : Bool

structure DataPoint where
  name : String
  timestamp : Instant
  value : Float
  tags : List Tag
  histogram : Option HistogramValue

/-- Later tags overwrite earlier ones; a private tag never becomes an attribute. -/
def flattenTags (tagList : List Tag) : AssocMap String String :=
  tagList.foldl (fun out t => if t.isPrivate then out else out.insert t.key t.value) ∅

/-- `tagMap[k]`, empty when absent. -/
def tagValue (tagMap : AssocMap String String) (k : String) : String :=
  (tagMap.lookup k).getD ""

def escapeStoreKeyChar (c : Char) : List Char :=
  if c = '\\' ∨ c = '|' ∨ c = '=' then ['\\', c] else [c]

def escapeStoreKeyPart (s : String) : String :=
  String.ofList (s.toList.flatMap escapeStoreKeyChar)

/-- One tag of the key's suffix. -/
def storeKeyTag (tagMap : AssocMap String String) (k : String) : String :=
  "|" ++ escapeStoreKeyPart k ++ "=" ++ escapeStoreKeyPart (tagValue tagMap k)

def storeKey (probeName probeType metricName : String) (tagMap : AssocMap String String) : String :=
  let keys := tagMap.keys.filter fun k => !(k == "probe_name" || k == "probe_type")
  (keys.insertionSort (· ≤ ·)).foldl (fun b k => b ++ storeKeyTag tagMap k)
    (probeName ++ "|" ++ probeType ++ "|" ++ metricName)

theorem toList_foldl_append (f : String → String) :
    ∀ (ks : List String) (b : String),
      (ks.foldl (fun b k => b ++ f k) b).toList = b.toList ++ ks.flatMap fun k => (f k).toList := by
  intro ks
  induction ks with
  | nil => intro b; simp
  | cons k ks ih =>
    intro b
    rw [List.foldl_cons, ih, String.toList_append, List.flatMap_cons, List.append_assoc]

/-- A key starts with the probe's name and a separator. -/
theorem storeKey_starts (probeName probeType metricName : String)
    (tagMap : AssocMap String String) :
    ∃ rest, (storeKey probeName probeType metricName tagMap).toList = probeName.toList ++ '|' :: rest := by
  unfold storeKey
  rw [toList_foldl_append]
  simp [String.toList_append]

/-- So one key is never shared by two probes without a separator in their names. -/
theorem storeKey_probeName {p p' t t' n n' : String} {m m' : AssocMap String String}
    (hp : '|' ∉ p.toList) (hp' : '|' ∉ p'.toList) (h : storeKey p t n m = storeKey p' t' n' m') :
    p = p' := by
  obtain ⟨rest, hrest⟩ := storeKey_starts p t n m
  obtain ⟨rest', hrest'⟩ := storeKey_starts p' t' n' m'
  rw [h, hrest'] at hrest
  exact String.toList_injective (field_inj hp hp' hrest.symm).1

/-! ## The store -/

structure StoredMetric where
  probeName : String
  probeType : String
  metricName : String
  value : Float
  unit : String
  tags : AssocMap String String
  histogram : Option HistogramValue
  observedAt : Instant
  receivedAt : Instant
  restored : Bool

def StoredMetric.key (e : StoredMetric) : String :=
  storeKey e.probeName e.probeType e.metricName e.tags

structure MetricStore where
  entries : AssocMap String StoredMetric
  maxEntries : Int
  probeBudget : Int
  probeCounts : AssocMap String Nat
  cadence : AssocMap String Duration

/-- `newMetricStoreWithCap(maxEntries).withProbeBudget(probeBudget)`. -/
def newMetricStoreWithCap (maxEntries probeBudget : Int) : MetricStore :=
  ⟨∅, maxEntries, probeBudget, ∅, ∅⟩

inductive MemoryState where
  | ok | soft | hard
  deriving DecidableEq, Repr

inductive DropReason where
  | memoryHardLimit | memorySoftLimit | probeCardinality | storeCap
  deriving DecidableEq, Repr

/-- What `upsertAt` does with a datapoint. -/
inductive UpsertResult where
  | skipped
  | dropped (reason : DropReason)
  | stored
  deriving DecidableEq, Repr

def MetricStore.probeSeriesCount (s : MetricStore) (probeName : String) : Nat :=
  readCount s.probeCounts probeName

def MetricStore.size (s : MetricStore) : Nat := s.entries.entries.length

/-- The entry stored for a datapoint; `now` is the clock, read when the datapoint
carries no timestamp. -/
def DataPoint.entry (dp : DataPoint) (receivedAt now : Instant) : StoredMetric :=
  let tagMap := flattenTags dp.tags
  { probeName := tagValue tagMap "probe_name"
    probeType := tagValue tagMap "probe_type"
    metricName := dp.name
    value := dp.value
    unit := tagValue tagMap "unit"
    tags := tagMap
    histogram := dp.histogram
    observedAt := if dp.timestamp = zeroTime then now else dp.timestamp
    receivedAt := receivedAt
    restored := false }

/-- `s.entries[key] = e`. -/
def MetricStore.put (s : MetricStore) (key : String) (e : StoredMetric) : MetricStore :=
  { s with entries := s.entries.insert key e }

/-- `s.probeCounts[probeName]++`. -/
def MetricStore.bump (s : MetricStore) (probeName : String) : MetricStore :=
  { s with probeCounts := s.probeCounts.insert probeName (s.probeSeriesCount probeName + 1) }

/-- The part of `upsertAt` under the lock. -/
def MetricStore.storePoint (s : MetricStore) (key : String) (e : StoredMetric) :
    MetricStore × UpsertResult :=
  -- a known series is updated under any cap
  if key ∈ s.entries then (s.put key e, .stored)
  else if s.probeBudget > 0 ∧ s.probeSeriesCount e.probeName ≥ s.probeBudget then
    (s, .dropped .probeCardinality)
  else if s.maxEntries > 0 ∧ s.size ≥ s.maxEntries then (s, .dropped .storeCap)
  else ((s.bump e.probeName).put key e, .stored)

def MetricStore.upsertAt (s : MetricStore) (guard : Option MemoryState) (dp : DataPoint)
    (receivedAt now : Instant) : MetricStore × UpsertResult :=
  let e := dp.entry receivedAt now
  if e.probeName = "" ∨ e.probeType = "" then (s, .skipped)
  else
    match guard with
    | some .hard => (s, .dropped .memoryHardLimit)
    | some .soft =>
      if e.key ∉ s.entries then (s, .dropped .memorySoftLimit) else s.storePoint e.key e
    | _ => s.storePoint e.key e

/-- Records the cadence of a named probe. -/
def MetricStore.noteProbeCadence (s : MetricStore) (probeName : String) (interval : Duration) :
    MetricStore :=
  if probeName = "" then s else { s with cadence := s.cadence.insert probeName interval }

/-! ## Dropping series -/

/-- `delete(s.entries, k)`, and the count of its probe. -/
def MetricStore.remove (s : MetricStore) (uncount : AssocMap String Nat → String → AssocMap String Nat)
    (k : String) (e : StoredMetric) : MetricStore :=
  { s with entries := s.entries.erase k, probeCounts := uncount s.probeCounts e.probeName }

/-- The loop of `retireSuperseded` and `evictStale`, with the number it dropped. -/
def MetricStore.dropWhere (stale : StoredMetric → Bool)
    (uncount : AssocMap String Nat → String → AssocMap String Nat) :
    List String → MetricStore → MetricStore × Nat
  | [], s => (s, 0)
  | k :: order, s =>
    match s.entries.lookup k with
    | none => dropWhere stale uncount order s
    | some e =>
      if stale e then
        let (s', n) := dropWhere stale uncount order (s.remove uncount k e)
        (s', n + 1)
      else dropWhere stale uncount order s

/-- Decrements a positive count and keeps a zero. -/
def uncountKeep (counts : AssocMap String Nat) (p : String) : AssocMap String Nat :=
  if readCount counts p > 0 then counts.insert p (readCount counts p - 1) else counts

/-- Decrements a positive count and deletes a zero. -/
def uncountDelete (counts : AssocMap String Nat) (p : String) : AssocMap String Nat :=
  if readCount counts p > 0 then
    let counts := counts.insert p (readCount counts p - 1)
    if readCount counts p = 0 then counts.erase p else counts
  else counts

/-- `s.cadence[p]`, zero when absent. -/
def MetricStore.interval (s : MetricStore) (p : String) : Duration :=
  (s.cadence.lookup p).getD 0

/-- A series an earlier run of its probe reported. -/
def MetricStore.superseded (s : MetricStore) (probes : List String) (arrival : Instant)
    (e : StoredMetric) : Bool :=
  -- a probe without a cadence supersedes nothing
  decide (e.probeName ∈ probes) &&
    !(decide (s.interval e.probeName ≤ 0) ||
      decide (timeSub arrival e.receivedAt ≤ (s.interval e.probeName).tdiv 2))

def MetricStore.retireSuperseded (s : MetricStore) (probes : List String) (arrival : Instant)
    (order : List String) : MetricStore × Nat :=
  MetricStore.dropWhere (s.superseded probes arrival) uncountKeep order s

def MetricStore.evictStale (s : MetricStore) (now : Instant) (ttl : Duration)
    (order : List String) : MetricStore × Nat :=
  if ttl ≤ 0 then (s, 0)
  else
    MetricStore.dropWhere (fun e => !decide (timeSub now e.observedAt ≤ ttl)) uncountDelete order s

/-- `forgetProbes`, with the order of each of its three loops. -/
def MetricStore.forgetProbes (toLower : String → String) (s : MetricStore)
    (probeNames : List String) (entryOrder countOrder cadenceOrder : List String) : MetricStore :=
  let gone := fun p => decide (toLower p ∈ probeNames.map toLower)
  { s with
    entries := eraseWhere (fun _ e => gone e.probeName) entryOrder s.entries
    probeCounts := eraseWhere (fun p _ => gone p) countOrder s.probeCounts
    cadence := eraseWhere (fun p _ => gone p) cadenceOrder s.cadence }

/-! ## Checkpoints -/

structure EntrySnapshot where
  probeName : String
  probeType : String
  metricName : String
  value : Float
  unit : String
  tags : AssocMap String String
  histogram : Option HistogramValue
  observedAt : Instant

def StoredMetric.snapshot (e : StoredMetric) : EntrySnapshot :=
  ⟨e.probeName, e.probeType, e.metricName, e.value, e.unit, e.tags, e.histogram, e.observedAt⟩

def MetricStore.snapshotForCheckpoint (s : MetricStore) : List EntrySnapshot :=
  s.entries.entries.map fun e => e.2.snapshot

/-- The entry read back: not received by this process, and never vouched for. -/
def EntrySnapshot.entry (e : EntrySnapshot) : StoredMetric :=
  ⟨e.probeName, e.probeType, e.metricName, e.value, e.unit, e.tags, e.histogram, e.observedAt,
    zeroTime, true⟩

/-- The loop of `restoreFromSnapshot`. -/
def MetricStore.restoreLoop : List EntrySnapshot → MetricStore → MetricStore
  | [], s => s
  | e :: es, s =>
    if e.probeName = "" ∨ e.probeType = "" then restoreLoop es s
    -- no look at what is under the key already: every entry read is counted
    else restoreLoop es ((s.put e.entry.key e.entry).bump e.probeName)

def MetricStore.restoreFromSnapshot (s : MetricStore) (snap : List EntrySnapshot) : MetricStore :=
  MetricStore.restoreLoop snap { s with entries := ∅, probeCounts := ∅ }

end SenhubAgent.Otlp

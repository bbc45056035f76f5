import SenhubAgent.Time

/-!
# Log records: the SDK record, its size estimate, its on-disk projection

The SDK record as the logs rail reads it, with three functions of the source:

- `estimateRecordBytes` (`logs_split.go`), the estimate the splitter cuts by;
- `serializeEventLog` (`logs_queue.go`), the projection written to the queue,
  defined for ordinary event logs only;
- `rebuildEventLogs` (`logs.go`), the records a replay sends again.

`serializeEventLog_rebuild` says what a trip through both does: the record comes
back, with the observed timestamp filled in from the timestamp when the queue
held none (the rebuilt record always carries the event-log scope), and
`rebuildEventLog_observed` that the next replay does not see the difference.

Mirroring notes: `UnixNano` wraps an instant to 64 bits as Go does;
`attribute.Value` kinds that the source only renders are one constructor holding the rendered text; a
`map[string]string` is a list of pairs with distinct keys. The SDK's limit on the
attributes of one record is left out: a queued record was emitted under it before.
-/

namespace SenhubAgent.Otlp

/-- `t.UnixNano()`. -/
def unixNano (t : Instant) : Int64 := Int64.ofInt t

/-- `time.Unix(0, ns)`. -/
def timeUnix (ns : Int64) : Instant := ns.toInt

theorem unixNano_timeUnix (ns : Int64) : unixNano (timeUnix ns) = ns := Int64.ofInt_toInt ns

/-- No 64-bit nanosecond count is the zero time. -/
theorem timeUnix_ne_zeroTime (ns : Int64) : timeUnix ns ≠ zeroTime := by
  intro h
  have hlow := Int64.le_toInt ns
  unfold timeUnix zeroTime at h
  rw [h] at hlow
  revert hlow
  decide

/-- `attribute.Value`; `other` is a value the source only renders. -/
inductive Value where
  | empty
  | string (s : String)
  | bytes (b : List UInt8)
  | slice (vs : List Value)
  | map (kvs : List (String × Value))
  | other (rendered : String)

/-- `v.AsString()`: empty for a value that is not a string. -/
def Value.asString : Value → String
  | .string s => s
  | _ => ""

structure Scope where
  name : String
  version : String
  schemaURL : String
  attributes : List (String × Value)

/-- `sdklog.Record`, the fields the logs rail reads. -/
structure Record where
  timestamp : Instant
  observedTimestamp : Instant
  severity : Int
  severityText : String
  eventName : String
  body : Value
  attributes : List (String × Value)
  scope : Scope
  resource : Option (List (String × Value))

/-! ## The size estimate -/

def recordOverheadBytes : Nat := 96

def attrOverheadBytes : Nat := 12

mutual

def valueBytes : Value → Nat
  | .string s => s.utf8ByteSize
  | .empty => 0
  | .bytes b => b.length
  | .slice vs => sliceBytes vs
  | .map kvs => attrSetBytes kvs
  | .other rendered => rendered.utf8ByteSize + attrOverheadBytes

/-- The loop over `v.AsSlice()`. -/
def sliceBytes : List Value → Nat
  | [] => 0
  | e :: vs => attrOverheadBytes + valueBytes e + sliceBytes vs

def attrSetBytes : List (String × Value) → Nat
  | [] => 0
  | (k, v) :: kvs => attrOverheadBytes + k.utf8ByteSize + valueBytes v + attrSetBytes kvs

end

def estimateRecordBytes (r : Record) : Nat :=
  recordOverheadBytes + r.eventName.utf8ByteSize + r.severityText.utf8ByteSize + valueBytes r.body
    + attrSetBytes r.attributes
    + (r.scope.name.utf8ByteSize + r.scope.version.utf8ByteSize + r.scope.schemaURL.utf8ByteSize)
    + attrSetBytes r.scope.attributes
    + (match r.resource with
        | some res => attrSetBytes res
        | none => 0)

/-! ## The on-disk projection -/

def logsScopeName : String := "senhub-agent/otlp-logs"

/-- `m[k] = v` on a Go map kept as a list of pairs. -/
def setAttr (m : List (String × String)) (k v : String) : List (String × String) :=
  match m with
  | [] => [(k, v)]
  | (k', v') :: rest => if k' = k then (k, v) :: rest else (k', v') :: setAttr rest k v

theorem setAttr_keys (k v : String) :
    ∀ m : List (String × String), k ∉ m.map Prod.fst → setAttr m k v = m ++ [(k, v)] := by
  intro m
  induction m with
  | nil => intro _; rfl
  | cons p m ih =>
    intro h
    simp only [List.map_cons, List.mem_cons, not_or] at h
    simp only [setAttr, if_neg (fun he => h.1 (Eq.symm he)), ih h.2, List.cons_append]

theorem setAttr_mem_keys (k v : String) :
    ∀ (m : List (String × String)) (x : String),
      x ∈ (setAttr m k v).map Prod.fst → x = k ∨ x ∈ m.map Prod.fst := by
  intro m
  induction m with
  | nil => intro x h; exact Or.inl (by simpa [setAttr] using h)
  | cons p m ih =>
    intro x h
    simp only [setAttr] at h
    split at h
    next =>
      rcases List.mem_cons.mp h with he | hin
      · exact Or.inl he
      · exact Or.inr (List.mem_cons_of_mem _ hin)
    next =>
      rcases List.mem_cons.mp h with he | hin
      · exact Or.inr (by rw [he]; exact List.mem_cons_self ..)
      · rcases ih x hin with he | hm
        · exact Or.inl he
        · exact Or.inr (List.mem_cons_of_mem _ hm)

theorem setAttr_nodup (k v : String) :
    ∀ m : List (String × String), (m.map Prod.fst).Nodup → ((setAttr m k v).map Prod.fst).Nodup := by
  intro m
  induction m with
  | nil => intro _; simp [setAttr]
  | cons p m ih =>
    intro h
    simp only [List.map_cons, List.nodup_cons] at h
    simp only [setAttr]
    split
    next he => simpa [← he] using h
    next hne =>
      simp only [List.map_cons, List.nodup_cons]
      refine ⟨fun hmem => ?_, ih h.2⟩
      rcases setAttr_mem_keys k v m p.1 hmem with he | hin
      · exact hne he
      · exact h.1 hin

/-- `persistedLogRecord`: the JSON projection of one event log. -/
structure PersistedLogRecord where
  timestampUnixNano : Int64
  observedTimestampUnixNano : Int64
  severityNumber : Int
  severityText : String
  body : String
  attributes : List (String × String)
  distinct : (attributes.map Prod.fst).Nodup
  deriving DecidableEq

/-- The attribute map `WalkAttributes` fills, from what is in it already. -/
def walkAttributes (m : List (String × String)) : List (String × Value) → List (String × String)
  | [] => m
  | (k, v) :: kvs => walkAttributes (setAttr m k v.asString) kvs

theorem walkAttributes_nodup :
    ∀ (kvs : List (String × Value)) (m : List (String × String)),
      (m.map Prod.fst).Nodup → ((walkAttributes m kvs).map Prod.fst).Nodup := by
  intro kvs
  induction kvs with
  | nil => intro m h; exact h
  | cons p kvs ih => intro m h; exact ih _ (setAttr_nodup p.1 _ m h)

/-- Walking string attributes whose keys are new appends them. -/
theorem walkAttributes_strings :
    ∀ (l m : List (String × String)), ((m ++ l).map Prod.fst).Nodup →
      walkAttributes m (l.map fun p => (p.1, Value.string p.2)) = m ++ l := by
  intro l
  induction l with
  | nil => intro m _; simp [walkAttributes]
  | cons p l ih =>
    intro m h
    have hsplit : m ++ p :: l = (m ++ [p]) ++ l := by simp
    have hnew : p.1 ∉ m.map Prod.fst := by
      rw [List.map_append, List.map_cons] at h
      intro hin
      exact (List.nodup_append.mp h).2.2 _ hin _ (List.mem_cons_self ..) rfl
    simp only [List.map_cons, walkAttributes, Value.asString]
    rw [setAttr_keys p.1 p.2 m hnew, ih _ (by rw [← hsplit]; exact h), hsplit]

/-- The projection of an event log; `none` for anything else. -/
def serializeEventLog (r : Record) : Option PersistedLogRecord :=
  if r.scope.name ≠ logsScopeName then none
  else some
    { timestampUnixNano := unixNano r.timestamp
      observedTimestampUnixNano :=
        if r.observedTimestamp = zeroTime then 0 else unixNano r.observedTimestamp
      severityNumber := r.severity
      severityText := r.severityText
      body := r.body.asString
      attributes := walkAttributes [] r.attributes
      distinct := walkAttributes_nodup r.attributes [] (by simp) }

/-- The parts of `logsPipeline` a rebuilt record carries. -/
structure LogsPipeline where
  res : List (String × Value)
  scopeVersion : String

/-- One record as the throwaway provider emits it. -/
def rebuildEventLog (p : LogsPipeline) (pr : PersistedLogRecord) : Record where
  timestamp := timeUnix pr.timestampUnixNano
  observedTimestamp :=
    if pr.observedTimestampUnixNano ≠ 0 then timeUnix pr.observedTimestampUnixNano
    else timeUnix pr.timestampUnixNano
  severity := pr.severityNumber
  severityText := pr.severityText
  eventName := ""
  body := .string pr.body
  attributes := pr.attributes.map fun kv => (kv.1, Value.string kv.2)
  scope := ⟨logsScopeName, p.scopeVersion, "", []⟩
  resource := some p.res

def rebuildEventLogs (p : LogsPipeline) (prs : List PersistedLogRecord) : List Record :=
  prs.map (rebuildEventLog p)

/-- What a queued record is after a replay wrote it back: the observed timestamp
is no longer left out. -/
def PersistedLogRecord.observed (pr : PersistedLogRecord) : PersistedLogRecord :=
  { pr with
    observedTimestampUnixNano :=
      if pr.observedTimestampUnixNano ≠ 0 then pr.observedTimestampUnixNano
      else pr.timestampUnixNano }

theorem serializeEventLog_rebuild (p : LogsPipeline) (pr : PersistedLogRecord) :
    serializeEventLog (rebuildEventLog p pr) = some pr.observed := by
  have hattrs : walkAttributes [] (pr.attributes.map fun kv => (kv.1, Value.string kv.2))
      = pr.attributes := by
    have hwalk := walkAttributes_strings pr.attributes [] (by simpa using pr.distinct)
    simpa using hwalk
  have hobs : (if (rebuildEventLog p pr).observedTimestamp = zeroTime then 0
      else unixNano (rebuildEventLog p pr).observedTimestamp)
      = pr.observed.observedTimestampUnixNano := by
    simp only [rebuildEventLog, PersistedLogRecord.observed]
    split
    next =>
      rw [if_neg (timeUnix_ne_zeroTime _), unixNano_timeUnix]
    next =>
      rw [if_neg (timeUnix_ne_zeroTime _), unixNano_timeUnix]
  unfold serializeEventLog
  rw [if_neg (by simp [rebuildEventLog])]
  simp only [hobs]
  simp only [rebuildEventLog, hattrs, unixNano_timeUnix, Value.asString,
    PersistedLogRecord.observed]

/-- Writing a record back does not change what the next replay sends. -/
theorem rebuildEventLog_observed (p : LogsPipeline) (pr : PersistedLogRecord) :
    rebuildEventLog p pr.observed = rebuildEventLog p pr := by
  simp only [rebuildEventLog, PersistedLogRecord.observed]
  by_cases h : pr.observedTimestampUnixNano = 0
  · simp only [h, ne_eq, not_true_eq_false, if_false]
    split
    next => rfl
    next => rfl
  · simp only [ne_eq, h, not_false_eq_true, if_true]

end SenhubAgent.Otlp

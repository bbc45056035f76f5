import SenhubAgent.Otlp.QueueAccount
import SenhubAgent.Otlp.SplitReport

/-!
# A live logs export, end to end

`persistentLogExporter.Export` on top of the splitting exporter: every record of
a batch should end in an accepted downstream call, in the queue, in the
`receiver_rejected` count or in the `record_too_large` count, and in one of them
only (`Routed`).

> `liveExport_routed_iff`: the records are routed exactly once if and only if the
> export is not sent at all or is not misreported.

A misreported batch has been accepted or dropped as too large, and is then written or
counted as a whole besides.
-/

namespace SenhubAgent.Otlp

open SenhubAgent.Lib (Distributes)

/-- A batch of the event-log path. -/
structure EventBatch where
  records : List Record
  events : ∀ r ∈ records, r.scope.name = logsScopeName

section Live

variable (encodedLen : LogBatch → Nat) (env : ExportEnv) (budget : Int)

/-- `persistentLogExporter.Export` over the splitting exporter, with the state of
the split when the batch was sent. -/
def liveExport (e : LogExporter) (records : List Record) (clock : ExportClock) :
    LogExporter × Option SplitState :=
  match e.gate clock with
  | (false, e) => (e.persist encodedLen records clock, none)
  | (true, e) =>
    let (raw, st) := splitExport env budget records
    (e.afterExport encodedLen env.fromError records raw clock, some st)

/-- The records of accepted downstream calls. -/
def acceptedBy : Option SplitState → List Record
  | none => []
  | some st => st.bin env .accepted

/-- The moves of the `record_too_large` counter. -/
def tooLargeBy : Option SplitState → Nat
  | none => 0
  | some st => st.recordTooLarge

/-- Every record is in exactly one of: an accepted downstream call, the records
written to the queue, the `receiver_rejected` count, the `record_too_large`
count. -/
def Routed (e : LogExporter) (records : List Record) (clock : ExportClock)
    (out : LogExporter × Option SplitState) : Prop :=
  ∃ d : Outcome → List Record, Distributes records d ∧
    d .accepted = acceptedBy env out.2 ∧
    (∃ written, out.1.enqueued.flatten = e.enqueued.flatten ++ written ∧
      out.1.queue = e.queue.enqueue encodedLen written clock.now clock.wall ∧
      written.map some = (d .undelivered).map serializeEventLog) ∧
    out.1.receiverRejected = e.receiverRejected + (d .rejected).length ∧
    tooLargeBy out.2 = (d .dropped).length

variable {records : List Record} {clock : ExportClock} {e e' : LogExporter} {st : SplitState}

/-! ## What the exporter does with the answer -/

/-- The records written to the queue and the records counted as refused. -/
structure Effects (clock : ExportClock) (e e' : LogExporter) (kept : List Record) (refused : Nat) :
    Prop where
  enqueued : e'.enqueued.flatten = e.enqueued.flatten ++ kept.filterMap serializeEventLog
  queue : e'.queue
    = e.queue.enqueue encodedLen (kept.filterMap serializeEventLog) clock.now clock.wall
  rejected : e'.receiverRejected = e.receiverRejected + refused

theorem persist_effects (e : LogExporter) (records : List Record) (clock : ExportClock) :
    Effects encodedLen clock e (e.persist encodedLen records clock) records 0 := by
  unfold LogExporter.persist
  simp only
  split
  next hempty =>
    have hnil := List.isEmpty_iff.mp hempty
    exact ⟨by rw [hnil, List.append_nil], by rw [hnil]; rfl, rfl⟩
  next => exact ⟨by simp, rfl, rfl⟩

/-- Without a failure nothing is written and nothing is counted. -/
theorem afterExport_delivered (e : LogExporter) (records : List Record) {raw : Option ExportErr}
    (clock : ExportClock) (h : failure raw = none) :
    Effects encodedLen clock e (e.afterExport encodedLen env.fromError records raw clock) [] 0 := by
  unfold LogExporter.afterExport
  cases raw with
  | none => exact ⟨(List.append_nil _).symm, rfl, rfl⟩
  | some raw =>
    have hrest : (splitRejections raw).2 = none := h
    simp only [hrest]
    exact ⟨(List.append_nil _).symm, rfl, rfl⟩

/-- A split error: what it names is written and counted. -/
theorem afterExport_split (e : LogExporter) (records : List Record) (se : SplitExportError)
    (clock : ExportClock) (h : failure (some (.split se)) ≠ none) :
    Effects encodedLen clock e (e.afterExport encodedLen env.fromError records (some (.split se)) clock)
      se.undelivered se.rejected := by
  obtain ⟨err, herr⟩ := Option.ne_none_iff_exists'.mp h
  have hrest : (splitRejections (.split se)).2 = some err := herr
  unfold LogExporter.afterExport
  simp only [hrest]
  split
  next hempty =>
    rw [List.isEmpty_iff.mp hempty]
    exact ⟨(List.append_nil _).symm, rfl, rfl⟩
  next =>
    have hp := persist_effects encodedLen
      ((((e.reportRejections (splitRejections (.split se)).1).recordFailure
        (classifyExportError env.fromError err.cause)).markFailure clock.mark).countRejected
          se.rejected) se.undelivered clock
    exact ⟨hp.enqueued, hp.queue, hp.rejected⟩

/-- Any other failure: the whole batch is written, or counted. -/
theorem afterExport_whole (e : LogExporter) (records : List Record) (err : GoErr)
    (clock : ExportClock) (h : failure (some (.plain err)) ≠ none) :
    Effects encodedLen clock e (e.afterExport encodedLen env.fromError records (some (.plain err)) clock)
      records 0 ∨
    Effects encodedLen clock e (e.afterExport encodedLen env.fromError records (some (.plain err)) clock)
      [] records.length := by
  obtain ⟨rest, hfail⟩ := Option.ne_none_iff_exists'.mp h
  have hrest : (splitRejections (.plain err)).2 = some rest := hfail
  unfold LogExporter.afterExport
  simp only [hrest]
  split
  next =>
    have hp := persist_effects encodedLen
      (((e.reportRejections (splitRejections (.plain err)).1).recordFailure
        (classifyExportError env.fromError rest.cause)).markFailure clock.mark) records clock
    exact Or.inl ⟨hp.enqueued, hp.queue, hp.rejected⟩
  next => exact Or.inr ⟨(List.append_nil _).symm, rfl, rfl⟩

/-! ## Routing -/

variable {env}

theorem gate_fields (e : LogExporter) (clock : ExportClock) :
    (e.gate clock).2.enqueued = e.enqueued ∧
    (e.gate clock).2.queue = e.queue ∧
    (e.gate clock).2.receiverRejected = e.receiverRejected := by
  unfold LogExporter.gate LogExporter.claimAttempt
  repeat' split
  all_goals exact ⟨rfl, rfl, rfl⟩

theorem serialize_events (h : ∀ r ∈ records, r.scope.name = logsScopeName) :
    (records.filterMap serializeEventLog).map some = records.map serializeEventLog := by
  induction records with
  | nil => rfl
  | cons r rs ih =>
    have hr : ∃ pr, serializeEventLog r = some pr := by
      unfold serializeEventLog
      rw [if_neg (by simp [h r (List.mem_cons_self ..)])]
      exact ⟨_, rfl⟩
    obtain ⟨pr, hpr⟩ := hr
    simp only [List.filterMap_cons, hpr, List.map_cons,
      ih fun x hx => h x (List.mem_cons_of_mem _ hx)]

theorem serialize_length (h : ∀ r ∈ records, r.scope.name = logsScopeName) :
    (records.filterMap serializeEventLog).length = records.length := by
  have hmap := congrArg List.length (serialize_events h)
  simpa only [List.length_map] using hmap

/-- Effects that match the bins route the batch. -/
theorem routed_of_effects (batch : EventBatch) {st : Option SplitState} {d : Outcome → List Record}
    {refused : Nat} (hd : Distributes batch.records d) (hacc : d .accepted = acceptedBy env st)
    (heff : Effects encodedLen clock e e' (d .undelivered) refused)
    (hrej : refused = (d .rejected).length) (htoo : tooLargeBy st = (d .dropped).length) :
    Routed encodedLen env e batch.records clock (e', st) :=
  ⟨d, hd, hacc, ⟨_, heff.enqueued, heff.queue, serialize_events fun r hr =>
    batch.events r ((hd.sublist .undelivered).subset hr)⟩, by rw [heff.rejected, hrej], htoo⟩

/-- The whole batch in one bin, none of it accepted or too large. -/
theorem routed_whole (batch : EventBatch) {st : Option SplitState} (hacc : acceptedBy env st = [])
    (htoo : tooLargeBy st = 0)
    (heff : Effects encodedLen clock e e' batch.records 0 ∨ Effects encodedLen clock e e' [] batch.records.length) :
    Routed encodedLen env e batch.records clock (e', st) := by
  rcases heff with heff | heff
  · exact routed_of_effects encodedLen batch (Distributes.single Outcome.undelivered batch.records)
      (by rw [hacc]; rfl) heff rfl htoo
  · exact routed_of_effects encodedLen batch (Distributes.single Outcome.rejected batch.records)
      (by rw [hacc]; rfl) heff rfl htoo

/-- A batch that was all accepted or dropped, and is then written or counted as a
whole, is not routed. -/
theorem not_routed_twice (batch : EventBatch) (hne : batch.records ≠ [])
    (hall : (st.bin env .accepted).length + st.recordTooLarge = batch.records.length)
    (heff : Effects encodedLen clock e e' batch.records 0 ∨ Effects encodedLen clock e e' [] batch.records.length) :
    ¬ Routed encodedLen env e batch.records clock (e', some st) := by
  rintro ⟨d, hd, hacc, ⟨written, hw, _, hmap⟩, hrej, htoo⟩
  have hlen := outcome_lengths hd
  have haccLen : (d .accepted).length = (st.bin env .accepted).length := by rw [hacc]; rfl
  have hdrop : st.recordTooLarge = (d .dropped).length := htoo
  have hpos := List.length_pos_iff.mpr hne
  have hwlen : written.length = (d .undelivered).length := by
    simpa only [List.length_map] using congrArg List.length hmap
  rcases heff with heff | heff
  · have heq := List.append_cancel_left (hw.symm.trans heff.enqueued)
    have hser := serialize_length batch.events
    rw [← heq] at hser
    omega
  · have hrej' := heff.rejected
    simp only at hrej
    omega

/-- What the exporter does with an export, by the way it ended. -/
theorem sent_iff (batch : EventBatch) (e : LogExporter) (clock : ExportClock)
    {out : Option ExportErr × SplitState} (h : Ends env budget batch.records out) :
    Routed encodedLen env e batch.records clock
      (e.afterExport encodedLen env.fromError batch.records out.1 clock, some out.2) ↔
    ¬ Misreported env budget batch.records := by
  cases h with
  | done hok hfail hdist hund hrej htoo =>
    have heff := afterExport_delivered encodedLen env e batch.records clock hfail
    rw [← hund] at heff
    exact iff_of_true (routed_of_effects encodedLen batch hdist rfl heff (by rw [hrej]; rfl) htoo) hok
  | whole hok hfail hacc htoo =>
    exact iff_of_true (routed_whole encodedLen batch hacc htoo
      (afterExport_whole encodedLen env e batch.records _ clock hfail)) hok
  | split hok hfail hdist hund hrej htoo =>
    have heff := afterExport_split encodedLen env e batch.records _ clock hfail
    rw [hund] at heff
    exact iff_of_true (routed_of_effects encodedLen batch hdist rfl heff hrej htoo) hok
  | @twice err st hmis hfail hdist hund hrej htoo =>
    have hall : (st.bin env .accepted).length + st.recordTooLarge = batch.records.length := by
      have hlen := outcome_lengths hdist
      rw [hund, hrej, ← htoo] at hlen
      simpa using hlen
    exact iff_of_false (not_routed_twice encodedLen batch hmis.1 hall
      (afterExport_whole encodedLen env e batch.records err clock hfail)) (not_not_intro hmis)

variable (env)

/-- **The route of a live batch.** For every batch of event logs, every state of
the exporter, every clock and every downstream exporter: each record ends in
exactly one place, unless the batch is sent and the split of it misreported. -/
theorem liveExport_routed_iff (batch : EventBatch) (e : LogExporter) (clock : ExportClock) :
    Routed encodedLen env e batch.records clock (liveExport encodedLen env budget e batch.records clock) ↔
      ¬ ((e.gate clock).1 = true ∧ Misreported env budget batch.records) := by
  obtain ⟨henq, hqueue, hrej⟩ := gate_fields e clock
  have hgate : ∀ {out}, Routed encodedLen env (e.gate clock).2 batch.records clock out ↔
      Routed encodedLen env e batch.records clock out := by
    intro out
    unfold Routed
    rw [henq, hqueue, hrej]
  unfold liveExport
  rcases hg : e.gate clock with ⟨sends, e₁⟩
  rw [hg] at hgate
  cases sends with
  | false =>
    refine ⟨fun _ h => (by simp at h), fun _ => hgate.mp ?_⟩
    exact routed_whole encodedLen batch rfl rfl
      (Or.inl (persist_effects encodedLen e₁ batch.records clock))
  | true =>
    rw [← hgate, sent_iff encodedLen budget batch e₁ clock (splitExport_ends env budget batch.records)]
    simp

end Live

/-! ## The misreported export -/

/-- An event log for the run below. -/
def sampleEvent (body : String) : Record where
  timestamp := 1
  observedTimestamp := 1
  severity := 9
  severityText := "INFO"
  eventName := ""
  body := .string body
  attributes := []
  scope := ⟨logsScopeName, "1", "", []⟩
  resource := none

def samplePair : EventBatch where
  records := [sampleEvent "a", sampleEvent "b"]
  events := by
    intro r hr
    rcases List.mem_cons.mp hr with rfl | hr
    · rfl
    · rw [List.mem_singleton.mp hr]
      rfl

/-- A receiver that answers the first request with a partial success joined with a
refusal for size, and accepts whatever follows. -/
def mixedDownstream : ExportEnv where
  downstream := fun log _ =>
    if log.isEmpty then
      some (.join [.leaf "OTLP partial success: quota (1 logs rejected)",
        .leaf "failed to send logs: 413 Request Entity Too Large"])
    else none
  ctxErr := fun _ => none
  fromError := fun _ => none

def idleExporter : LogExporter where
  queue := newLogsQueue 0 0 ∅ 0

def sampleClock : ExportClock := ⟨1, true, 2, 3, 4⟩

/-- Both records are in accepted calls, and both are counted as rejected. -/
theorem liveExport_counts_accepted :
    (acceptedBy mixedDownstream (liveExport sampleLen mixedDownstream 1000000 idleExporter
        samplePair.records sampleClock).2).length = 2 ∧
    (liveExport sampleLen mixedDownstream 1000000 idleExporter samplePair.records
        sampleClock).1.receiverRejected = 2 ∧
    ¬ Routed sampleLen mixedDownstream idleExporter samplePair.records sampleClock
        (liveExport sampleLen mixedDownstream 1000000 idleExporter samplePair.records
          sampleClock) := by
  have hacc : (acceptedBy mixedDownstream (liveExport sampleLen mixedDownstream 1000000 idleExporter
      samplePair.records sampleClock).2).length = 2 := by decide +kernel
  have hcount : (liveExport sampleLen mixedDownstream 1000000 idleExporter samplePair.records
      sampleClock).1.receiverRejected = 2 := by decide +kernel
  refine ⟨hacc, hcount, ?_⟩
  rintro ⟨d, hd, hda, _, hrej, _⟩
  have hlen := outcome_lengths hd
  have hboth := congrArg List.length hda
  have hzero : idleExporter.receiverRejected = 0 := rfl
  have htwo : samplePair.records.length = 2 := rfl
  omega

end SenhubAgent.Otlp

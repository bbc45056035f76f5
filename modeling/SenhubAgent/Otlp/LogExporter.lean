import SenhubAgent.Otlp.LogsQueue
import SenhubAgent.Otlp.LogsSplit

/-!
# The persistent logs exporter

`persistentLogExporter` sits on the splitting exporter. A live batch goes through
`Export`: it is written to the queue at once while the backend is known down,
and otherwise sent, with what was not delivered written to the queue. The replay
goes through `exportDirect`, which never writes to the queue. Both take the
partial-success reports out of the error first (`reportRejections`).

Mirroring notes:
- The wrapped exporter's answer is an argument of `afterExport` and
  `exportDirect`; the modules that use them say where it comes from.
- `e.now()` is read at the gate and when the outcome is marked; the readings are
  arguments, and so is whether the `CompareAndSwap` of `claimAttempt` won.
- The queue write succeeds, so `persist` always returns true and `lostRecords`
  never moves. Log lines are left out.
-/

namespace SenhubAgent.Otlp

/-! ## Errors of this package -/

/-- `(*splitExportError).Error()`. -/
def SplitExportError.error (se : SplitExportError) : String :=
  match se.err with
  | some err => err.error
  | none => ""

/-- The error value as the readers of Go errors see it. -/
def ExportErr.cause : ExportErr → GoErr
  | .plain err => err
  | .split se => .wrap se.error (se.err.getD (.leaf ""))

/-- `splitPartialSuccess` on an error of this package. -/
def splitRejections : ExportErr → List PartialSuccess × Option ExportErr
  | .plain err =>
    let (found, rest) := splitPartialSuccess err
    (found, rest.map .plain)
  | .split se =>
    match parsePartialSuccess se.error with
    | some ps => ([ps], none)
    | none =>
      match se.err with
      | none => ([], some (.split se))
      | some inner =>
        match splitPartialSuccess inner with
        | ([], _) => ([], some (.split se))
        | (p :: ps, rest) => (p :: ps, rest.map .plain)

/-- The failure left once the partial-success reports are taken out. -/
def failure (answer : Option ExportErr) : Option ExportErr :=
  answer.bind fun err => (splitRejections err).2

/-! ## The exporter's state -/

/-- `persistentLogExporter`, with the counters it moves (the records refused on
their merits, the rejections reported, the failures by class), the calls of the
two hooks, and the batches it handed to the queue. -/
structure LogExporter where
  queue : LogsQueue
  healthy : Bool := true
  lastSuccessNs : Int := 0
  lastFailureNs : Int := 0
  probeInterval : Int := 5000000000
  stopping : Bool := false
  receiverRejected : Nat := 0
  rejections : List PartialSuccess := []
  failures : List ErrClass := []
  recovered : Nat := 0
  queuedHook : Nat := 0
  enqueued : List (List PersistedLogRecord) := []

/-- The clock readings of one export, and the outcome of its `CompareAndSwap`. -/
structure ExportClock where
  gate : Int
  claimed : Bool
  mark : Int
  now : Instant
  wall : Instant

def logsRecentSuccess : Int := 30000000000

/-- The backend answered recently. -/
def LogExporter.knownUp (e : LogExporter) (now : Int) : Bool :=
  e.healthy && e.lastSuccessNs ≠ 0 && now - e.lastSuccessNs ≤ logsRecentSuccess

/-- One live export per `probeInterval` after a failure. -/
def LogExporter.claimAttempt (e : LogExporter) (now : Int) (swapped : Bool) : Bool × LogExporter :=
  if e.stopping then (false, e)
  else if now - e.lastFailureNs < e.probeInterval then (false, e)
  else if swapped then (true, { e with lastFailureNs := now })
  else (false, e)

def LogExporter.markSuccess (e : LogExporter) (now : Int) : LogExporter :=
  { e with
    lastSuccessNs := now
    healthy := true
    recovered := if e.healthy then e.recovered else e.recovered + 1 }

def LogExporter.markFailure (e : LogExporter) (now : Int) : LogExporter :=
  { e with lastFailureNs := now, healthy := false }

def LogExporter.recordFailure (e : LogExporter) (classified : ErrClass) : LogExporter :=
  { e with failures := e.failures ++ [classified] }

def LogExporter.reportRejections (e : LogExporter) (found : List PartialSuccess) : LogExporter :=
  { e with rejections := e.rejections ++ found }

/-- The `receiver_rejected` counter, once per record. -/
def LogExporter.countRejected (e : LogExporter) (n : Nat) : LogExporter :=
  { e with receiverRejected := e.receiverRejected + n }

/-! ## Live exports -/

section Export

variable (encodedLen : LogBatch → Nat)

/-- `persist`: the event logs of the batch become one file. -/
def LogExporter.persist (e : LogExporter) (records : List Record) (clock : ExportClock) :
    LogExporter :=
  let batch := records.filterMap serializeEventLog
  -- entity events have no projection: a batch of them is not queued
  if batch.isEmpty then e
  else
    { e with
      queue := e.queue.enqueue encodedLen batch clock.now clock.wall
      queuedHook := e.queuedHook + 1
      enqueued := e.enqueued ++ [batch] }

/-- The first half of `Export`: whether the batch is sent at all. -/
def LogExporter.gate (e : LogExporter) (clock : ExportClock) : Bool × LogExporter :=
  if e.stopping then (e.knownUp clock.gate, e)
  else if e.healthy then (true, e)
  else e.claimAttempt clock.gate clock.claimed

variable (fromError : GoErr → Option GrpcStatus)

/-- The second half of `Export`: what follows the wrapped exporter's answer. -/
def LogExporter.afterExport (e : LogExporter) (records : List Record) (raw : Option ExportErr)
    (clock : ExportClock) : LogExporter :=
  match raw with
  | none => e.markSuccess clock.mark
  | some raw =>
    let (found, rest) := splitRejections raw
    let e := e.reportRejections found
    match rest with
    | none => e.markSuccess clock.mark
    | some err =>
      let classified := classifyExportError fromError err.cause
      let e := (e.recordFailure classified).markFailure clock.mark
      match raw with
      -- the split has settled the rest of the batch itself
      | .split se =>
        let e := e.countRejected se.rejected
        if se.undelivered.isEmpty then e else e.persist encodedLen se.undelivered clock
      | .plain _ =>
        -- a payload refused on its merits would be refused again from the queue
        if classified.isRetryable then e.persist encodedLen records clock
        else e.countRejected records.length

/-! ## The replay's exports -/

/-- `exportDirect` after the wrapped exporter's answer. `canceled` says that the
context of the export was cancelled. -/
def LogExporter.exportDirect (e : LogExporter) (raw : Option ExportErr) (canceled : Bool)
    (mark : Int) : Option ExportErr × LogExporter :=
  match raw with
  | none => (none, e.markSuccess mark)
  | some raw =>
    let (found, rest) := splitRejections raw
    let e := e.reportRejections found
    match rest with
    | none => (none, e.markSuccess mark)
    | some err =>
      let kept := match raw with
        | .plain _ => true
        | .split se => !se.undelivered.isEmpty
      let classified := classifyExportError fromError err.cause
      let e :=
        -- a cancelled export is no verdict on the backend
        if canceled then e
        else
          let e := e.recordFailure classified
          if classified.isRetryable && kept then e.markFailure mark else e
      match raw with
      | .plain _ => (some err, e)
      | .split se => (some (.split { se with err := some err.cause }), e)

end Export

end SenhubAgent.Otlp

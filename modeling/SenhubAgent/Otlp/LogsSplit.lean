import SenhubAgent.Otlp.ExportError
import SenhubAgent.Otlp.LogRecord

/-!
# The splitting logs exporter

`splittingLogExporter.Export` cuts a batch between records so that each part
stays under the working budget, halves a part the receiver refuses for its size,
and reports what became of every record. This file models `Export`, `deliver`,
`refusedForSize`, `result` and `splitRecordsByBytes`; `SplitAccount` proves that
no record is lost or counted twice on the way.

The wrapped exporter is an oracle: it answers a call with any error value
whatever, and may look at every call made before. The calls are logged with
their answers, so "contained in an accepted call" is a statement about the log,
not about a counter the code keeps.

Mirroring notes:
- `deliver` and `refusedForSize` call each other; here the second takes the first
  as an argument. Each round of the recursion spends one call, and the code stops
  at `maxCalls`; the recursion is on the calls left, and running out of them takes
  the branch of the cap itself.
- `ctx.Err()` is read once at the start of every `deliver`; the oracle `ctxErr`
  gives the reading for each of them in turn.
- The working budget is read once per export and lowered on every refusal. It is
  a 64-bit integer in the source and may be anything here.
-/

namespace SenhubAgent.Otlp

/-- The two values `ctx.Err()` can have. -/
inductive CtxErr where
  | canceled | deadlineExceeded
  deriving DecidableEq, Repr

def CtxErr.err : CtxErr → GoErr
  | .canceled => .leaf "context canceled"
  | .deadlineExceeded => .leaf "context deadline exceeded"

/-- One call of the wrapped exporter and its answer. -/
structure Call where
  part : List Record
  answer : Option GoErr

/-- What an export depends on besides its batch: the wrapped exporter, the
context, and the gRPC status reader. -/
structure ExportEnv where
  downstream : List Call → List Record → Option GoErr
  ctxErr : Nat → Option CtxErr
  fromError : GoErr → Option GrpcStatus

def minLogsExportBudget : Int := 65536

def errSplitCallCap : GoErr := .leaf "logs export split: call budget exhausted"

/-- `splitRun`: the outcome of one export across its parts. -/
structure SplitRun where
  calls : Nat := 0
  maxCalls : Nat
  undelivered : List Record := []
  reports : List GoErr := []
  failures : List GoErr := []
  rejected : Nat := 0
  dropped : Nat := 0

/-- The run, and what it touches outside itself: the working budget, the
`record_too_large` counter, the calls made and the context readings so far. -/
structure SplitState where
  run : SplitRun
  budget : Int
  recordTooLarge : Nat := 0
  log : List Call := []
  checks : Nat := 0

/-- `splitExportError`. -/
structure SplitExportError where
  err : Option GoErr
  undelivered : List Record
  rejected : Nat
  dropped : Nat

/-- The error values an export of this package returns. -/
inductive ExportErr where
  | plain (err : GoErr)
  | split (se : SplitExportError)

/-! ## The exporter -/

/-- The chunk being filled, its size so far, and the records still to place. -/
def splitLoop (maxBytes : Int) : List Record → Nat → List Record → List (List Record)
  | cur, _, [] => [cur]
  | cur, size, r :: rs =>
    let n := estimateRecordBytes r
    if cur ≠ [] ∧ (size + n : Nat) > maxBytes then cur :: splitLoop maxBytes [r] n rs
    else splitLoop maxBytes (cur ++ [r]) (size + n) rs

def splitRecordsByBytes (records : List Record) (maxBytes : Int) : List (List Record) :=
  if records.isEmpty then [] else splitLoop maxBytes [] 0 records

/-- `lowerBudget`: half of what was refused, never up, never under the floor. -/
def lowerBudget (budget : Int) (refused : Nat) : Int :=
  let floor := min minLogsExportBudget budget
  let candidate := max ((refused / 2 : Nat) : Int) floor
  if budget ≤ candidate then budget else candidate

/-- A part that stays with the caller. -/
def SplitState.keep (st : SplitState) (part : List Record) (err : GoErr) : SplitState :=
  { st with run := { st.run with
      undelivered := st.run.undelivered ++ part
      failures := st.run.failures ++ [err] } }

/-- A part refused on its merits. -/
def SplitState.reject (st : SplitState) (part : List Record) (err : GoErr) : SplitState :=
  { st with run := { st.run with
      rejected := st.run.rejected + part.length
      failures := st.run.failures ++ [err] } }

/-- `dropRecordTooLarge` with the run's own count. -/
def SplitState.drop (st : SplitState) : SplitState :=
  { st with
    recordTooLarge := st.recordTooLarge + 1
    run := { st.run with dropped := st.run.dropped + 1 } }

/-- A call and its answer. -/
def SplitState.call (st : SplitState) (part : List Record) (answer : Option GoErr) : SplitState :=
  { st with
    log := st.log ++ [⟨part, answer⟩]
    run := { st.run with calls := st.run.calls + 1 } }

/-- The whole error is kept when it holds a rejection. -/
def SplitState.report (st : SplitState) (found : List PartialSuccess) (err : GoErr) : SplitState :=
  if found.isEmpty then st
  else { st with run := { st.run with reports := st.run.reports ++ [err] } }

/-- A part refused for its size: dropped when it is one record, else halved;
`again` is `deliver` on the halves. -/
def refusedForSize (again : List Record → SplitState → SplitState) (part : List Record)
    (st : SplitState) : SplitState :=
  match part with
  | [_] => st.drop
  | _ =>
    let size := (part.map estimateRecordBytes).sum
    let st' := { st with budget := lowerBudget st.budget size }
    let mid := part.length / 2
    again (part.drop mid) (again (part.take mid) st')

section Export

variable (env : ExportEnv)

/-- Send one part; halve it on a size refusal. `left` is the calls left. -/
def deliver (left : Nat) (part : List Record) (st : SplitState) : SplitState :=
  let st' := { st with checks := st.checks + 1 }
  match env.ctxErr st.checks with
  | some err => st'.keep part err.err
  | none =>
    match left with
    | 0 => st'.keep part errSplitCallCap
    | left + 1 =>
      if st.run.calls ≥ st.run.maxCalls then st'.keep part errSplitCallCap
      else
        let answer := env.downstream st.log part
        let st' := st'.call part answer
        match answer with
        | none => st'
        | some err =>
          let (found, rest) := splitPartialSuccess err
          let st' := st'.report found err
          match rest with
          | none => st'
          | some rest =>
            if isSizeRefusal env.fromError rest then refusedForSize (deliver left) part st'
            else if (classifyExportError env.fromError rest).isRetryable then st'.keep part rest
            else st'.reject part rest

/-- `splitRun.result`. -/
def SplitRun.result (run : SplitRun) : Option ExportErr :=
  if run.undelivered.isEmpty && run.rejected == 0 then
    (errorsJoin run.reports).map ExportErr.plain
  else
    some (.split
      { err := errorsJoin (run.reports ++ run.failures)
        undelivered := run.undelivered
        rejected := run.rejected
        dropped := run.dropped })

/-- The state an export starts from. -/
def SplitState.start (records : List Record) (budget : Int) : SplitState :=
  { run := { maxCalls := 2 * records.length }, budget := budget }

/-- `splittingLogExporter.Export`: the error returned and the state it leaves. -/
def splitExport (budget : Int) (records : List Record) : Option ExportErr × SplitState :=
  let chunks := splitRecordsByBytes records budget
  let st := SplitState.start records budget
  if chunks.length ≤ 1 then
    let answer := env.downstream st.log records
    let st := st.call records answer
    match answer with
    | none => (none, st)
    | some err =>
      let (found, rest) := splitPartialSuccess err
      match rest with
      | none => (some (.plain err), st)
      | some rest =>
        if !isSizeRefusal env.fromError rest || records.isEmpty then (some (.plain err), st)
        else
          let st := refusedForSize (deliver env st.run.maxCalls) records (st.report found err)
          (st.run.result, st)
  else
    let st := chunks.foldl (fun st chunk => deliver env st.run.maxCalls chunk st) st
    (st.run.result, st)

end Export

end SenhubAgent.Otlp

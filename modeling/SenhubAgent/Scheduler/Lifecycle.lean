import SenhubAgent.Lib.Schedule
import SenhubAgent.Scheduler.Backoff

/-!
# Starting and stopping a scheduler

`Start` and `Shutdown` of a `periodicScheduler`, the tick loops they start and end, and the contexts
of their callers, as one interleaved system. `lifecycleMutex` lets one call run at a time, so there is
one `Call` in progress at most; `mutex` is held around `Execute`.

Every `Start` that does not return at once makes a run context (`Run`); the tick loop that
`setupIntervalCall` starts for it, its ticker and its counters are kept with it. The hook's stop
channel ends with the run context and has no state of its own here.

* `Start`: `callStart`, then `hookReturns` for `OnStart`, `callLocks` and `callExecuted` for the
  initial `Execute`, then `setup`.
* `Shutdown`: `callShutdown`, then `loopDone` or `budgetExpired` for the wait, `callLocks` and
  `callExecuted` for the final `Execute`, `hookReturns` for `OnShutdown`.
* A loop: `fire` (its ticker), `tick`, `locks`, `executed` or `panics`, and `quit`.

`started` is set before anything can fail and is not taken back, and `Start` looks at nothing else: it
returns nil after a failed start, and when the context of the running loop has ended
(`restart_silent`). What holds otherwise is `Scheduler.Ticking`'s `started_ticks`.
-/

namespace SenhubAgent.Scheduler

open SenhubAgent.Lib

/-- What `Start` and `Shutdown` read of the configuration. -/
structure Config where
  executeOnStart : Bool
  executeOnShutdown : Bool
  failOnStartError : Bool
  interval : Nat
  maxRetries : Int
  /-- `OnStart != nil` -/
  onStart : Bool
  /-- `OnShutdown != nil` -/
  onShutdown : Bool
  deriving DecidableEq, Repr

/-- A caller's context; `none` is never cancelled (a background context, or nil for `Start`). -/
abbrev Context := Option Nat

inductive LoopPhase where
  /-- No loop has been started for the run. -/
  | unborn
  /-- At the `select`. -/
  | select
  /-- In `doCall`, before `mutex.Lock` returns. -/
  | calling
  /-- In `Execute`. -/
  | executing
  /-- `done` is closed. -/
  | gone
  deriving DecidableEq, Repr

/-- A run context of the scheduler, with the ticker and the loop made for it. -/
structure Run where
  /-- The context it is derived from. -/
  parent : Context
  /-- `runCancel` was called. -/
  cancelled : Bool
  tickerStopped : Bool
  /-- A tick is in the ticker's channel. -/
  tickPending : Bool
  loop : LoopPhase
  counters : Counters
  deriving DecidableEq, Repr

def Run.Running (r : Run) : Prop := r.loop ≠ .unborn ∧ r.loop ≠ .gone

instance (r : Run) : Decidable r.Running := inferInstanceAs (Decidable (_ ∧ _))

/-- The call that holds `lifecycleMutex`. -/
inductive Call where
  | idle
  | startHook (ctx : Context)
  | startLock (ctx : Context)
  | startExecute (ctx : Context)
  | startSetup (ctx : Context)
  | stopWait (ctx : Context) (run : Nat)
  | stopLock (ctx : Context)
  | stopExecute (ctx : Context)
  | stopHook (ctx : Context)
  deriving DecidableEq, Repr

/-- The call is in `Execute`. -/
def Call.executing : Call → Bool
  | .startExecute _ | .stopExecute _ => true
  | _ => false

/-- What a call returned; `ok` is a nil error. -/
inductive Return where
  | start (ctx : Context) (ok : Bool)
  | shutdown (ctx : Context) (ok : Bool)
  deriving DecidableEq, Repr

/-- Who is in `Execute`. -/
inductive Party where
  | caller
  | loop (run : Nat)
  deriving DecidableEq, Repr

/-- The fields `lifecycleMutex` guards, the runs, and the contexts of the callers. -/
structure Fields where
  started : Bool
  runCtx : Option Nat
  ticker : Option Nat
  done : Option Nat
  runs : List Run
  /-- The contexts that were cancelled or have expired. -/
  ended : List Nat
  deriving DecidableEq, Repr

structure State extends Fields where
  mutex : Option Party
  call : Call
  /-- What the last step returned from a call, if it did. -/
  returned : Option Return
  deriving DecidableEq, Repr

/-- `NewPeriodicScheduler`, under contexts some of which may have ended before. -/
def State.new (ended : List Nat) : State :=
  ⟨⟨false, none, none, none, [], ended⟩, none, .idle, none⟩

/-- The context has not ended. -/
def Fields.Live (s : Fields) (ctx : Context) : Prop := ∀ c ∈ ctx, c ∉ s.ended

instance (s : Fields) (ctx : Context) : Decidable (s.Live ctx) :=
  inferInstanceAs (Decidable (∀ c ∈ ctx, c ∉ s.ended))

/-- The run context has not ended: neither `runCancel` nor the caller has cancelled it. -/
def Fields.RunLive (s : Fields) (r : Run) : Prop := r.cancelled = false ∧ s.Live r.parent

instance (s : Fields) (r : Run) : Decidable (s.RunLive r) := inferInstanceAs (Decidable (_ ∧ _))

inductive Action where
  | callStart (ctx : Context)
  | callShutdown (ctx : Context)
  | hookReturns (ok : Bool)
  | callLocks
  | callExecuted (ok : Bool)
  | setup
  | loopDone
  | budgetExpired
  | fire (run : Nat)
  | tick (run : Nat)
  | locks (run : Nat)
  | executed (run : Nat) (ok : Bool)
  | panics (run : Nat)
  | quit (run : Nat)
  | cancel (ctx : Nat)
  deriving DecidableEq, Repr

def State.return (s : State) (r : Return) : State := { s with call := .idle, returned := some r }

/-- `Start` after `OnStart`. -/
def State.startExecution (cfg : Config) (s : State) (ctx : Context) : State :=
  { s with call := if cfg.executeOnStart then .startLock ctx else .startSetup ctx }

/-- `started`, and a run context derived from the caller's. -/
def Fields.newRun (s : Fields) (ctx : Context) : Fields :=
  { s with
    started := true
    runCtx := some s.runs.length
    runs := s.runs ++ [⟨ctx, false, false, false, .unborn, ⟨0, 0, 0⟩⟩] }

/-- The head of `Start`. -/
def State.start (cfg : Config) (s : State) (ctx : Context) : State :=
  if s.started then s.return (.start ctx true)
  else
    let s := { s with toFields := s.newRun ctx }
    if cfg.onStart then { s with call := .startHook ctx } else s.startExecution cfg ctx

/-- `setupIntervalCall`, and the return of `Start`. -/
def State.setupIntervalCall (cfg : Config) (s : State) (ctx : Context) : State :=
  if cfg.interval = 0 then s.return (.start ctx true)
  else
    match s.runCtx with
    | none => s.return (.start ctx true)
    | some i =>
      { s with
        ticker := some i
        done := some i
        runs := s.runs.modify i fun r => { r with loop := .select } }.return (.start ctx true)

/-- `Shutdown` after the final call. -/
def State.stopHooks (cfg : Config) (s : State) (ctx : Context) : State :=
  if cfg.onShutdown then { s with call := .stopHook ctx } else s.return (.shutdown ctx true)

/-- `Shutdown` after the wait. -/
def State.stopExecution (cfg : Config) (s : State) (ctx : Context) : State :=
  let s := { s with done := none }
  if cfg.executeOnShutdown then { s with call := .stopLock ctx } else s.stopHooks cfg ctx

/-- Change run `i`. -/
def Fields.modifyRun (s : Fields) (i : Nat) (f : Run → Run) : Fields :=
  { s with runs := s.runs.modify i f }

/-- Change the run a field names, where it is set. -/
def Fields.modifyField (s : Fields) (field : Option Nat) (f : Run → Run) : Fields :=
  match field with
  | none => s
  | some i => s.modifyRun i f

/-- `ticker.Stop` and `runCancel`. -/
def Fields.cancelRun (s : Fields) : Fields :=
  let s := s.modifyField s.ticker fun r => { r with tickerStopped := true }
  let s := s.modifyField s.runCtx fun r => { r with cancelled := true }
  { s with started := false, ticker := none, runCtx := none }

/-- `Shutdown` up to the wait. -/
def State.shutdown (cfg : Config) (s : State) (ctx : Context) : State :=
  if !s.started then s.return (.shutdown ctx true)
  else
    match s.done with
    | none => { s with toFields := s.cancelRun }.stopExecution cfg ctx
    | some i => { s with toFields := s.cancelRun, call := .stopWait ctx i }

/-- `s'`, where run `i` meets the guard. -/
def State.atRun (s : State) (i : Nat) (guard : Run → Prop) [DecidablePred guard] (s' : State) :
    Option State :=
  match s.runs[i]? with
  | some r => if guard r then some s' else none
  | none => none

/-- The loop takes a tick from its ticker: it skips it, or goes to call `Execute`. -/
def Run.onTick (maxRetries : Int) (r : Run) : Run :=
  if r.counters.skipRemaining > 0 then
    { r with tickPending := false, counters := r.counters.tick maxRetries true }
  else { r with tickPending := false, loop := .calling }

/-- One step, in a state whose `returned` is cleared. -/
def act (cfg : Config) (s : State) : Action → Option State
  | .callStart ctx => if s.call = .idle then some (s.start cfg ctx) else none
  | .callShutdown ctx => if s.call = .idle then some (s.shutdown cfg ctx) else none
  | .hookReturns ok =>
    match s.call with
    | .startHook ctx =>
      some (if ok then s.startExecution cfg ctx else s.return (.start ctx false))
    | .stopHook ctx => some (s.return (.shutdown ctx ok))
    | _ => none
  | .callLocks =>
    if s.mutex = none then
      match s.call with
      | .startLock ctx => some { s with mutex := some .caller, call := .startExecute ctx }
      | .stopLock ctx => some { s with mutex := some .caller, call := .stopExecute ctx }
      | _ => none
    else none
  | .callExecuted ok =>
    let s' := { s with mutex := none }
    match s.call with
    | .startExecute ctx =>
      some (if !ok && cfg.failOnStartError then s'.return (.start ctx false)
        else { s' with call := .startSetup ctx })
    | .stopExecute ctx => some (if ok then s'.stopHooks cfg ctx else s'.return (.shutdown ctx false))
    | _ => none
  | .setup =>
    match s.call with
    | .startSetup ctx => some (s.setupIntervalCall cfg ctx)
    | _ => none
  | .loopDone =>
    match s.call with
    | .stopWait ctx i => s.atRun i (fun r => r.loop = .gone) (s.stopExecution cfg ctx)
    | _ => none
  | .budgetExpired =>
    match s.call with
    | .stopWait ctx _ => if s.Live ctx then none else some (s.stopExecution cfg ctx)
    | _ => none
  | .fire i => s.atRun i (fun r => r.Running ∧ r.tickerStopped = false)
    { s with toFields := s.modifyRun i fun r => { r with tickPending := true } }
  | .tick i => s.atRun i (fun r => r.loop = .select ∧ r.tickPending = true)
    { s with toFields := s.modifyRun i (Run.onTick cfg.maxRetries) }
  | .locks i => s.atRun i (fun r => r.loop = .calling ∧ s.mutex = none)
    { s with
      toFields := s.modifyRun i fun r => { r with loop := .executing }
      mutex := some (.loop i) }
  | .executed i ok => s.atRun i (fun r => r.loop = .executing)
    { s with
      toFields := s.modifyRun i fun r =>
        { r with loop := .select, counters := r.counters.tick cfg.maxRetries ok }
      mutex := none }
  | .panics i => s.atRun i (fun r => r.loop = .executing)
    { s with
      toFields := s.modifyRun i fun r => { r with loop := .gone }
      mutex := none }
  | .quit i => s.atRun i (fun r => r.loop = .select ∧ ¬s.RunLive r)
    { s with toFields := s.modifyRun i fun r => { r with loop := .gone } }
  | .cancel c => some { s with ended := c :: s.ended }

def step (cfg : Config) (s : State) (a : Action) : Option State :=
  act cfg { s with returned := none } a

/-! ## The property -/

/-- Loop `i` of the scheduler runs. -/
def Fields.RunningAt (s : Fields) (i : Nat) : Prop := ∃ r, s.runs[i]? = some r ∧ r.Running

/-- A loop runs whose ticker fires and whose run context is live. -/
def Fields.Ticks (s : Fields) : Prop :=
  ∃ r ∈ s.runs, r.Running ∧ r.tickerStopped = false ∧ s.RunLive r

/-- No loop runs. -/
def Fields.Quiet (s : Fields) : Prop := ∀ r ∈ s.runs, ¬r.Running

instance (s : Fields) : Decidable s.Ticks := inferInstanceAs (Decidable (∃ r ∈ s.runs, _))

instance (s : Fields) : Decidable s.Quiet := inferInstanceAs (Decidable (∀ r ∈ s.runs, _))

/-- The party is in `Execute`. -/
def State.Executing (s : State) : Party → Prop
  | .caller => s.call.executing = true
  | .loop i => ∃ r, s.runs[i]? = some r ∧ r.loop = .executing

/-- What a scheduler promises in one state. -/
structure Sound (s : State) : Prop where
  /-- `Start` has returned nil under a live context: a loop is ticking. -/
  ticks : ∀ ctx, s.returned = some (.start ctx true) → s.Live ctx → s.Ticks
  /-- At most one loop runs. -/
  one : ∀ i j, s.RunningAt i → s.RunningAt j → i = j
  /-- `Shutdown` has returned within its context: no loop runs. -/
  quiet : ∀ ctx ok, s.returned = some (.shutdown ctx ok) → s.Live ctx → s.Quiet
  /-- At most one party is in `Execute`. -/
  exclusive : ∀ p q, s.Executing p → s.Executing q → p = q

/-- **A restart after a failed start is silent**: the hook fails, `Start` returns its error, and the
next `Start` returns nil with no loop running. -/
theorem restart_silent :
    ¬∀ (cfg : Config), 0 < cfg.interval → ∀ (ended : List Nat) (as : List Action) (s : State),
      runSchedule (step cfg) (State.new ended) as = some s → Sound s := by
  intro h
  have hsound := h ⟨false, false, false, 1, 0, true, false⟩ (by decide) []
    [.callStart none, .hookReturns false, .callStart none] _ rfl
  exact absurd (hsound.ticks none rfl nofun) (by decide)

end SenhubAgent.Scheduler

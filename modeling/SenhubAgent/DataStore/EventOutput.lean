import SenhubAgent.DataStore.PushQueue
import SenhubAgent.ExportErrors
import SenhubAgent.Lib.Channel
import SenhubAgent.Time

/-!
# The event output

`EventSyncStrategy` buffers formatted events in a channel and posts them in batches. An
`enqueue` that finds the buffer full takes the oldest event out and tries once more. A sync
takes the whole retry backlog and then events of the buffer, up to a number and a size; a
batch the intake refuses for good is dropped and counted, any other failed batch goes back to
the backlog. `Shutdown` ends with one more sync.

Mirroring notes:
- Every channel operation and every update of a shared value is an action of its own, so a
  run is any interleaving of the enqueue calls, the sync that is in progress, the ticker and
  `Shutdown`. `triggered` is the goroutine of `triggerSync`: `syncInProgress` is set exactly
  while it is there.
- The log pump and `drainLogSub` only call `enqueue`: they are among the calls.
- `json.Marshal` is a parameter, of which the length of the text is used. A slice of events
  can be marshalled when each of them can.
- `retry.Do` stops at the first success, at the first error that is not retryable and after
  `retryAttempts` attempts (zero: never). The waits between attempts are left out.
- `delivered`, the events of the batches the intake took, is a ghost.
-/

namespace SenhubAgent.DataStore.EventOutput

open SenhubAgent.Lib

/-! ## Events -/

/-- A field of an event; `V` are the values that are neither a time nor a text. -/
inductive Field (V : Type)
  | time (t : Instant)
  | text (s : String)
  | other (v : V)

abbrev EventDataPoint (V : Type) := AssocMap String (Field V)

section

variable {V : Type}

def requireText (e : EventDataPoint V) (key message : String) : Except String Unit :=
  match e.lookup key with
  | some (.text s) => if s = "" then .error message else .ok ()
  | _ => .error message

def requireTimestamp (e : EventDataPoint V) : Except String Unit :=
  match e.lookup "timestamp" with
  | some (.time t) =>
    if t = zeroTime then .error "timestamp is required and must be a valid time" else .ok ()
  | _ => .error "timestamp is required and must be a valid time"

def validate (e : EventDataPoint V) : Except String Unit := do
  requireTimestamp e
  requireText e "host" "host is required and must be a non-empty string"
  requireText e "severity" "severity is required and must be a valid severity level"
  requireText e "message" "message is required and must be a non-empty string"

/-! ## Sending a batch -/

/-- What a post of a batch meets. -/
inductive Reply
  | unreachable
  | unreadableBody
  | status (code : Nat)

inductive SendResult
  | accepted
  /-- `ErrTransport` -/
  | transport
  /-- `ErrValidation` -/
  | validation
  deriving DecidableEq

def Reply.result : Reply → SendResult
  | .unreachable => .transport
  | .unreadableBody => .transport
  | .status code =>
    if code = 202 ∨ code = 200 then .accepted
    else if isPermanentHTTPStatus code then .validation
    else .transport

/-- The fixed part of `EventSyncStrategy`. -/
structure Strategy (V : Type) where
  queueSize : Nat
  syncTriggerSize : Nat
  syncTriggerBytes : Nat
  retryAttempts : Nat
  /-- the length of the JSON text -/
  marshal : EventDataPoint V → Option Nat

/-- `sendEvents` of a batch that is not empty. -/
def Strategy.sendEvents (st : Strategy V) (events : List (EventDataPoint V)) (reply : Reply) :
    SendResult :=
  if events.all fun e => (st.marshal e).isSome then reply.result else .validation

/-! ## State -/

/-- What the calls and the syncs share. -/
structure Work (V : Type) where
  buffer : Chan (EventDataPoint V)
  currentSize : Int
  failedEvents : Bounded (EventDataPoint V)
  counters : DropCounters
  delivered : List (EventDataPoint V)

/-- Where an `enqueue` of a valid event is. -/
inductive Call (V : Type)
  /-- at the first send -/
  | offer (evt : EventDataPoint V) (size : Nat)
  /-- the buffer was full -/
  | evict (evt : EventDataPoint V)
  | resend (evt : EventDataPoint V)
  /-- sent: at `currentSize.Add` -/
  | weigh (size : Nat)
  | check (newSize : Int)
  /-- at the compare-and-swap of `triggerSync` -/
  | trigger

/-- Where a `doSync` is: `events` is its batch, `size` its `currentBatchSize`. -/
inductive Sync (V : Type)
  | begun
  /-- at the loop's condition -/
  | loop (events : List (EventDataPoint V)) (size : Nat)
  | receive (events : List (EventDataPoint V)) (size : Nat)
  | putBack (events : List (EventDataPoint V)) (size : Nat) (evt : EventDataPoint V)
  | collected (events : List (EventDataPoint V)) (size : Nat)
  | sending (events : List (EventDataPoint V)) (attempt : Nat)
  /-- to be dropped -/
  | refused (events : List (EventDataPoint V))
  /-- to go back to the backlog -/
  | undelivered (events : List (EventDataPoint V))

/-- A step of a `doSync` leads on, or returns; `failed` is a returned error. -/
inductive Next (V : Type)
  | goes (phase : Sync V)
  | returns (failed : Bool)

inductive Stopping (V : Type)
  | notCalled
  /-- waiting for the sync in progress -/
  | waiting
  /-- in the final `doSync` -/
  | flushing (phase : Sync V)
  | returned (failed : Bool)

structure System (V : Type) where
  work : Work V
  calls : List (Call V)
  triggered : Option (Sync V)
  /-- a tick is buffered -/
  tick : Bool
  tickerStopped : Bool
  tickerGone : Bool
  stopping : Stopping V

inductive Action (V : Type)
  /-- a call of `enqueue` begins: validation and `json.Marshal` -/
  | enqueue (evt : EventDataPoint V)
  /-- the `i`-th call goes on -/
  | call (i : Nat)
  /-- the triggered sync goes on -/
  | sync (reply : Reply)
  /-- the ticker fires -/
  | fire
  /-- the ticker goroutine takes the tick, or ends -/
  | tick
  | tickerEnds
  /-- `Shutdown` up to its wait: no more ticks -/
  | shutdown
  /-- it looks at `syncInProgress` -/
  | poll
  /-- its context ends -/
  | expire
  /-- its final sync goes on -/
  | flush (reply : Reply)

/-! ## Steps -/

/-- One step of an `enqueue`; a call at `trigger` is over but for the swap. -/
def callStep (st : Strategy V) (w : Work V) : Call V → Work V × Option (Call V)
  | .offer evt size =>
    match w.buffer.trySend evt with
    | some buffer => ({ w with buffer := buffer }, some (.weigh size))
    | none => (w, some (.evict evt))
  | .evict evt =>
    match w.buffer.tryRecv with
    | some (_, buffer) => ({ w with buffer := buffer }, some (.resend evt))
    | none => (w, none)
  | .resend evt =>
    match w.buffer.trySend evt with
    | some buffer => ({ w with buffer := buffer }, none)
    | none => (w, none)
  | .weigh size =>
    ({ w with currentSize := w.currentSize + size }, some (.check (w.currentSize + size)))
  | .check newSize =>
    if st.syncTriggerSize ≤ w.buffer.buf.length ∨ (st.syncTriggerBytes : Int) ≤ newSize then
      (w, some .trigger)
    else (w, none)
  | .trigger => (w, none)

/-- One step of a `doSync`; `none` while the event it puts back finds no room. -/
def syncStep (st : Strategy V) (reply : Reply) (w : Work V) : Sync V → Option (Work V × Next V)
  | .begun =>
    some ({ w with failedEvents := w.failedEvents.sync.2 }, .goes (.loop w.failedEvents.sync.1 0))
  | .loop events size =>
    if events.length < st.syncTriggerSize ∧ 0 < w.buffer.buf.length then
      some (w, .goes (.receive events size))
    else some (w, .goes (.collected events size))
  | .receive events size =>
    match w.buffer.tryRecv with
    | none => some (w, .goes (.collected events size))
    | some (evt, buffer) =>
      match st.marshal evt with
      | none => some ({ w with buffer := buffer }, .goes (.loop events size))
      | some n =>
        if st.syncTriggerBytes < size + n then
          some ({ w with buffer := buffer }, .goes (.putBack events size evt))
        else some ({ w with buffer := buffer }, .goes (.loop (events ++ [evt]) (size + n)))
  | .putBack events size evt =>
    match w.buffer.trySend evt with
    | none => none
    | some buffer => some ({ w with buffer := buffer }, .goes (.collected events size))
  | .collected events size =>
    let w := { w with currentSize := w.currentSize - size }
    if events.isEmpty then some (w, .returns false) else some (w, .goes (.sending events 0))
  | .sending events attempt =>
    match st.sendEvents events reply with
    | .accepted => some ({ w with delivered := w.delivered ++ events }, .returns false)
    | .validation => some (w, .goes (.refused events))
    | .transport =>
      if attempt + 1 = st.retryAttempts then some (w, .goes (.undelivered events))
      else some (w, .goes (.sending events (attempt + 1)))
  | .refused events =>
    some ({ w with counters := incrementPushBufferDropped w.counters "event" events.length },
      .returns false)
  | .undelivered events =>
    let (failedEvents, counters) := w.failedEvents.abortSync events w.counters
    some ({ w with failedEvents := failedEvents, counters := counters }, .returns true)

/-- `triggerSync` -/
def System.trigger (sys : System V) : System V :=
  match sys.triggered with
  | some _ => sys
  | none => { sys with triggered := some .begun }

def System.step (st : Strategy V) (sys : System V) : Action V → Option (System V)
  | .enqueue evt =>
    match validate evt with
    | .error _ => some sys
    | .ok () =>
      match st.marshal evt with
      | none => some sys
      | some size => some { sys with calls := sys.calls ++ [.offer evt size] }
  | .call i =>
    match sys.calls[i]? with
    | none => none
    | some .trigger => some { sys.trigger with calls := sys.calls.eraseIdx i }
    | some call =>
      match callStep st sys.work call with
      | (work, some call') => some { sys with work := work, calls := sys.calls.set i call' }
      | (work, none) => some { sys with work := work, calls := sys.calls.eraseIdx i }
  | .sync reply =>
    match sys.triggered with
    | none => none
    | some phase =>
      match syncStep st reply sys.work phase with
      | none => none
      | some (work, .goes phase') => some { sys with work := work, triggered := some phase' }
      | some (work, .returns _) => some { sys with work := work, triggered := none }
  | .fire => if sys.tickerStopped then none else some { sys with tick := true }
  | .tick =>
    if sys.tick && !sys.tickerGone then some { sys.trigger with tick := false } else none
  | .tickerEnds => if sys.tickerStopped then some { sys with tickerGone := true } else none
  | .shutdown =>
    match sys.stopping with
    | .notCalled => some { sys with tickerStopped := true, stopping := .waiting }
    | _ => none
  | .poll =>
    match sys.stopping, sys.triggered with
    | .waiting, some _ => some sys
    | .waiting, none => some { sys with stopping := .flushing .begun }
    | _, _ => none
  | .expire =>
    match sys.stopping with
    | .waiting => some { sys with stopping := .returned true }
    | _ => none
  | .flush reply =>
    match sys.stopping with
    | .flushing phase =>
      match syncStep st reply sys.work phase with
      | none => none
      | some (work, .goes phase') => some { sys with work := work, stopping := .flushing phase' }
      | some (work, .returns failed) =>
        some { sys with work := work, stopping := .returned failed }
    | _ => none

/-- The cap of the backlog. -/
def defaultMaxItems : Int := 100000

/-- A started strategy; the counters may hold anything. -/
def start (st : Strategy V) (counters : DropCounters) : System V where
  work :=
    ⟨.make _ st.queueSize, 0, .new _ "event" defaultMaxItems, counters, []⟩
  calls := []
  triggered := none
  tick := false
  tickerStopped := false
  tickerGone := false
  stopping := .notCalled

/-! ## What a step does -/

/-- The final `doSync`. -/
def Stopping.final : Stopping V → Option (Sync V)
  | .flushing phase => some phase
  | _ => none

/-- The `doSync` calls in progress: the triggered one and the final one. -/
def System.syncs (sys : System V) : List (Sync V) :=
  sys.triggered.toList ++ sys.stopping.final.toList

def Next.phases : Next V → List (Sync V)
  | .goes phase => [phase]
  | .returns _ => []

/-- A side condition on actions: `enq` on the events that come in, `call` on the `enqueue` that goes
on and `sync` on the `doSync` that goes on. -/
def Admitted (enq : EventDataPoint V → Prop) (call : System V → Call V → Prop)
    (sync : System V → Sync V → Prop) (sys : System V) : Action V → Prop
  | .enqueue evt => enq evt
  | .call i => ∀ c ∈ sys.calls[i]?, call sys c
  | .sync _ => ∀ phase ∈ sys.triggered, sync sys phase
  | .flush _ => ∀ phase ∈ sys.stopping.final, sync sys phase
  | _ => True

instance (enq : EventDataPoint V → Prop) (call : System V → Call V → Prop)
    (sync : System V → Sync V → Prop) [DecidablePred enq] [∀ sys c, Decidable (call sys c)]
    [∀ sys phase, Decidable (sync sys phase)] (sys : System V) :
    (a : Action V) → Decidable (Admitted enq call sync sys a)
  | .enqueue evt => inferInstanceAs (Decidable (enq evt))
  | .call i => inferInstanceAs (Decidable (∀ c ∈ sys.calls[i]?, call sys c))
  | .sync _ => inferInstanceAs (Decidable (∀ phase ∈ sys.triggered, sync sys phase))
  | .flush _ => inferInstanceAs (Decidable (∀ phase ∈ sys.stopping.final, sync sys phase))
  | .fire | .tick | .tickerEnds | .shutdown | .poll | .expire => isTrue trivial

/-- The step of an admitted action, with the calls and the syncs as lists. -/
inductive Moves (st : Strategy V) (enq : EventDataPoint V → Prop)
    (call : System V → Call V → Prop) (sync : System V → Sync V → Prop) (sys sys' : System V) : Prop
  /-- nothing but a sync that begins -/
  | stays (work : sys'.work = sys.work) (calls : sys'.calls = sys.calls)
      (syncs : sys'.syncs = sys.syncs ∨ sys'.syncs = .begun :: sys.syncs)
  | offers (evt : EventDataPoint V) (size : Nat) (admitted : enq evt)
      (marshal : st.marshal evt = some size) (work : sys'.work = sys.work)
      (calls : sys'.calls = sys.calls ++ [.offer evt size]) (syncs : sys'.syncs = sys.syncs)
  /-- `triggerSync` -/
  | triggers (before after : List (Call V)) (was : sys.calls = before ++ .trigger :: after)
      (work : sys'.work = sys.work) (calls : sys'.calls = before ++ after)
      (syncs : sys'.syncs = sys.syncs ∨ sys'.syncs = .begun :: sys.syncs)
  | calls (before after : List (Call V)) (c : Call V) (next : Option (Call V)) (admitted : call sys c)
      (was : sys.calls = before ++ c :: after) (step : callStep st sys.work c = (sys'.work, next))
      (calls : sys'.calls = before ++ next.toList ++ after) (syncs : sys'.syncs = sys.syncs)
  | syncs (before after : List (Sync V)) (phase : Sync V) (reply : Reply) (next : Next V)
      (admitted : sync sys phase) (was : sys.syncs = before ++ phase :: after)
      (step : syncStep st reply sys.work phase = some (sys'.work, next))
      (syncs : sys'.syncs = before ++ next.phases ++ after) (calls : sys'.calls = sys.calls)

theorem syncs_trigger (sys : System V) :
    sys.trigger.syncs = sys.syncs ∨ sys.trigger.syncs = .begun :: sys.syncs := by
  unfold System.trigger
  split
  next => exact .inl rfl
  next hnone =>
    refine .inr ?_
    unfold System.syncs
    rw [hnone]
    rfl

theorem trigger_work (sys : System V) : sys.trigger.work = sys.work := by
  unfold System.trigger
  split <;> rfl

theorem trigger_calls (sys : System V) : sys.trigger.calls = sys.calls := by
  unfold System.trigger
  split <;> rfl

section

variable {st : Strategy V} {enq : EventDataPoint V → Prop} {call : System V → Call V → Prop}
  {sync : System V → Sync V → Prop} {sys sys' : System V}

/-- Where the `i`-th call stands in the list. -/
theorem getElem?_split {l : List (Call V)} {i : Nat} {c : Call V} (h : l[i]? = some c) :
    ∃ before after, l = before ++ c :: after ∧ (∀ c', l.set i c' = before ++ [c'] ++ after) ∧
      l.eraseIdx i = before ++ after := by
  obtain ⟨hi, rfl⟩ := List.getElem?_eq_some_iff.mp h
  refine ⟨l.take i, l.drop (i + 1), ?_, fun c' => ?_, List.eraseIdx_eq_take_drop_succ _ _⟩
  · rw [List.getElem_cons_drop, List.take_append_drop]
  · rw [List.set_eq_take_append_cons_drop, if_pos hi, List.append_assoc]
    rfl

theorem step_moves {a : Action V} (hok : Admitted enq call sync sys a)
    (h : sys.step st a = some sys') : Moves st enq call sync sys sys' := by
  cases a with
  | enqueue evt =>
    simp only [System.step] at h
    split at h
    next =>
      cases h
      exact .stays rfl rfl (.inl rfl)
    split at h
    next =>
      cases h
      exact .stays rfl rfl (.inl rfl)
    next size hsize =>
      cases h
      exact .offers evt size hok hsize rfl rfl rfl
  | call i =>
    simp only [System.step] at h
    split at h
    next => cases h
    next hcall =>
      cases h
      obtain ⟨before, after, hwas, -, herase⟩ := getElem?_split hcall
      exact .triggers before after hwas (trigger_work sys) herase (syncs_trigger sys)
    next c _ hcall =>
      obtain ⟨before, after, hwas, hset, herase⟩ := getElem?_split hcall
      split at h
      next work c' hstep =>
        cases h
        exact .calls before after c (some c') (hok c hcall) hwas hstep (hset c') rfl
      next work hstep =>
        cases h
        exact .calls before after c none (hok c hcall) hwas hstep (by simpa using herase) rfl
  | sync reply =>
    simp only [System.step] at h
    split at h
    next => cases h
    next phase hphase =>
      have hwas : sys.syncs = [] ++ phase :: (sys.syncs.drop 1) := by
        unfold System.syncs
        rw [hphase]
        rfl
      split at h
      next => cases h
      next work phase' hstep =>
        cases h
        refine .syncs [] _ phase reply (.goes phase') (hok phase hphase) hwas hstep ?_ rfl
        unfold System.syncs
        rw [hphase]
        rfl
      next work failed hstep =>
        cases h
        refine .syncs [] _ phase reply (.returns failed) (hok phase hphase) hwas hstep ?_ rfl
        unfold System.syncs
        rw [hphase]
        rfl
  | fire =>
    obtain ⟨-, hs'⟩ := Option.ite_none_left_eq_some.mp h
    cases hs'
    exact .stays rfl rfl (.inl rfl)
  | tick =>
    obtain ⟨-, hs'⟩ := Option.ite_none_right_eq_some.mp h
    cases hs'
    exact .stays (trigger_work sys) (trigger_calls sys) (syncs_trigger sys)
  | tickerEnds =>
    obtain ⟨-, hs'⟩ := Option.ite_none_right_eq_some.mp h
    cases hs'
    exact .stays rfl rfl (.inl rfl)
  | shutdown | expire =>
    simp only [System.step] at h
    split at h
    next hstopping =>
      cases h
      refine .stays rfl rfl (.inl ?_)
      unfold System.syncs
      rw [hstopping]
      rfl
    next => cases h
  | poll =>
    simp only [System.step] at h
    split at h
    next =>
      cases h
      exact .stays rfl rfl (.inl rfl)
    next hstopping hnone =>
      cases h
      refine .stays rfl rfl (.inr ?_)
      unfold System.syncs
      rw [hstopping, hnone]
      rfl
    next => cases h
  | flush reply =>
    simp only [System.step] at h
    split at h
    next phase hstopping =>
      have hfinal : sys.stopping.final = some phase := by rw [hstopping]; rfl
      have hwas : sys.syncs = sys.triggered.toList ++ phase :: [] := by
        unfold System.syncs
        rw [hfinal]
        rfl
      split at h
      next => cases h
      next work phase' hstep =>
        cases h
        refine .syncs _ [] phase reply (.goes phase') (hok phase hfinal) hwas hstep ?_ rfl
        rw [List.append_nil]
        rfl
      next work failed hstep =>
        cases h
        refine .syncs _ [] phase reply (.returns failed) (hok phase hfinal) hwas hstep ?_ rfl
        rw [List.append_nil]
        rfl
    next => cases h

end

end

end SenhubAgent.DataStore.EventOutput

import SenhubAgent.Lib.Schedule
import SenhubAgent.Sensor.Running

/-!
# Stopping the sensor

`Shutdown` shares the sensor's lock with the configuration-change callbacks, each on a
goroutine of its own, and with the rounds of the retry goroutine. It stops the pollers,
empties the pool and clears the run context. It does not unregister the callback, and the
failed probes stay on record. Whoever gets the lock after it finds an empty pool and starts
what it can, under a background context that nothing cancels. So

> `quiet_iff`: after `Shutdown` no poller runs and none is started exactly when whoever gets
> the lock after it has nothing to start.

Mirroring notes:
- A call under the lock is one action; a callback waits for the lock from its dispatch on.
- The retry goroutine is where its loop is: in the check, in one of the two selects, or past
  a timer that fired. Both branches of a select may be taken when both are ready.
- A poller's run context hangs off the lifecycle context, or off a background one when the
  sensor has none. A poller runs until that context is cancelled or the poller is shut down.
  Cancelling is the single stop signal: a tick still in flight when the stop budget ends is
  the poller's last.
- The poller of a probe that should not start is in the pool and counts as started; it never
  runs.
-/

namespace SenhubAgent.Sensor

open SenhubAgent.Lib SenhubAgent.Config

/-- What a poller's run context hangs off. -/
inductive Root
  | lifecycle | background
  deriving DecidableEq

/-- Where the retry goroutine is. -/
inductive RetryLoop
  /-- at the top of its loop -/
  | checking
  /-- no probe waits for a retry: on the context and the wake channel -/
  | asleep
  /-- on the context and the timer -/
  | timing
  /-- the timer fired: waiting for the lock -/
  | due
  | gone
  deriving DecidableEq

/-- How far `Shutdown` is. -/
inductive Stopping
  | notCalled | called | returned
  deriving DecidableEq

structure System (H L : Type) where
  sensor : State H L
  runCtx : Option Root
  /-- the pollers whose schedulers were started, and what their run contexts hang off -/
  roots : List (H × Root)
  /-- the lifecycle context is cancelled -/
  cancelled : Bool
  /-- callbacks that wait for the lock -/
  callbacks : Nat
  retryLoop : RetryLoop
  stopping : Stopping
  /-- the pollers started after `Shutdown` returned -/
  late : List H

/-- The actions of all parties. -/
inductive Action (L : Type)
  /-- the configuration changes: `go callback(event)` -/
  | notify
  /-- a callback gets the lock -/
  | callback (w : World L) (config : Configuration)
  /-- `hasRetryableFailedProbes` -/
  | check
  /-- the retry goroutine takes the wake -/
  | wake
  | timer
  /-- `retryFailedProbesOnce` gets the lock -/
  | retryRound (w : World L)
  /-- the retry goroutine sees the cancellation -/
  | quit
  | cancel
  | callShutdown
  /-- `Shutdown` gets the lock, and returns -/
  | shutdown

section

variable {H L : Type} [DecidableEq H] (hasher : Hasher H)

def hasRetryableFailedProbes (s : State H L) : Bool :=
  s.failedProbes.entries.any fun f => !f.2.noRetry

/-- The pollers a call started. -/
def newPollers (before after : State H L) : List (Poller H) :=
  after.startedProbes.filter fun p => !before.startedProbes.any (·.probeId = p.probeId)

/-- A call that left the sensor as `after`. What it started hangs off the run context the
sensor had; a new poller whose probe should not start has no scheduler running. -/
def System.called (sys : System H L) (shouldStart : ProbeConfig → Bool) (after : State H L) :
    System H L :=
  { sys with
    sensor := after
    roots := after.startedProbes.filterMap fun p =>
      match sys.roots.lookup p.probeId with
      | some root => some (p.probeId, root)
      | none =>
        if (newPollers sys.sensor after).any (·.probeId = p.probeId) && shouldStart p.config then
          some (p.probeId, sys.runCtx.getD .background)
        else none
    late :=
      if sys.stopping = .returned then
        sys.late ++ (newPollers sys.sensor after).map (·.probeId)
      else sys.late }

def System.step (sys : System H L) : Action L → Option (System H L)
  | .notify => some { sys with callbacks := sys.callbacks + 1 }
  | .callback w config =>
    if sys.callbacks = 0 then none
    else some ({ sys with callbacks := sys.callbacks - 1 }.called w.shouldStart
      (syncConfiguration hasher w config sys.sensor))
  | .check =>
    if sys.retryLoop = .checking then
      some { sys with
        retryLoop := if hasRetryableFailedProbes sys.sensor then .timing else .asleep }
    else none
  | .wake =>
    if sys.retryLoop = .asleep ∧ sys.sensor.retryWake = true then
      some { sys with
        sensor := { sys.sensor with retryWake := false }
        retryLoop := .checking }
    else none
  | .timer => if sys.retryLoop = .timing then some { sys with retryLoop := .due } else none
  | .retryRound w =>
    if sys.retryLoop = .due then
      some ({ sys with retryLoop := .checking }.called w.shouldStart
        (retryFailedProbesOnce hasher w sys.sensor))
    else none
  | .quit =>
    if sys.cancelled = true ∧ (sys.retryLoop = .asleep ∨ sys.retryLoop = .timing) then
      some { sys with retryLoop := .gone }
    else none
  | .cancel => some { sys with cancelled := true }
  -- the supervisor cancels the lifecycle context first
  | .callShutdown =>
    if sys.cancelled = true ∧ sys.stopping = .notCalled then
      some { sys with stopping := .called }
    else none
  | .shutdown =>
    if sys.stopping = .called then
      some { sys.called (fun _ => false) (Sensor.shutdown sys.sensor) with
        runCtx := none
        stopping := .returned }
    else none

/-- The sensor once `Start` returned. -/
def started (lic : Option L) (w : World L) (config : Configuration) : System H L :=
  let sys : System H L := ⟨init lic, some .lifecycle, [], false, 0, .checking, .notCalled, []⟩
  sys.called w.shouldStart (syncConfiguration hasher w config sys.sensor)

/-- A poller runs: its run context is not cancelled. -/
def System.Running (sys : System H L) (id : H) : Prop :=
  ∃ root, (id, root) ∈ sys.roots ∧ (root = .background ∨ sys.cancelled = false)

/-- Once `Shutdown` returned, no poller runs and none was started. -/
def Quiet (sys : System H L) : Prop :=
  sys.stopping = .returned → sys.late = [] ∧ ∀ id, ¬ sys.Running id

/-- The action has nothing to start if it comes after `Shutdown`. -/
def Idle (sys : System H L) (a : Action L) : Prop :=
  sys.stopping = .returned →
    match a with
    | .callback w config =>
      ∀ b ∈ wanted [] (config.probes.map blankInvalidName),
        ¬ Startable w (revalidate w config sys.sensor.license) b
    | .retryRound w =>
      ∀ f ∈ sys.sensor.failedProbes.entries, f.2.noRetry = false →
        ¬ Startable w sys.sensor.license f.2.config
    | _ => True

variable {hasher}

/-! ## What a start needs -/

variable {b : ProbeConfig} {s : State H L} {w : World L} {sys : System H L}

theorem startProbe_of_startable (hnone : s.startedProbes = []) (h : Startable w s.license b) :
    startProbe hasher w s b = .ok { s with startedProbes := [⟨b.id hasher, b, b.governance⟩] } := by
  unfold startProbe newProbePoller
  rw [hnone, List.any_nil, if_neg (by decide), if_neg h.typed]
  simp only [h.carried, h.authorized, h.constructed, h.starts, if_neg h.typed, Bool.not_true,
    Bool.false_eq_true, if_false, List.nil_append]

/-- A start that succeeds leaves a poller; one that fails was not possible. -/
theorem startProbe_pool (hasher : Hasher H) (w : World L) (s : State H L) (b : ProbeConfig) :
    (∃ s', startProbe hasher w s b = .ok s' ∧ s'.license = s.license ∧ s'.startedProbes ≠ [] ∧
      (s.startedProbes = [] → Startable w s.license b)) ∨
    ∃ e, startProbe hasher w s b = .error e ∧
      (s.startedProbes = [] → ¬ Startable w s.license b) := by
  cases hstart : startProbe hasher w s b with
  | error e =>
    refine .inr ⟨e, rfl, fun hnone hable => ?_⟩
    rw [startProbe_of_startable hnone hable] at hstart
    cases hstart
  | ok s' =>
    refine .inl ⟨s', rfl, ?_⟩
    obtain ⟨rfl, p, hp, -⟩ | ⟨-, hable, rfl⟩ := startProbe_ok hstart
    · exact ⟨rfl, List.ne_nil_of_mem hp, fun hnone => absurd hnone (List.ne_nil_of_mem hp)⟩
    · exact ⟨rfl, List.append_ne_nil_of_right_ne_nil _ (List.cons_ne_nil _ _), fun _ => hable⟩

omit [DecidableEq H] in
/-- The pool stays empty over a loop whose every round keeps the licence, and leaves the pool
empty exactly when it has nothing to start. -/
theorem foldl_pool_iff {α : Type} {f : State H L → α → State H L} (able : Option L → α → Prop)
    (hlicense : ∀ s x, (f s x).license = s.license)
    (hpool : ∀ s x, (f s x).startedProbes = [] ↔ s.startedProbes = [] ∧ ¬ able s.license x) :
    ∀ (xs : List α) (s : State H L),
      (xs.foldl f s).startedProbes = [] ↔ s.startedProbes = [] ∧ ∀ x ∈ xs, ¬ able s.license x := by
  intro xs
  induction xs with
  | nil => intro s; simp
  | cons x xs ih =>
    intro s
    rw [List.foldl_cons, ih, hpool, hlicense, List.forall_mem_cons, and_assoc]

theorem startPending_license (w : World L) (s : State H L) (pending : H × ProbeConfig) :
    (startPending hasher w s pending).license = s.license := by
  unfold startPending
  rcases startProbe_pool hasher w s pending.2 with ⟨s', hstart, hlicense, -⟩ |
    ⟨e, hstart, -⟩
  · rw [hstart]
    exact hlicense
  · rw [hstart]

theorem startPending_pool_iff (w : World L) (s : State H L) (pending : H × ProbeConfig) :
    (startPending hasher w s pending).startedProbes = [] ↔
      s.startedProbes = [] ∧ ¬ Startable w s.license pending.2 := by
  unfold startPending
  rcases startProbe_pool hasher w s pending.2 with ⟨s', hstart, -, hpool, hable⟩ |
    ⟨e, hstart, hunable⟩
  · rw [hstart]
    exact ⟨fun h => absurd h hpool, fun h => absurd (hable h.1) h.2⟩
  · rw [hstart]
    exact ⟨fun h => ⟨h, hunable h⟩, fun h => h.1⟩

theorem retryProbe_license (w : World L) (s : State H L) (id : H) (f : FailedProbe) :
    (retryProbe hasher w s id f).license = s.license := by
  unfold retryProbe
  split
  · rfl
  rcases startProbe_pool hasher w s f.config with ⟨s', hstart, hlicense, -⟩ |
    ⟨e, hstart, -⟩
  · rw [hstart]
    exact hlicense
  · rw [hstart]
    dsimp only
    split <;> rfl

theorem retryProbe_pool_iff (w : World L) (s : State H L) (id : H) (f : FailedProbe) :
    (retryProbe hasher w s id f).startedProbes = [] ↔
      s.startedProbes = [] ∧ ¬ (f.noRetry = false ∧ Startable w s.license f.config) := by
  unfold retryProbe
  by_cases hretry : f.noRetry = true
  · rw [if_pos hretry]
    simp [hretry]
  rw [if_neg hretry]
  have hfalse : f.noRetry = false := Bool.eq_false_iff.mpr hretry
  rcases startProbe_pool hasher w s f.config with ⟨s', hstart, -, hpool, hable⟩ |
    ⟨e, hstart, hunable⟩
  · rw [hstart]
    exact ⟨fun h => absurd h hpool, fun h => absurd ⟨hfalse, hable h.1⟩ h.2⟩
  · have hsame : ∀ s' : State H L, s'.startedProbes = s.startedProbes →
        (s'.startedProbes = [] ↔
          s.startedProbes = [] ∧ ¬ (f.noRetry = false ∧ Startable w s.license f.config)) := by
      intro s' hs'
      rw [hs']
      exact ⟨fun h => ⟨h, fun hable => hunable h hable.2⟩, fun h => h.1⟩
    rw [hstart]
    dsimp only
    split
    · exact hsame _ rfl
    · exact hsame _ rfl

/-- A sync that finds no poller leaves none exactly when no wanted block can be started. -/
theorem syncConfiguration_pool_iff (w : World L) (config : Configuration)
    (hnone : s.startedProbes = []) :
    (syncConfiguration hasher w config s).startedProbes = [] ↔
      ∀ b ∈ wanted [] (config.probes.map blankInvalidName),
        ¬ Startable w (revalidate w config s.license) b := by
  have hplan : PlanSpec hasher _ _ _ := foldl_planBlock (config.probes.map blankInvalidName)
    ⟨[], [], [], s.startedProbes⟩
  have hkeys := hplan.keys
  have hstart := hplan.toStart
  rw [hnone] at hkeys hstart
  have hempty : (planBlocks hasher s.startedProbes config.probes).started = [] := by
    rw [hnone]
    exact List.map_eq_nil_iff.mp hkeys
  have hall : (planBlocks hasher s.startedProbes config.probes).toStart =
      (wanted [] (config.probes.map blankInvalidName)).map fun b => (b.id hasher, b) := by
    unfold planBlocks
    rw [hnone, hstart, List.nil_append]
    congr 1
    exact List.filter_eq_self.mpr fun _ _ => rfl
  unfold syncConfiguration
  rw [foldl_pool_iff (fun lic (pending : H × ProbeConfig) => Startable w lic pending.2)
    (startPending_license w) (startPending_pool_iff w), hempty, hall]
  simp

theorem retryFailedProbesOnce_pool_iff (w : World L) (hnone : s.startedProbes = []) :
    (retryFailedProbesOnce hasher w s).startedProbes = [] ↔
      ∀ f ∈ s.failedProbes.entries, f.2.noRetry = false → ¬ Startable w s.license f.2.config := by
  unfold retryFailedProbesOnce
  rw [foldl_pool_iff
    (fun lic (f : (_ : H) × FailedProbe) =>
      f.2.noRetry = false ∧ Startable w lic f.2.config)
    (fun s f => retryProbe_license w s f.1 f.2) (fun s f => retryProbe_pool_iff w s f.1 f.2)]
  simp only [hnone, true_and, not_and]

/-! ## Runs -/

/-- Before `Shutdown` returned nothing is late, and while nothing is, nothing is started
after it. -/
structure Tidy (sys : System H L) : Prop where
  early : sys.stopping ≠ .returned → sys.late = []
  pool : sys.stopping = .returned → sys.late = [] → sys.sensor.startedProbes = [] ∧ sys.roots = []

omit [DecidableEq H] in
theorem Tidy.quiet (h : Tidy sys) : Quiet sys ↔ sys.late = [] := by
  constructor
  · intro hquiet
    by_cases hstop : sys.stopping = .returned
    · exact (hquiet hstop).1
    · exact h.early hstop
  · intro hlate hstop
    refine ⟨hlate, fun id => ?_⟩
    rintro ⟨root, hmem, -⟩
    rw [(h.pool hstop hlate).2] at hmem
    exact List.not_mem_nil hmem

/-- What a call leaves is late exactly when it comes after `Shutdown` and leaves a poller. -/
theorem Tidy.called (h : Tidy sys) (f : ProbeConfig → Bool) (after : State H L) :
    Tidy (sys.called f after) ∧
      ((sys.called f after).late = [] ↔
        sys.late = [] ∧ (sys.stopping = .returned → after.startedProbes = [])) := by
  by_cases hstop : sys.stopping = .returned
  · have hlate : (sys.called f after).late =
        sys.late ++ (newPollers sys.sensor after).map (·.probeId) := if_pos hstop
    have hiff : (sys.called f after).late = [] ↔
        sys.late = [] ∧ (sys.stopping = .returned → after.startedProbes = []) := by
      rw [hlate, List.append_eq_nil_iff, List.map_eq_nil_iff]
      refine and_congr_right fun hnone => ?_
      have hnew : newPollers sys.sensor after = after.startedProbes := by
        unfold newPollers
        rw [(h.pool hstop hnone).1]
        exact List.filter_eq_self.mpr fun _ _ => rfl
      rw [hnew]
      exact ⟨fun hempty _ => hempty, fun hempty => hempty hstop⟩
    refine ⟨⟨fun hne => absurd hstop hne, fun _ hnone => ?_⟩, hiff⟩
    have hempty := (hiff.mp hnone).2 hstop
    refine ⟨hempty, ?_⟩
    unfold System.called
    rw [hempty]
    rfl
  · have hlate : (sys.called f after).late = sys.late := if_neg hstop
    refine ⟨⟨fun _ => hlate.trans (h.early hstop), fun hret => absurd hret hstop⟩, ?_⟩
    rw [hlate]
    exact ⟨fun hnone => ⟨hnone, fun hret => absurd hret hstop⟩, fun hboth => hboth.1⟩

omit [DecidableEq H] in
/-- An action that touches neither the pool nor the progress of `Shutdown`. -/
theorem Tidy.untouched {sys' : System H L} (h : Tidy sys) {a : Action L} (hidle : Idle sys a)
    (hpool : sys'.sensor.startedProbes = sys.sensor.startedProbes) (hroots : sys'.roots = sys.roots)
    (hlate : sys'.late = sys.late) (hstop : sys'.stopping = .returned ↔ sys.stopping = .returned) :
    Tidy sys' ∧ (sys'.late = [] ↔ sys.late = [] ∧ Idle sys a) := by
  refine ⟨⟨fun hne => ?_, fun hret hnone => ?_⟩, ?_⟩
  · rw [hlate]
    exact h.early fun hret => hne (hstop.mpr hret)
  · rw [hpool, hroots]
    exact h.pool (hstop.mp hret) (hlate ▸ hnone)
  · rw [hlate]
    exact ⟨fun hnone => ⟨hnone, hidle⟩, fun hboth => hboth.1⟩

theorem step_tidy (sys : System H L) (a : Action L) (sys' : System H L) (h : Tidy sys)
    (hstep : sys.step hasher a = some sys') :
    Tidy sys' ∧ (sys'.late = [] ↔ sys.late = [] ∧ Idle sys a) := by
  cases a with
  | callback w config =>
    simp only [System.step] at hstep
    split at hstep
    · cases hstep
    cases hstep
    have hwaiting : Tidy { sys with callbacks := sys.callbacks - 1 } := ⟨h.early, h.pool⟩
    obtain ⟨htidy, hiff⟩ := hwaiting.called w.shouldStart (syncConfiguration hasher w config sys.sensor)
    refine ⟨htidy, hiff.trans (and_congr_right fun hnone => ?_)⟩
    refine forall_congr' fun hret => ?_
    exact syncConfiguration_pool_iff w config (h.pool hret hnone).1
  | retryRound w =>
    simp only [System.step] at hstep
    split at hstep
    · cases hstep
      have hwaiting : Tidy { sys with retryLoop := .checking } := ⟨h.early, h.pool⟩
      obtain ⟨htidy, hiff⟩ := hwaiting.called w.shouldStart (retryFailedProbesOnce hasher w sys.sensor)
      refine ⟨htidy, hiff.trans (and_congr_right fun hnone => ?_)⟩
      refine forall_congr' fun hret => ?_
      exact retryFailedProbesOnce_pool_iff w (h.pool hret hnone).1
    · cases hstep
  | shutdown =>
    simp only [System.step] at hstep
    split at hstep
    next hstop =>
      cases hstep
      have hne : sys.stopping ≠ .returned := by
        rw [hstop]
        decide
      have hlate : (sys.called (fun _ => false) (Sensor.shutdown sys.sensor)).late = [] :=
        (if_neg hne).trans (h.early hne)
      refine ⟨⟨fun hret => absurd rfl hret, fun _ _ => ⟨rfl, rfl⟩⟩, ?_⟩
      exact ⟨fun _ => ⟨h.early hne, fun hret => absurd hret hne⟩, fun _ => hlate⟩
    next => cases hstep
  | callShutdown =>
    simp only [System.step] at hstep
    split at hstep
    next hguard =>
      cases hstep
      refine h.untouched (fun _ => trivial) rfl rfl rfl ?_
      rw [hguard.2]
      exact ⟨fun hret => (nomatch hret), fun hret => (nomatch hret)⟩
    next => cases hstep
  | notify | cancel =>
    simp only [System.step, Option.some.injEq] at hstep
    subst hstep
    exact h.untouched (fun _ => trivial) rfl rfl rfl Iff.rfl
  | check | wake | timer | quit =>
    simp only [System.step, Option.ite_none_right_eq_some, Option.some.injEq] at hstep
    obtain ⟨-, rfl⟩ := hstep
    exact h.untouched (fun _ => trivial) rfl rfl rfl Iff.rfl

/-- **No probe outlives the sensor** in a run exactly when whoever gets the lock after
`Shutdown` has nothing to start: a callback no wanted block, a retry round no failed probe. -/
theorem quiet_iff (lic : Option L) (w : World L) (config : Configuration)
    (actions : List (Action L)) (sys : System H L)
    (hrun : runSchedule (System.step hasher) (started hasher lic w config) actions = some sys) :
    Quiet sys ↔ Admits (System.step hasher) Idle (started hasher lic w config) actions := by
  have hstart : Tidy (started hasher lic w config) :=
    ⟨fun _ => rfl, fun hret => (nomatch hret)⟩
  have hkept : Tidy sys :=
    runSchedule_keeps (fun s a s' hs hs' => (step_tidy s a s' hs hs').1) actions hstart hrun
  rw [hkept.quiet, runSchedule_clean_iff step_tidy actions hstart hrun]
  exact ⟨fun h => h.2, fun h => ⟨rfl, h⟩⟩

end

/-- `openWorld` with the target down. -/
def downWorld : World Unit :=
  { openWorld with construct := fun _ => .error ⟨"connection refused", false⟩ }

/-- The configuration changes as the sensor stops; the callback gets the lock last. -/
def changeDuringStop (w : World Unit) : List (Action Unit) :=
  [.notify, .cancel, .callShutdown, .shutdown, .callback w (tailConfig onePath)]

/-- The timer of a retry fires as the context ends; the round gets the lock last. -/
def timerDuringStop (w : World Unit) : List (Action Unit) :=
  [.check, .cancel, .timer, .callShutdown, .shutdown, .retryRound w]

/-- A callback that finds the target down starts nothing. -/
theorem changeDuringStop_down_quiet : ∃ sys,
    runSchedule (System.step textHasher) (started textHasher none openWorld (tailConfig onePath))
      (changeDuringStop downWorld) = some sys ∧ Quiet sys := by
  refine ⟨_, rfl, (quiet_iff none openWorld (tailConfig onePath) (changeDuringStop downWorld) _
    rfl).mpr ⟨fun _ => trivial, fun _ => trivial, fun _ => trivial, fun _ => trivial, ?_, trivial⟩⟩
  rintro - b - ⟨-, -, -, hconstruct, -⟩
  cases hconstruct

/-- The target is up, or back: the callback and the retry round each leave a poller running
that nothing stops. -/
theorem startedDuringStop_not_quiet :
    (∃ sys, runSchedule (System.step textHasher)
        (started textHasher none openWorld (tailConfig onePath))
        (changeDuringStop openWorld) = some sys ∧ ¬ Quiet sys) ∧
      ∃ sys, runSchedule (System.step textHasher)
        (started textHasher none downWorld (tailConfig onePath))
        (timerDuringStop openWorld) = some sys ∧ ¬ Quiet sys := by
  refine ⟨⟨_, rfl, fun hquiet => ?_⟩, ⟨_, rfl, fun hquiet => ?_⟩⟩
  · exact absurd (hquiet rfl).1 (List.cons_ne_nil _ _)
  · exact absurd (hquiet rfl).1 (List.cons_ne_nil _ _)

end SenhubAgent.Sensor

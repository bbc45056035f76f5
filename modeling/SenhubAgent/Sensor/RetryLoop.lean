import SenhubAgent.Sensor.Stop

/-!
# The retry loop and its wake channel

`retryFailedProbes` sleeps on `retryWake` while no failed probe may be tried again, and runs a timer
while one may. Its test takes the sensor's lock; its sleep does not, so a wake can be taken at any point
of a `SyncConfiguration`. The call is therefore cut into its steps here: `syncBegin` is all up to phase
3, `syncStart` starts one probe and records a failure, `syncWake` is the send that follows a failure
that may be retried, `syncEnd` drops the records the configuration no longer owes. `sync_steps` says
that these steps, with nothing of the loop in between, are `syncConfiguration`.

`no_missed_wake`: the loop never sleeps on an empty channel beside a failure it should retry.

Mirroring notes:
- `retryWake` has room for one wake. A send finds it empty or leaves it full: it is full after both.
- A round holds the lock throughout and touches nothing of the channel, so it is one step.
- `unborn` is the time before `Start` starts the loop, after its own `SyncConfiguration`.
-/

namespace SenhubAgent.Sensor

open SenhubAgent.Lib SenhubAgent.Config

/-- A `SyncConfiguration` in phase 3. -/
structure Syncing (H L : Type) where
  world : World L
  validProbeIds : List H
  toStart : List (H × ProbeConfig)
  /-- a failure was recorded and its wake is still to be sent -/
  wakeDue : Bool

inductive LoopPhase
  | unborn
  /-- before `hasRetryableFailedProbes` -/
  | testing
  /-- at the select on `ctx.Done` and `retryWake` -/
  | parked
  /-- before `time.NewTimer` -/
  | arming
  /-- at the select on `ctx.Done` and the timer -/
  | armed
  /-- the timer fired; before `retryFailedProbesOnce` returns -/
  | round
  | gone
  deriving DecidableEq

structure LoopState (H L : Type) where
  sensor : State H L
  syncing : Option (Syncing H L)
  phase : LoopPhase
  /-- `ctx` has ended -/
  ended : Bool

inductive LoopAction (L : Type)
  | syncBegin (w : World L) (config : Configuration)
  | syncStart
  | syncWake
  | syncEnd
  | shutdown
  | spawn
  | test
  | wake
  | arm
  | fire
  | round (w : World L)
  | quit
  | cancel

section

variable {H L : Type} [DecidableEq H] (hasher : Hasher H)

/-- Phases 1 and 2. -/
def beginSync (w : World L) (config : Configuration) (s : State H L) : State H L × Syncing H L :=
  let plan := planBlocks hasher s.startedProbes config.probes
  ({ s with
      license := revalidate w config s.license
      startedProbes := plan.started.filter (·.probeId ∈ plan.validProbeIds) },
    ⟨w, plan.validProbeIds, plan.toStart, false⟩)

/-- Phase 3, one block, without the wake. -/
def recordStart (w : World L) (s : State H L) (pending : H × ProbeConfig) : State H L × Bool :=
  match startProbe hasher w s pending.2 with
  | .error e =>
    ({ s with
        failedProbes :=
          s.failedProbes.insert pending.1 ⟨pending.2, e.reason, e.credentialsRejected⟩ },
      !e.credentialsRejected)
  | .ok s' => ({ s' with failedProbes := s'.failedProbes.erase pending.1 }, false)

def endSync (validProbeIds : List H) (s : State H L) : State H L :=
  { s with
    failedProbes :=
      eraseWhere (fun id _ => id ∉ validProbeIds) s.failedProbes.keys s.failedProbes }

def loopStep (s : LoopState H L) : LoopAction L → Option (LoopState H L)
  | .syncBegin w config =>
    match s.syncing with
    | some _ => none
    | none =>
      let (sensor, syncing) := beginSync hasher w config s.sensor
      some { s with sensor := sensor, syncing := some syncing }
  | .syncStart =>
    match s.syncing with
    | some ⟨w, ids, pending :: rest, false⟩ =>
      let (sensor, due) := recordStart hasher w s.sensor pending
      some { s with sensor := sensor, syncing := some ⟨w, ids, rest, due⟩ }
    | _ => none
  | .syncWake =>
    match s.syncing with
    | some ⟨w, ids, rest, true⟩ =>
      some { s with
        sensor := { s.sensor with retryWake := true }, syncing := some ⟨w, ids, rest, false⟩ }
    | _ => none
  | .syncEnd =>
    match s.syncing with
    | some ⟨_, ids, [], false⟩ => some { s with sensor := endSync ids s.sensor, syncing := none }
    | _ => none
  | .shutdown =>
    match s.syncing with
    | some _ => none
    | none => some { s with sensor := shutdown s.sensor }
  | .spawn => if s.phase = .unborn then some { s with phase := .testing } else none
  | .test =>
    -- the test waits for the lock
    match s.phase, s.syncing with
    | .testing, none =>
      some { s with phase := if hasRetryableFailedProbes s.sensor then .arming else .parked }
    | _, _ => none
  | .wake =>
    if s.phase = .parked ∧ s.sensor.retryWake = true then
      some { s with sensor := { s.sensor with retryWake := false }, phase := .testing }
    else none
  | .arm => if s.phase = .arming then some { s with phase := .armed } else none
  | .fire => if s.phase = .armed then some { s with phase := .round } else none
  | .round w =>
    match s.phase, s.syncing with
    | .round, none =>
      some { s with sensor := retryFailedProbesOnce hasher w s.sensor, phase := .testing }
    | _, _ => none
  | .quit =>
    if (s.phase = .parked ∨ s.phase = .armed) ∧ s.ended = true then some { s with phase := .gone }
    else none
  | .cancel => some { s with ended := true }

/-- A sensor before `Start`. -/
def LoopState.init (lic : Option L) : LoopState H L := ⟨Sensor.init lic, none, .unborn, false⟩

/-! ## A call run to its end -/

/-- `startPending` is the record, then the wake where one is due. -/
theorem startPending_eq (w : World L) (s : State H L) (pending : H × ProbeConfig) :
    startPending hasher w s pending
      = { (recordStart hasher w s pending).1 with
          retryWake := (recordStart hasher w s pending).1.retryWake ||
            (recordStart hasher w s pending).2 } := by
  unfold startPending recordStart
  cases startProbe hasher w s pending.2 with
  | error e => rfl
  | ok s' => simp only [Bool.or_false]

variable {hasher}

variable {a : LoopAction L} {s s' : LoopState H L}

theorem runSchedule_step {t : LoopState H L} {as : List (LoopAction L)}
    (h : loopStep hasher s a = some t) (hrun : runSchedule (loopStep hasher) t as = some s') :
    runSchedule (loopStep hasher) s (a :: as) = some s' := by
  rw [runSchedule, h]
  exact hrun

/-- The steps that start the probes `toStart`, one after the other. -/
theorem start_steps (hasher : Hasher H) (w : World L) (ids : List H) (toStart : List (H × ProbeConfig))
    (sensor : State H L) (phase : LoopPhase) (ended : Bool) :
    ∃ as, runSchedule (loopStep hasher) ⟨sensor, some ⟨w, ids, toStart, false⟩, phase, ended⟩ as
      = some ⟨endSync ids (toStart.foldl (startPending hasher w) sensor), none, phase, ended⟩ := by
  induction toStart generalizing sensor with
  | nil => exact ⟨[.syncEnd], rfl⟩
  | cons pending rest ih =>
    obtain ⟨as, has⟩ := ih (startPending hasher w sensor pending)
    rw [startPending_eq] at has
    have hstart : loopStep hasher ⟨sensor, some ⟨w, ids, pending :: rest, false⟩, phase, ended⟩
        .syncStart = some ⟨(recordStart hasher w sensor pending).1,
          some ⟨w, ids, rest, (recordStart hasher w sensor pending).2⟩, phase, ended⟩ := rfl
    rw [List.foldl_cons, startPending_eq]
    cases hdue : (recordStart hasher w sensor pending).2 with
    | false =>
      rw [hdue] at hstart has
      rw [Bool.or_false] at has ⊢
      exact ⟨.syncStart :: as, runSchedule_step hstart has⟩
    | true =>
      rw [hdue] at hstart has
      rw [Bool.or_true] at has ⊢
      exact ⟨.syncStart :: .syncWake :: as, runSchedule_step hstart (runSchedule_step rfl has)⟩

/-- **The steps of one call, run to the end, are `syncConfiguration`.** -/
theorem sync_steps (w : World L) (config : Configuration) (s : LoopState H L)
    (hs : s.syncing = none) :
    ∃ as, runSchedule (loopStep hasher) s (.syncBegin w config :: as)
      = some { s with sensor := syncConfiguration hasher w config s.sensor } := by
  obtain ⟨sensor, syncing, phase, ended⟩ := s
  cases hs
  obtain ⟨as, has⟩ := start_steps hasher w
    (planBlocks hasher sensor.startedProbes config.probes).validProbeIds
    (planBlocks hasher sensor.startedProbes config.probes).toStart
    (beginSync hasher w config sensor).1 phase ended
  exact ⟨as, runSchedule_step rfl has⟩

/-! ## No failure is missed -/

/-- A failed probe is recorded that may be tried again. -/
def Retryable (s : State H L) : Prop :=
  ∃ id f, s.failedProbes.lookup id = some f ∧ f.noRetry = false

theorem hasRetryableFailedProbes_iff {s : State H L} :
    hasRetryableFailedProbes s = true ↔ Retryable s := by
  unfold hasRetryableFailedProbes Retryable
  rw [List.any_eq_true]
  constructor
  · rintro ⟨⟨id, f⟩, hmem, hf⟩
    exact ⟨id, f, AList.mem_lookup_iff.mpr hmem, by simpa using hf⟩
  · rintro ⟨id, f, hlookup, hf⟩
    exact ⟨⟨id, f⟩, AList.mem_lookup_iff.mp hlookup, by simpa using hf⟩

/-- The loop takes no step by itself. -/
def LoopPhase.Asleep (p : LoopPhase) : Prop := p = .unborn ∨ p = .parked

/-- The wake of a recorded failure is buffered, or its send is the next step of the call. -/
def WakeSent (s : LoopState H L) : Prop :=
  s.sensor.retryWake = true ∨ ∃ sync ∈ s.syncing, sync.wakeDue = true

/-- The token, the records and where the loop is. -/
structure Watched (s : LoopState H L) : Prop where
  asleep : s.phase.Asleep → Retryable s.sensor → WakeSent s
  gone : s.phase = .gone → s.ended = true

/-- A step that records no failure of its own and takes no wake. -/
theorem Watched.mono (h : Watched s) (hphase : s'.phase = s.phase) (hended : s'.ended = s.ended)
    (hfailed : Retryable s'.sensor → Retryable s.sensor) (hwake : WakeSent s → WakeSent s') :
    Watched s' where
  asleep hasleep hretry := hwake (h.asleep (hphase ▸ hasleep) (hfailed hretry))
  gone hgone := hended.trans (h.gone (hphase.symm.trans hgone))

theorem Retryable.of_erase {s : State H L} {id : H}
    (h : Retryable { s with failedProbes := s.failedProbes.erase id }) : Retryable s := by
  obtain ⟨id', f, hlookup, hf⟩ := h
  exact ⟨id', f, lookup_of_erase hlookup, hf⟩

theorem Retryable.of_endSync {ids : List H} {s : State H L} (h : Retryable (endSync ids s)) :
    Retryable s := by
  obtain ⟨id, f, hlookup, hf⟩ := h
  rw [endSync, lookup_eraseWhere, Option.filter_eq_some_iff] at hlookup
  exact ⟨id, f, hlookup.1, hf⟩

/-- One start: a failure to retry was recorded before, or is recorded now with its wake due. -/
theorem Retryable.of_recordStart {w : World L} {s : State H L} {pending : H × ProbeConfig}
    (h : Retryable (recordStart hasher w s pending).1) :
    Retryable s ∨ (recordStart hasher w s pending).2 = true := by
  unfold recordStart at h ⊢
  split at h
  next e he =>
    obtain ⟨id, f, hlookup, hf⟩ := h
    obtain ⟨-, rfl⟩ | hold := lookup_of_insert hlookup
    · exact .inr (by simpa using hf)
    · exact .inl ⟨id, f, hold, hf⟩
  next s' hs' =>
    obtain ⟨rfl, -⟩ | ⟨-, -, rfl⟩ := startProbe_ok hs'
    · exact .inl h.of_erase
    · exact .inl h.of_erase

theorem recordStart_retryWake (w : World L) (s : State H L) (pending : H × ProbeConfig) :
    (recordStart hasher w s pending).1.retryWake = s.retryWake := by
  unfold recordStart
  split
  next => rfl
  next s' hs' =>
    obtain ⟨rfl, -⟩ | ⟨-, -, rfl⟩ := startProbe_ok hs'
    · rfl
    · rfl

/-- The loop is neither asleep nor gone. -/
theorem Watched.of_awake (hasleep : ¬s.phase.Asleep) (hgone : s.phase ≠ .gone) : Watched s :=
  ⟨fun h => absurd h hasleep, fun h => absurd h hgone⟩

omit [DecidableEq H] in
/-- Outside a call no wake is due: it is buffered. -/
theorem WakeSent.of_syncing (h : WakeSent s) (hsyncing : s.syncing = none) :
    s.sensor.retryWake = true := by
  obtain hwake | ⟨sync, hsync, -⟩ := h
  · exact hwake
  · exact absurd (hsyncing.symm.trans hsync) nofun

theorem loopStep_watched (h : Watched s) (hstep : loopStep hasher s a = some s') : Watched s' := by
  obtain ⟨sensor, syncing, phase, ended⟩ := s
  cases a with
  | syncBegin w config =>
    cases syncing with
    | some => cases hstep
    | none =>
      cases hstep
      exact h.mono rfl rfl id fun hwake => .inl (hwake.of_syncing rfl)
  | syncStart =>
    unfold loopStep at hstep
    dsimp only at hstep
    split at hstep
    next _ w ids pending rest =>
      cases hstep
      refine ⟨fun hasleep hretry => ?_, h.gone⟩
      obtain hbefore | hdue := hretry.of_recordStart
      · -- no wake was due before this step
        obtain hwake | ⟨sync, hsync, hdue⟩ := h.asleep hasleep hbefore
        · exact .inl ((recordStart_retryWake w sensor pending).trans hwake)
        · cases hsync
          cases hdue
      · exact .inr ⟨_, rfl, hdue⟩
    next => cases hstep
  | syncWake =>
    unfold loopStep at hstep
    dsimp only at hstep
    split at hstep
    next =>
      cases hstep
      exact h.mono rfl rfl id fun _ => .inl rfl
    next => cases hstep
  | syncEnd =>
    unfold loopStep at hstep
    dsimp only at hstep
    split at hstep
    next =>
      cases hstep
      refine h.mono rfl rfl Retryable.of_endSync fun hwake => .inl ?_
      obtain hwake | ⟨sync, hsync, hdue⟩ := hwake
      · exact hwake
      · cases hsync
        cases hdue
    next => cases hstep
  | shutdown =>
    cases syncing with
    | some => cases hstep
    | none =>
      cases hstep
      exact h.mono rfl rfl id id
  | spawn | wake | arm | fire =>
    obtain ⟨-, hs'⟩ := Option.ite_none_right_eq_some.mp hstep
    cases hs'
    exact .of_awake nofun nofun
  | test =>
    unfold loopStep at hstep
    dsimp only at hstep
    split at hstep
    next =>
      cases hstep
      by_cases hretry : hasRetryableFailedProbes sensor = true
      · refine .of_awake ?_ ?_ <;> dsimp only <;> rw [if_pos hretry] <;> nofun
      · refine ⟨fun _ hrecorded => absurd (hasRetryableFailedProbes_iff.mpr hrecorded) hretry, ?_⟩
        rw [if_neg hretry]
        nofun
    next => cases hstep
  | round w =>
    unfold loopStep at hstep
    dsimp only at hstep
    split at hstep
    next =>
      cases hstep
      exact .of_awake nofun nofun
    next => cases hstep
  | quit =>
    obtain ⟨⟨-, hended⟩, hs'⟩ := Option.ite_none_right_eq_some.mp hstep
    cases hs'
    exact ⟨nofun, fun _ => hended⟩
  | cancel =>
    cases hstep
    exact ⟨h.asleep, fun _ => rfl⟩

/-- What the loop does beside a failure it should retry: a wake is buffered, the timer runs, or the
loop is on its way to the timer or to its next test. -/
def Attentive (s : LoopState H L) : Prop :=
  s.sensor.retryWake = true ∨ s.phase = .armed ∨
    s.phase = .testing ∨ s.phase = .arming ∨ s.phase = .round

/-- **The retry loop misses no failed probe**, whatever the calls and the loop's steps are
interleaved like. -/
theorem no_missed_wake (lic : Option L) {as : List (LoopAction L)} {s : LoopState H L}
    (hrun : runSchedule (loopStep hasher) (LoopState.init lic) as = some s)
    (hlive : s.ended = false) (hidle : s.syncing = none) (hretry : Retryable s.sensor) :
    Attentive s ∧ (s.phase = .parked → s.sensor.retryWake = true) := by
  have hwatched : Watched s := by
    refine runSchedule_keeps (fun _ _ _ h hstep => loopStep_watched h hstep) as ?_ hrun
    refine ⟨fun _ ⟨id, f, hlookup, _⟩ => ?_, nofun⟩
    exact absurd (hlookup.symm.trans (AList.lookup_empty _)) nofun
  have hsent : s.phase.Asleep → s.sensor.retryWake = true :=
    fun hasleep => (hwatched.asleep hasleep hretry).of_syncing hidle
  refine ⟨?_, fun hparked => hsent (.inr hparked)⟩
  cases hphase : s.phase with
  | unborn => exact .inl (hsent (.inl hphase))
  | parked => exact .inl (hsent (.inr hphase))
  | armed => exact .inr (.inl hphase)
  | testing => exact .inr (.inr (.inl hphase))
  | arming => exact .inr (.inr (.inr (.inl hphase)))
  | round => exact .inr (.inr (.inr (.inr hphase)))
  | gone => exact absurd ((hwatched.gone hphase).symm.trans hlive) nofun

/-- The loop sleeps, and a call fails to start a probe of a type this build does not have. -/
def failedStart : List (LoopAction Unit) :=
  [.spawn, .test, .syncBegin { openWorld with isRegistered := fun _ => false } (tailConfig onePath),
    .syncStart, .syncWake, .syncEnd]

theorem no_missed_wake_failedStart :
    ∃ s, runSchedule (loopStep textHasher) (LoopState.init none) failedStart = some s ∧
      s.phase = .parked ∧ s.sensor.retryWake = true := by
  have hrun : runSchedule (loopStep textHasher) (LoopState.init none) failedStart = some _ := rfl
  refine ⟨_, hrun, rfl, (no_missed_wake none hrun rfl rfl ?_).2 rfl⟩
  refine hasRetryableFailedProbes_iff.mp ?_
  decide +kernel

end

end SenhubAgent.Sensor

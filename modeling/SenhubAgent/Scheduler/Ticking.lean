import SenhubAgent.Scheduler.Lifecycle

/-!
# A scheduler that says started is ticking

The runs of `Scheduler.Lifecycle` whose calls are all `Ok`. The invariant says for each point of a
call which loop may run (`Placed`), and that whoever is in `Execute` holds the mutex (`Excl`).
-/

namespace SenhubAgent.Scheduler

open SenhubAgent.Lib

/-- The calls a scheduler keeps its promise for. `Start` on a started scheduler needs a last start
that went through, a context that has not ended since and a loop that has not panicked; a call on a
stopped one, that the loop a `Shutdown` out of budget left behind has ended. -/
def Ok (s : State) : Action → Prop
  | .callStart _ =>
    if s.started then ∃ i ∈ s.done, ∃ r ∈ s.runs[i]?, r.loop ≠ .gone ∧ s.RunLive r else s.Quiet
  | .callShutdown _ => s.started = true ∨ s.Quiet
  | _ => True

instance (s : State) : (a : Action) → Decidable (Ok s a)
  | .callStart _ => inferInstanceAs (Decidable (if s.started then _ else _))
  | .callShutdown _ => inferInstanceAs (Decidable (_ ∨ _))
  | .hookReturns _ | .callLocks | .callExecuted _ | .setup | .loopDone | .budgetExpired
  | .fire _ | .tick _ | .locks _ | .executed _ _ | .panics _ | .quit _ | .cancel _ => isTrue trivial

/-- `Start` is past its head: the new run is there, and no loop runs yet. -/
structure Starting (s : Fields) (ctx : Context) : Prop where
  started : s.started = true
  done : s.done = none
  quiet : s.Quiet
  run : ∃ i ∈ s.runCtx, ∃ r ∈ s.runs[i]?,
    r.parent = ctx ∧ r.cancelled = false ∧ r.tickerStopped = false

/-- The last `Start` went through: its loop is the only one that may run, and nothing of the
scheduler has stopped it. -/
def Launched (s : Fields) : Prop :=
  ∃ i ∈ s.done, (∀ j, s.RunningAt j → j = i) ∧
    ∃ r ∈ s.runs[i]?, r.loop ≠ .unborn ∧ r.cancelled = false ∧ r.tickerStopped = false

/-- `Shutdown` is past its wait. -/
structure Stopping (s : Fields) (ctx : Context) : Prop where
  started : s.started = false
  done : s.done = none
  quiet : s.Live ctx → s.Quiet

/-- What holds at each point of a call. -/
def Placed (s : Fields) : Call → Prop
  | .idle =>
    (s.started = true → (s.done = none ∧ s.Quiet) ∨ Launched s) ∧ (s.started = false → s.done = none)
  | .startHook ctx | .startLock ctx | .startExecute ctx | .startSetup ctx => Starting s ctx
  | .stopWait _ i => s.started = false ∧ ∀ j, s.RunningAt j → j = i
  | .stopLock ctx | .stopExecute ctx | .stopHook ctx => Stopping s ctx

/-- Whoever is in `Execute` holds the mutex. -/
def Excl (s : State) : Prop := ∀ p, s.Executing p → s.mutex = some p

/-- The invariant of the runs whose calls are all `Ok`. -/
structure Inv (s : State) : Prop where
  excl : Excl s
  one : ∀ i j, s.RunningAt i → s.RunningAt j → i = j
  placed : Placed s.toFields s.call
  ticks : ∀ ctx, s.returned = some (.start ctx true) → s.Live ctx → s.Ticks
  quiet : ∀ ctx ok, s.returned = some (.shutdown ctx ok) → s.Live ctx → s.Quiet

variable {s : State} {i j : Nat} {f : Run → Run} {r : Run} {m : Option Party}

/-- While no call has returned, nothing is said about ticks. -/
theorem Inv.unreturned (hret : s.returned = none) (excl : Excl s)
    (one : ∀ i j, s.RunningAt i → s.RunningAt j → i = j) (placed : Placed s.toFields s.call) :
    Inv s where
  excl := excl
  one := one
  placed := placed
  ticks _ h := absurd (hret.symm.trans h) nofun
  quiet _ _ h := absurd (hret.symm.trans h) nofun

theorem Inv.sound (h : Inv s) : Sound s where
  ticks := h.ticks
  one := h.one
  quiet := h.quiet
  exclusive p q hp hq := by
    have hboth := (h.excl p hp).symm.trans (h.excl q hq)
    exact Option.some.inj hboth

theorem Quiet.not_running {s : Fields} (h : s.Quiet) (i : Nat) : ¬s.RunningAt i :=
  fun ⟨r, hr, hrunning⟩ => h r (List.mem_of_getElem? hr) hrunning

theorem Quiet.one {s : Fields} (h : s.Quiet) (i j : Nat) (hi : s.RunningAt i) (_ : s.RunningAt j) :
    i = j :=
  absurd hi (Quiet.not_running h i)

theorem quiet_of_not_running {s : Fields} (h : ∀ i, ¬s.RunningAt i) : s.Quiet := by
  intro r hr hrunning
  obtain ⟨i, hi⟩ := List.getElem?_of_mem hr
  exact h i ⟨r, hi, hrunning⟩

/-! ## Steps of a loop and of the contexts -/

/-- A step of a loop that runs, from `r` to `r'`. -/
structure LoopStep (r r' : Run) : Prop where
  parent : r'.parent = r.parent
  cancelled : r'.cancelled = r.cancelled
  tickerStopped : r'.tickerStopped = r.tickerStopped
  running : r.Running
  born : r'.loop ≠ .unborn

theorem modifyRun_get {s : Fields} {r' : Run} (h : (s.modifyRun i f).runs[j]? = some r') :
    ∃ r, s.runs[j]? = some r ∧ r' = if i = j then f r else r := by
  rw [Fields.modifyRun, List.getElem?_modify, Option.map_eq_map, Option.map_eq_some_iff] at h
  obtain ⟨r, hr, heq⟩ := h
  exact ⟨r, hr, heq.symm⟩

theorem modifyRun_set {s : Fields} (f : Run → Run) (h : s.runs[j]? = some r) :
    (s.modifyRun i f).runs[j]? = some (if i = j then f r else r) := by
  rw [Fields.modifyRun, List.getElem?_modify, h]
  rfl

section

variable {s : Fields} {i : Nat} {f : Run → Run} {r : Run} (hf : LoopStep r (f r))
  (hr : s.runs[i]? = some r)

include hf hr

theorem LoopStep.runningAt (h : (s.modifyRun i f).RunningAt j) : s.RunningAt j := by
  obtain ⟨r', hr', hrunning⟩ := h
  obtain ⟨r₀, hr₀, rfl⟩ := modifyRun_get hr'
  by_cases hij : i = j
  · exact ⟨r, hij ▸ hr, hf.running⟩
  · rw [if_neg hij] at hrunning
    exact ⟨r₀, hr₀, hrunning⟩

theorem LoopStep.quiet (h : s.Quiet) : (s.modifyRun i f).Quiet :=
  quiet_of_not_running fun j hj => Quiet.not_running h j (hf.runningAt hr hj)

/-- What the step leaves of a run that nothing has stopped. -/
theorem LoopStep.get {r₀ : Run} (hr₀ : s.runs[j]? = some r₀) :
    ∃ r' ∈ (s.modifyRun i f).runs[j]?, r'.parent = r₀.parent ∧ r'.cancelled = r₀.cancelled ∧
      r'.tickerStopped = r₀.tickerStopped ∧ (r₀.loop ≠ .unborn → r'.loop ≠ .unborn) := by
  refine ⟨_, modifyRun_set f hr₀, ?_⟩
  split
  next hij =>
    subst hij
    obtain rfl : r = r₀ := Option.some.inj (hr.symm.trans hr₀)
    exact ⟨hf.parent, hf.cancelled, hf.tickerStopped, fun _ => hf.born⟩
  next => exact ⟨rfl, rfl, rfl, id⟩

theorem LoopStep.starting {ctx : Context} (h : Starting s ctx) :
    Starting (s.modifyRun i f) ctx := by
  obtain ⟨j, hj, r₀, hr₀, hparent, hcancelled, hstopped⟩ := h.run
  obtain ⟨r', hr', hparent', hcancelled', hstopped', -⟩ := hf.get hr hr₀
  exact ⟨h.started, h.done, hf.quiet hr h.quiet, j, hj, r', hr', hparent'.trans hparent,
    hcancelled'.trans hcancelled, hstopped'.trans hstopped⟩

theorem LoopStep.launched (h : Launched s) : Launched (s.modifyRun i f) := by
  obtain ⟨j, hj, honly, r₀, hr₀, hborn, hcancelled, hstopped⟩ := h
  obtain ⟨r', hr', -, hcancelled', hstopped', hborn'⟩ := hf.get hr hr₀
  exact ⟨j, hj, fun k hk => honly k (hf.runningAt hr hk), r', hr', hborn' hborn,
    hcancelled'.trans hcancelled, hstopped'.trans hstopped⟩

theorem LoopStep.placed {c : Call} (h : Placed s c) : Placed (s.modifyRun i f) c := by
  cases c with
  | idle =>
    refine ⟨fun hstarted => ?_, h.2⟩
    obtain ⟨hdone, hquiet⟩ | hlaunched := h.1 hstarted
    · exact .inl ⟨hdone, hf.quiet hr hquiet⟩
    · exact .inr (hf.launched hr hlaunched)
  | startHook | startLock | startExecute | startSetup => exact hf.starting hr h
  | stopWait => exact ⟨h.1, fun j hj => h.2 j (hf.runningAt hr hj)⟩
  | stopLock | stopExecute | stopHook =>
    exact ⟨h.started, h.done, fun hlive => hf.quiet hr (h.quiet hlive)⟩

end

/-- A step of a loop keeps the invariant, given the mutex's part of it. -/
theorem Inv.loopStep (h : Inv s) (hf : LoopStep r (f r)) (hr : s.runs[i]? = some r)
    (hret : s.returned = none) (hexcl : Excl ⟨s.modifyRun i f, m, s.call, s.returned⟩) :
    Inv ⟨s.modifyRun i f, m, s.call, s.returned⟩ :=
  .unreturned hret hexcl (fun j k hj hk => h.one j k (hf.runningAt hr hj) (hf.runningAt hr hk))
    (hf.placed hr h.placed)

/-! ## The mutex -/

/-- `Excl` for the loops alone. -/
def LoopExcl (s : Fields) (m : Option Party) : Prop :=
  ∀ i run, s.runs[i]? = some run → run.loop = .executing → m = some (.loop i)

theorem Excl.loops (h : Excl s) : LoopExcl s.toFields s.mutex :=
  fun i run hrun hexec => h (.loop i) ⟨run, hrun, hexec⟩

theorem LoopExcl.excl (h : LoopExcl s.toFields s.mutex)
    (hcall : s.call.executing = true → s.mutex = some .caller) : Excl s := by
  intro p hp
  cases p with
  | caller => exact hcall hp
  | loop i =>
    obtain ⟨run, hrun, hexec⟩ := hp
    exact h i run hrun hexec

/-- The call returns from `Execute`: it held the mutex, so no loop is in `Execute`. -/
theorem Excl.callUnlocks (h : Excl s) (hcall : s.call.executing = true) :
    LoopExcl s.toFields none := by
  intro i run hrun hexec
  have hboth := (h .caller hcall).symm.trans (h.loops i run hrun hexec)
  cases hboth

theorem LoopExcl.modify {s : Fields} (h : LoopExcl s m)
    (hf : ∀ run, (f run).loop = .executing → run.loop = .executing) :
    LoopExcl (s.modifyRun i f) m := by
  intro j run' hrun' hexec
  obtain ⟨run, hrun, rfl⟩ := modifyRun_get hrun'
  split at hexec
  next => exact h j run hrun (hf run hexec)
  next => exact h j run hrun hexec

theorem Excl.modify (h : Excl s) {r : Option Return}
    (hf : ∀ run, (f run).loop = .executing → run.loop = .executing) :
    Excl ⟨s.modifyRun i f, s.mutex, s.call, r⟩ :=
  LoopExcl.excl (h.loops.modify hf) (h .caller)

section

variable {s : State} {i : Nat} {f : Run → Run} {r : Option Return}

/-- A loop that is in `Execute` after a change to run `i` was there before, or the change put it. -/
theorem executing_modify {p : Party} (hp : State.Executing ⟨s.modifyRun i f, m, s.call, r⟩ p) :
    (p ≠ .loop i ∧ s.Executing p) ∨
      p = .loop i ∧ ∃ run, s.runs[i]? = some run ∧ (f run).loop = .executing := by
  cases p with
  | caller => exact .inl ⟨nofun, hp⟩
  | loop j =>
    obtain ⟨run', hrun', hexec⟩ := hp
    obtain ⟨run, hrun, rfl⟩ := modifyRun_get hrun'
    by_cases hij : i = j
    · subst hij
      rw [if_pos rfl] at hexec
      exact .inr ⟨rfl, run, hrun, hexec⟩
    · rw [if_neg hij] at hexec
      exact .inl ⟨fun heq => hij (Party.loop.inj heq).symm, run, hrun, hexec⟩

/-- `mutex.Lock` returns to a loop. -/
theorem Excl.locks (h : Excl s) (hfree : s.mutex = none) :
    Excl ⟨s.modifyRun i f, some (.loop i), s.call, r⟩ := by
  intro p hp
  obtain ⟨-, hbefore⟩ | ⟨rfl, -⟩ := executing_modify hp
  · exact absurd (h p hbefore) (by rw [hfree]; nofun)
  · rfl

/-- A loop returns from `Execute`: it held the mutex, so no one is in `Execute` any more. -/
theorem Excl.unlocks (h : Excl s) {run : Run} (hrun : s.runs[i]? = some run)
    (hexec : run.loop = .executing) (hf : ∀ run, (f run).loop ≠ .executing) :
    Excl ⟨s.modifyRun i f, none, s.call, r⟩ := by
  intro p hp
  obtain ⟨hne, hbefore⟩ | ⟨-, run', -, hexec'⟩ := executing_modify hp
  · have hboth := (h p hbefore).symm.trans (h (.loop i) ⟨run, hrun, hexec⟩)
    exact absurd (Option.some.inj hboth) hne
  · exact absurd hexec' (hf run')

end

/-! ## Steps of a call -/

section

variable {s : State} {cfg : Config} {ctx : Context}

theorem Inv.clear (h : Inv s) : Inv { s with returned := none } :=
  .unreturned rfl h.excl h.one h.placed

/-- A call moves on to a point where it is not in `Execute`. -/
theorem Inv.moves (hret : s.returned = none) (hl : LoopExcl s.toFields s.mutex)
    (hone : ∀ i j, s.RunningAt i → s.RunningAt j → i = j) {c : Call}
    (hc : c.executing = false) (hplaced : Placed s.toFields c) : Inv { s with call := c } :=
  .unreturned hret (LoopExcl.excl hl fun htrue => absurd (hc.symm.trans htrue) nofun) hone hplaced

/-- `mutex.Lock` returns to a call. -/
theorem Inv.callLocks (h : Inv s) (hret : s.returned = none) (hfree : s.mutex = none) {c : Call}
    (hplaced : Placed s.toFields c) : Inv { s with mutex := some .caller, call := c } := by
  refine .unreturned hret (LoopExcl.excl (fun i run hrun hexec => ?_) fun _ => rfl) h.one hplaced
  have hloop := h.excl.loops i run hrun hexec
  exact absurd (hfree.symm.trans hloop) nofun

/-- A context ends: the runs derived from it end too, and no loop starts. -/
theorem Inv.cancel (h : Inv s) (hret : s.returned = none) {c : Nat} :
    Inv { s with ended := c :: s.ended } := by
  refine .unreturned hret h.excl h.one ?_
  have hplaced := h.placed
  revert hplaced
  cases s.call with
  | idle | stopWait => exact id
  | startHook | startLock | startExecute | startSetup =>
    exact fun hplaced => ⟨hplaced.started, hplaced.done, hplaced.quiet, hplaced.run⟩
  | stopLock | stopExecute | stopHook =>
    refine fun hplaced => ⟨hplaced.started, hplaced.done, fun hlive => hplaced.quiet ?_⟩
    exact fun c' hc' hended => hlive c' hc' (List.mem_cons_of_mem _ hended)

variable {ok : Bool}

theorem Inv.returns_start (hl : LoopExcl s.toFields s.mutex)
    (hone : ∀ i j, s.RunningAt i → s.RunningAt j → i = j) (hplaced : Placed s.toFields .idle)
    (hticks : ok = true → s.Live ctx → s.Ticks) : Inv (s.return (.start ctx ok)) where
  excl := LoopExcl.excl hl nofun
  one := hone
  placed := hplaced
  ticks _ h := by
    cases h
    exact hticks rfl
  quiet := nofun

theorem Inv.returns_shutdown (hl : LoopExcl s.toFields s.mutex)
    (hone : ∀ i j, s.RunningAt i → s.RunningAt j → i = j) (hplaced : Placed s.toFields .idle)
    (hquiet : s.Live ctx → s.Quiet) : Inv (s.return (.shutdown ctx ok)) where
  excl := LoopExcl.excl hl nofun
  one := hone
  placed := hplaced
  ticks := nofun
  quiet _ _ h := by
    cases h
    exact hquiet

/-- A start that fails leaves a started scheduler without a loop. -/
theorem Starting.failed (h : Starting s.toFields ctx) : Placed s.toFields .idle :=
  ⟨fun _ => .inl ⟨h.done, h.quiet⟩, fun hstopped => absurd (h.started.symm.trans hstopped) nofun⟩

theorem Stopping.stopped (h : Stopping s.toFields ctx) : Placed s.toFields .idle :=
  ⟨fun hstarted => absurd (h.started.symm.trans hstarted) nofun, fun _ => h.done⟩

theorem newRun_get {s : Fields} (h : (s.newRun ctx).runs[j]? = some r) :
    s.runs[j]? = some r ∨ r.loop = .unborn := by
  rw [Fields.newRun, List.getElem?_append] at h
  split at h
  next => exact .inl h
  next =>
    have hmem := List.mem_of_getElem? h
    rw [List.mem_singleton] at hmem
    exact .inr (by rw [hmem])

theorem LoopExcl.newRun {s : Fields} (h : LoopExcl s m) : LoopExcl (s.newRun ctx) m := by
  intro i run hrun hexec
  rcases newRun_get hrun with hold | hnew
  · exact h i run hold hexec
  · exact absurd (hexec.symm.trans hnew) nofun

theorem Starting.newRun {s : Fields} (hdone : s.done = none) (hquiet : s.Quiet) :
    Starting (s.newRun ctx) ctx where
  started := rfl
  done := hdone
  quiet := by
    refine quiet_of_not_running ?_
    rintro j ⟨r, hr, hrunning⟩
    rcases newRun_get hr with hold | hnew
    · exact hquiet r (List.mem_of_getElem? hold) hrunning
    · exact hrunning.1 hnew
  run := ⟨s.runs.length, rfl, _, List.getElem?_concat_length, rfl, rfl, rfl⟩

theorem Inv.startExecution (hret : s.returned = none) (hl : LoopExcl s.toFields s.mutex)
    (h : Starting s.toFields ctx) : Inv (s.startExecution cfg ctx) := by
  unfold State.startExecution
  split
  next => exact Inv.moves hret hl (Quiet.one h.quiet) rfl h
  next => exact Inv.moves hret hl (Quiet.one h.quiet) rfl h

theorem Inv.stopHooks (hret : s.returned = none) (hl : LoopExcl s.toFields s.mutex)
    (hone : ∀ i j, s.RunningAt i → s.RunningAt j → i = j) (h : Stopping s.toFields ctx) :
    Inv (s.stopHooks cfg ctx) := by
  unfold State.stopHooks
  split
  next => exact Inv.moves hret hl hone rfl h
  next => exact Inv.returns_shutdown hl hone h.stopped h.quiet

theorem Inv.stopExecution (hret : s.returned = none) (hl : LoopExcl s.toFields s.mutex)
    (hone : ∀ i j, s.RunningAt i → s.RunningAt j → i = j) (hstopped : s.started = false)
    (hquiet : s.Live ctx → s.Quiet) : Inv (s.stopExecution cfg ctx) := by
  unfold State.stopExecution
  split
  next => exact Inv.moves (s := { s with done := none }) hret hl hone rfl ⟨hstopped, rfl, hquiet⟩
  next => exact Inv.stopHooks hret hl hone ⟨hstopped, rfl, hquiet⟩

/-- The head of `Start`. -/
theorem Inv.start (h : Inv s) (hret : s.returned = none) (hcall : s.call = .idle)
    (hok : Ok s (.callStart ctx)) : Inv (s.start cfg ctx) := by
  have hplaced : Placed s.toFields .idle := hcall ▸ h.placed
  unfold State.start
  unfold Ok at hok
  split
  next hstarted =>
    rw [if_pos hstarted] at hok
    obtain ⟨i, hi, r, hr, hgone, hlive⟩ := hok
    refine Inv.returns_start h.excl.loops h.one hplaced fun _ _ => ?_
    -- the last start went through, so its loop is the one in `done`
    obtain ⟨hnone, -⟩ | ⟨j, hj, -, r', hr', hborn, -, hstopped⟩ := hplaced.1 hstarted
    · exact absurd (hnone.symm.trans hi) nofun
    · obtain rfl : i = j := Option.some.inj (hi.symm.trans hj)
      obtain rfl : r = r' := Option.some.inj (hr.symm.trans hr')
      exact ⟨r, List.mem_of_getElem? hr, ⟨hborn, hgone⟩, hstopped, hlive⟩
  next hstopped =>
    rw [if_neg hstopped] at hok
    have hdone : s.done = none := hplaced.2 (Bool.eq_false_iff.mpr hstopped)
    have hstarting : Starting (s.newRun ctx) ctx := Starting.newRun hdone hok
    have hl : LoopExcl (s.newRun ctx) s.mutex := h.excl.loops.newRun
    split
    next =>
      exact Inv.moves (s := { s with toFields := s.newRun ctx }) hret hl
        (Quiet.one hstarting.quiet) rfl hstarting
    next => exact Inv.startExecution (s := { s with toFields := s.newRun ctx }) hret hl hstarting

/-- `setupIntervalCall`: the loop of the new run is the one that runs, and its context is the one
`Start` was called with. -/
theorem Inv.setup (hinterval : 0 < cfg.interval) (hl : LoopExcl s.toFields s.mutex)
    (h : Starting s.toFields ctx) : Inv (s.setupIntervalCall cfg ctx) := by
  obtain ⟨i, hi, r, hr, hparent, hcancelled, hstopped⟩ := h.run
  have hrunCtx : s.runCtx = some i := hi
  rw [State.setupIntervalCall, if_neg (Nat.ne_of_gt hinterval), hrunCtx]
  have hnew := modifyRun_set (i := i) (fun r => { r with loop := .select }) hr
  rw [if_pos rfl] at hnew
  have honly : ∀ j, (s.modifyRun i fun r => { r with loop := .select }).RunningAt j → j = i := by
    rintro j ⟨r', hr', hrunning⟩
    obtain ⟨r₀, hr₀, rfl⟩ := modifyRun_get hr'
    by_cases hij : i = j
    · exact hij.symm
    · rw [if_neg hij] at hrunning
      exact absurd ⟨r₀, hr₀, hrunning⟩ (Quiet.not_running h.quiet j)
  have hl' : LoopExcl (s.modifyRun i fun r => { r with loop := .select }) s.mutex :=
    LoopExcl.modify hl nofun
  refine Inv.returns_start hl' ?_ ?_ ?_
  · intro j k hj hk
    exact (honly j hj).trans (honly k hk).symm
  · exact ⟨fun _ => .inr ⟨i, rfl, honly, _, hnew, nofun, hcancelled, hstopped⟩,
      fun hfalse => absurd (h.started.symm.trans hfalse) nofun⟩
  · intro _ hlive
    exact ⟨_, List.mem_of_getElem? hnew, ⟨nofun, nofun⟩, hstopped, hcancelled, hparent ▸ hlive⟩

/-- `ticker.Stop` and `runCancel` leave the loops where they are. -/
theorem modifyField_get {s : Fields} {field : Option Nat} (hf : ∀ r, (f r).loop = r.loop) {r' : Run}
    (h : (s.modifyField field f).runs[j]? = some r') :
    ∃ r, s.runs[j]? = some r ∧ r'.loop = r.loop := by
  unfold Fields.modifyField at h
  split at h
  next => exact ⟨r', h, rfl⟩
  next =>
    obtain ⟨r, hr, rfl⟩ := modifyRun_get h
    refine ⟨r, hr, ?_⟩
    split
    next => exact hf r
    next => rfl

theorem cancelRun_get {s : Fields} {r' : Run} (h : s.cancelRun.runs[j]? = some r') :
    ∃ r, s.runs[j]? = some r ∧ r'.loop = r.loop := by
  obtain ⟨r₁, h₁, heq₁⟩ :=
    modifyField_get (f := fun r => { r with cancelled := true }) (fun _ => rfl) h
  obtain ⟨r₀, h₀, heq₀⟩ :=
    modifyField_get (f := fun r => { r with tickerStopped := true }) (fun _ => rfl) h₁
  exact ⟨r₀, h₀, heq₁.trans heq₀⟩

theorem cancelRun_runningAt {s : Fields} (h : s.cancelRun.RunningAt j) : s.RunningAt j := by
  obtain ⟨r', hr', hrunning⟩ := h
  obtain ⟨r, hr, heq⟩ := cancelRun_get hr'
  unfold Run.Running at hrunning
  rw [heq] at hrunning
  exact ⟨r, hr, hrunning⟩

theorem LoopExcl.cancelRun {s : Fields} (h : LoopExcl s m) : LoopExcl s.cancelRun m := by
  intro i run' hrun' hexec
  obtain ⟨run, hrun, heq⟩ := cancelRun_get hrun'
  exact h i run hrun (heq.symm.trans hexec)

/-- `Shutdown` up to the wait. -/
theorem Inv.shutdown (h : Inv s) (hret : s.returned = none) (hcall : s.call = .idle)
    (hok : Ok s (.callShutdown ctx)) : Inv (s.shutdown cfg ctx) := by
  have hplaced : Placed s.toFields .idle := hcall ▸ h.placed
  have hl := h.excl.loops.cancelRun
  have hone : ∀ i j, s.cancelRun.RunningAt i → s.cancelRun.RunningAt j → i = j :=
    fun i j hi hj => h.one i j (cancelRun_runningAt hi) (cancelRun_runningAt hj)
  unfold State.shutdown
  cases hstarted : s.started with
  | false =>
    have hquiet : s.Quiet := hok.resolve_left (by rw [hstarted]; nofun)
    exact Inv.returns_shutdown h.excl.loops h.one hplaced fun _ => hquiet
  | true =>
    have hcase := hplaced.1 hstarted
    rw [Bool.not_true, if_neg Bool.false_ne_true]
    split
    next hnone =>
      have hquiet : s.Quiet := by
        obtain ⟨-, hquiet⟩ | ⟨i, hi, -⟩ := hcase
        · exact hquiet
        · exact absurd (hnone.symm.trans hi) nofun
      refine Inv.stopExecution (s := { s with toFields := s.cancelRun }) hret hl hone rfl fun _ => ?_
      exact quiet_of_not_running fun j hj => Quiet.not_running hquiet j (cancelRun_runningAt hj)
    next i hsome =>
      have honly : ∀ j, s.RunningAt j → j = i := by
        obtain ⟨hnone, -⟩ | ⟨k, hk, honly, -⟩ := hcase
        · exact absurd (hnone.symm.trans hsome) nofun
        · obtain rfl : k = i := Option.some.inj (hk.symm.trans hsome)
          exact honly
      exact Inv.moves (s := { s with toFields := s.cancelRun }) hret hl hone rfl
        ⟨rfl, fun j hj => honly j (cancelRun_runningAt hj)⟩

end

/-! ## Runs -/

theorem atRun_eq_some {s' t : State} {guard : Run → Prop} [DecidablePred guard]
    (h : s.atRun i guard s' = some t) : ∃ r, s.runs[i]? = some r ∧ guard r ∧ t = s' := by
  unfold State.atRun at h
  split at h
  next r hr =>
    obtain ⟨hguard, ht⟩ := Option.ite_none_right_eq_some.mp h
    exact ⟨r, hr, hguard, (Option.some.inj ht).symm⟩
  next => cases h

theorem Run.running_of_loop {phase : LoopPhase} (h : r.loop = phase)
    (hphase : phase ≠ .unborn ∧ phase ≠ .gone) : r.Running := by
  unfold Run.Running
  rwa [h]

theorem LoopStep.onTick (maxRetries : Int) (h : r.loop = .select) :
    LoopStep r (r.onTick maxRetries) := by
  have hrunning := Run.running_of_loop h ⟨nofun, nofun⟩
  unfold Run.onTick
  split
  next => exact ⟨rfl, rfl, rfl, hrunning, hrunning.1⟩
  next => exact ⟨rfl, rfl, rfl, hrunning, nofun⟩

theorem onTick_not_executing (maxRetries : Int) (r : Run)
    (h : (r.onTick maxRetries).loop = .executing) : r.loop = .executing := by
  unfold Run.onTick at h
  split at h
  next => exact h
  next => cases h

theorem Inv.act {cfg : Config} {s' : State} {a : Action} (hinterval : 0 < cfg.interval) (h : Inv s)
    (hret : s.returned = none) (hok : Ok s a) (hact : act cfg s a = some s') : Inv s' := by
  have hplaced := h.placed
  cases a with
  | callStart ctx =>
    obtain ⟨hcall, hs'⟩ := Option.ite_none_right_eq_some.mp hact
    cases hs'
    exact h.start hret hcall hok
  | callShutdown ctx =>
    obtain ⟨hcall, hs'⟩ := Option.ite_none_right_eq_some.mp hact
    cases hs'
    exact h.shutdown hret hcall hok
  | hookReturns ok =>
    unfold Scheduler.act at hact
    dsimp only at hact
    split at hact <;> cases hact
    next ctx hcall =>
      rw [hcall] at hplaced
      split
      next => exact Inv.startExecution hret h.excl.loops hplaced
      next => exact Inv.returns_start h.excl.loops h.one hplaced.failed nofun
    next ctx hcall =>
      rw [hcall] at hplaced
      exact Inv.returns_shutdown h.excl.loops h.one hplaced.stopped hplaced.quiet
  | callLocks =>
    obtain ⟨hfree, hact⟩ := Option.ite_none_right_eq_some.mp hact
    split at hact <;> cases hact
    all_goals
      next ctx hcall =>
        rw [hcall] at hplaced
        exact h.callLocks hret hfree hplaced
  | callExecuted ok =>
    unfold Scheduler.act at hact
    dsimp only at hact
    split at hact <;> cases hact
    next ctx hcall =>
      rw [hcall] at hplaced
      have hl := h.excl.callUnlocks (by rw [hcall]; rfl)
      split
      next =>
        exact Inv.returns_start (s := { s with mutex := none }) hl h.one hplaced.failed nofun
      next => exact Inv.moves (s := { s with mutex := none }) hret hl h.one rfl hplaced
    next ctx hcall =>
      rw [hcall] at hplaced
      have hl := h.excl.callUnlocks (by rw [hcall]; rfl)
      split
      next => exact Inv.stopHooks (s := { s with mutex := none }) hret hl h.one hplaced
      next =>
        exact Inv.returns_shutdown (s := { s with mutex := none }) hl h.one hplaced.stopped
          hplaced.quiet
  | setup =>
    unfold Scheduler.act at hact
    dsimp only at hact
    split at hact <;> cases hact
    next ctx hcall =>
      rw [hcall] at hplaced
      exact Inv.setup hinterval h.excl.loops hplaced
  | loopDone =>
    unfold Scheduler.act at hact
    dsimp only at hact
    split at hact
    next ctx i hcall =>
      rw [hcall] at hplaced
      obtain ⟨r, hr, hgone, rfl⟩ := atRun_eq_some hact
      refine Inv.stopExecution hret h.excl.loops h.one hplaced.1 fun _ => ?_
      -- the loop waited for is the only one that could run
      refine quiet_of_not_running fun j hj => ?_
      obtain ⟨r', hr', hrunning⟩ := hj
      obtain rfl := hplaced.2 j ⟨r', hr', hrunning⟩
      obtain rfl : r = r' := Option.some.inj (hr.symm.trans hr')
      exact hrunning.2 hgone
    next => cases hact
  | budgetExpired =>
    unfold Scheduler.act at hact
    dsimp only at hact
    split at hact
    next ctx i hcall =>
      rw [hcall] at hplaced
      obtain ⟨hexpired, hs'⟩ := Option.ite_none_left_eq_some.mp hact
      cases hs'
      exact Inv.stopExecution hret h.excl.loops h.one hplaced.1 fun hlive => absurd hlive hexpired
    next => cases hact
  | fire i =>
    obtain ⟨r, hr, ⟨hrunning, -⟩, rfl⟩ := atRun_eq_some hact
    exact h.loopStep ⟨rfl, rfl, rfl, hrunning, hrunning.1⟩ hr hret (h.excl.modify fun _ => id)
  | tick i =>
    obtain ⟨r, hr, ⟨hselect, -⟩, rfl⟩ := atRun_eq_some hact
    exact h.loopStep (.onTick cfg.maxRetries hselect) hr hret
      (h.excl.modify (onTick_not_executing cfg.maxRetries))
  | locks i =>
    obtain ⟨r, hr, ⟨hcalling, hfree⟩, rfl⟩ := atRun_eq_some hact
    have hrunning := Run.running_of_loop hcalling ⟨nofun, nofun⟩
    exact h.loopStep (f := fun r => { r with loop := .executing })
      ⟨rfl, rfl, rfl, hrunning, nofun⟩ hr hret (h.excl.locks hfree)
  | executed i ok =>
    obtain ⟨r, hr, hexec, rfl⟩ := atRun_eq_some hact
    have hrunning := Run.running_of_loop hexec ⟨nofun, nofun⟩
    exact h.loopStep
      (f := fun r => { r with loop := .select, counters := r.counters.tick cfg.maxRetries ok })
      ⟨rfl, rfl, rfl, hrunning, nofun⟩ hr hret (h.excl.unlocks hr hexec nofun)
  | panics i =>
    obtain ⟨r, hr, hexec, rfl⟩ := atRun_eq_some hact
    have hrunning := Run.running_of_loop hexec ⟨nofun, nofun⟩
    exact h.loopStep (f := fun r => { r with loop := .gone })
      ⟨rfl, rfl, rfl, hrunning, nofun⟩ hr hret (h.excl.unlocks hr hexec nofun)
  | quit i =>
    obtain ⟨r, hr, ⟨hselect, -⟩, rfl⟩ := atRun_eq_some hact
    have hrunning := Run.running_of_loop hselect ⟨nofun, nofun⟩
    exact h.loopStep (f := fun r => { r with loop := .gone })
      ⟨rfl, rfl, rfl, hrunning, nofun⟩ hr hret (h.excl.modify nofun)
  | cancel c =>
    cases hact
    exact h.cancel hret

theorem inv_new (ended : List Nat) : Inv (State.new ended) where
  excl p hp := by
    cases p with
    | caller => cases hp
    | loop i =>
      obtain ⟨run, hrun, -⟩ := hp
      cases hrun
  one _ _ hi := by
    obtain ⟨run, hrun, -⟩ := hi
    cases hrun
  placed := ⟨nofun, fun _ => rfl⟩
  ticks := nofun
  quiet := nofun

/-- **A scheduler that says started is ticking**, in every state of every run whose calls are `Ok`. -/
theorem started_ticks {cfg : Config} (hinterval : 0 < cfg.interval) {ended : List Nat}
    {as : List Action} {s : State} (hok : Admits (step cfg) Ok (State.new ended) as)
    (hrun : runSchedule (step cfg) (State.new ended) as = some s) : Sound s := by
  have hstep : ∀ s a s', Inv s → Ok s a → step cfg s a = some s' → Inv s' := by
    intro s a s' h hok hact
    have hok' : Ok { s with returned := none } a := by
      cases a with
      | callStart | callShutdown => exact hok
      | _ => trivial
    exact h.clear.act hinterval rfl hok' hact
  exact (runSchedule_inv hstep as (inv_new ended) hok hrun).sound

/-- A start whose first call fails, a tick, a stop and another start. -/
theorem started_ticks_restart :
    let cfg : Config := ⟨true, true, false, 1, 3, true, true⟩
    let as : List Action :=
      [.callStart none, .hookReturns true, .callLocks, .callExecuted false, .setup,
        .fire 0, .tick 0, .callShutdown (some 1), .locks 0, .executed 0 true, .quit 0, .loopDone,
        .callLocks, .callExecuted true, .hookReturns true,
        .callStart (some 2), .hookReturns true, .callLocks, .callExecuted true, .setup]
    ∃ s, runSchedule (step cfg) (State.new []) as = some s ∧
      s.returned = some (.start (some 2) true) ∧ Sound s := by
  intro cfg as
  refine ⟨_, rfl, rfl, ?_⟩
  have hok : Admits (step cfg) Ok (State.new []) as := by decide +kernel
  exact started_ticks Nat.one_pos hok rfl

end SenhubAgent.Scheduler

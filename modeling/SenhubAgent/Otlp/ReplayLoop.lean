import SenhubAgent.Lib.Schedule

/-!
# The retry clock of the logs replayer

`logsReplayer.loop` waits in a `select` on a wake and a tick. While it owns the
retry clock (`probing`) a producer that queued a batch does not wake it; when it
is idle, `kick` leaves a wake in a channel of capacity one. This file models the
loop with every read and write of shared state as an action of its own, together
with any number of producers and of drains by others.

The law is that queued records are never left to an idle clock: `Attended`. It
has one hole. The loop reads `pending()`, and then stores `probing = false` as a
separate step; a producer that queues a batch and reads `probing` between the two
sees true and goes away, and the loop goes to sleep for `maxDelay`.
`loopRun_attended` is the law for every run in which that does not happen.

Mirroring notes:
- Producers are anonymous: the state counts those that queued a batch and have
  not read `probing` yet (`kicks`) and those that read false and have not tried
  the send yet (`sends`).
- `drain` is anything that takes records off the queue: this loop's replay, the
  boot replay, the recovery callback, the age sweep, an eviction.
- `quit` is not modelled: a stopped loop retries nothing.
-/

namespace SenhubAgent.Otlp

open SenhubAgent.Lib

/-- Which branch armed the tick. -/
inductive TickKind where
  | backoff | idle
  deriving DecidableEq, Repr

structure Tick where
  delay : Int
  kind : TickKind
  deriving DecidableEq, Repr

/-- Where the loop is. -/
inductive LoopPC where
  /-- before the first read of `pending()` -/
  | boot
  /-- it read records; about to store `probing` -/
  | bootStore
  /-- about to arm the tick -/
  | arm (kind : TickKind)
  /-- in the `select` -/
  | select
  /-- took a wake; about to swap `probing` -/
  | woken
  /-- took the tick; the replay runs -/
  | replaying
  /-- the replay returned; about to read `pending()` -/
  | replayed (failed : Bool)
  /-- it read records; about to store `probing = true` -/
  | keepProbing (failed : Bool)
  /-- it read none; about to store `probing = false` -/
  | stopProbing
  deriving DecidableEq, Repr

structure LoopState where
  records : Nat
  probing : Bool := false
  wake : Bool := false
  tick : Option Tick := none
  delay : Int := 0
  pc : LoopPC := .boot
  kicks : Nat := 0
  sends : Nat := 0
  deriving DecidableEq, Repr

inductive LoopAction where
  /-- a producer queues a batch of `n + 1` records -/
  | enqueue (n : Nat)
  /-- `kick` reads `probing` -/
  | kickRead
  /-- `kick` tries the send on `wake` -/
  | kickSend
  /-- `n` records leave the queue -/
  | drain (n : Nat)
  /-- the loop receives from `wake` -/
  | takeWake
  /-- the loop receives from `tick` -/
  | takeTick
  /-- the loop's replay returns -/
  | replayDone (failed : Bool)
  /-- the loop's next read or write -/
  | advance
  deriving DecidableEq, Repr

structure ReplayDelays where
  firstDelay : Int
  maxDelay : Int

def nextReplayDelay (cur first max : Int) (failed : Bool) : Int :=
  if failed then (if cur * 2 > max then max else cur * 2) else first

/-- The loop's next read or write, where it has only one. -/
def LoopState.advance (d : ReplayDelays) (s : LoopState) : Option LoopState :=
  match s.pc with
  | .boot =>
    if s.records > 0 then some { s with delay := d.firstDelay, pc := .bootStore }
    else some { s with delay := d.maxDelay, pc := .arm .idle }
  | .bootStore => some { s with probing := true, pc := .arm .backoff }
  | .arm kind => some { s with tick := some ⟨s.delay, kind⟩, pc := .select }
  | .woken =>
    if s.probing then some { s with pc := .select }
    else some { s with probing := true, delay := d.firstDelay, pc := .arm .backoff }
  | .replayed failed =>
    if s.records > 0 then some { s with pc := .keepProbing failed }
    else some { s with pc := .stopProbing }
  | .keepProbing failed =>
    some { s with
      probing := true
      delay := nextReplayDelay s.delay d.firstDelay d.maxDelay failed
      pc := .arm .backoff }
  | .stopProbing => some { s with probing := false, delay := d.maxDelay, pc := .arm .idle }
  | .select => none
  | .replaying => none

def loopStep (d : ReplayDelays) (s : LoopState) : LoopAction → Option LoopState
  | .enqueue n => some { s with records := s.records + (n + 1), kicks := s.kicks + 1 }
  | .kickRead =>
    if s.kicks = 0 then none
    else if s.probing then some { s with kicks := s.kicks - 1 }
    else some { s with kicks := s.kicks - 1, sends := s.sends + 1 }
  | .kickSend =>
    if s.sends = 0 then none
    else some { s with sends := s.sends - 1, wake := true }
  | .drain n => some { s with records := s.records - n }
  | .takeWake =>
    if s.pc = .select ∧ s.wake = true then some { s with wake := false, pc := .woken } else none
  | .takeTick =>
    if s.pc = .select ∧ s.tick.isSome = true then some { s with tick := none, pc := .replaying }
    else none
  | .replayDone failed =>
    if s.pc = .replaying then some { s with pc := .replayed failed } else none
  | .advance => s.advance d

/-- No producer is between its enqueue and the end of its kick. -/
def LoopState.Settled (s : LoopState) : Prop := s.kicks = 0 ∧ s.sends = 0

/-- The pending tick was armed by the backoff. -/
def LoopState.BackingOff (s : LoopState) : Prop := ∃ delay, s.tick = some ⟨delay, .backoff⟩

/-- Queued records have someone to retry them: the backoff clock, a buffered
wake, or the loop itself before it arms its tick again. -/
def LoopState.Attended (s : LoopState) : Prop :=
  s.Settled → 0 < s.records → (s.probing = true ∧ s.BackingOff) ∨ s.wake = true ∨ s.pc ≠ .select

/-- The last kick under way does not see `probing` in the gap between the read of
an empty queue and the store that follows it, with records queued and no wake
buffered. -/
def kickSeen (s : LoopState) : LoopAction → Bool
  | .kickRead =>
    !(s.pc == .stopProbing && s.probing && 0 < s.records && s.kicks == 1 && s.sends == 0 && !s.wake)
  | _ => true

/-! ## The invariant -/

/-- Queued records have a producer under way or a wake buffered. -/
def LoopState.Covered (s : LoopState) : Prop :=
  0 < s.records → 0 < s.kicks ∨ 0 < s.sends ∨ s.wake = true

/-- What holds at each place of the loop. -/
def LoopState.Inv (s : LoopState) : Prop :=
  match s.pc with
  | .boot => s.probing = false
  | .bootStore => s.probing = false
  | .arm .idle => s.probing = false ∧ s.Covered
  | .arm .backoff => s.probing = true
  | .select => (s.probing = true → s.BackingOff) ∧ (s.probing = false → s.Covered)
  | .woken => s.probing = true → s.BackingOff
  | .stopProbing => s.Covered
  | _ => True

variable {s s' : LoopState} {d : ReplayDelays}

theorem LoopState.Inv.attended (h : s.Inv) : s.Attended := by
  rintro ⟨hkicks, hsends⟩ hrec
  by_cases hpc : s.pc = .select
  · simp only [LoopState.Inv, hpc] at h
    cases hprob : s.probing with
    | true => exact Or.inl ⟨rfl, h.1 hprob⟩
    | false =>
      rcases h.2 hprob hrec with hk | hs | hw
      · omega
      · omega
      · exact Or.inr (Or.inl hw)
  · exact Or.inr (Or.inr hpc)

/-- Producers and drains leave the loop's own fields alone; they keep the
invariant if they keep the records covered wherever the loop counts on it. -/
theorem LoopState.Inv.others (h : s.Inv) (hpc : s'.pc = s.pc) (hprob : s'.probing = s.probing)
    (htick : s'.tick = s.tick)
    (hcov : (s.probing = true → s.pc = .stopProbing) → s.Covered → s'.Covered) : s'.Inv := by
  have hback : s.BackingOff → s'.BackingOff := fun ⟨d, hd⟩ => ⟨d, htick.trans hd⟩
  unfold LoopState.Inv at h ⊢
  rw [hpc, hprob]
  split at h
  next => exact h
  next => exact h
  next => exact ⟨h.1, hcov (fun hp => by rw [h.1] at hp; cases hp) h.2⟩
  next => exact h
  next => exact ⟨fun hp => hback (h.1 hp),
      fun hp => hcov (fun hp' => by rw [hp] at hp'; cases hp') (h.2 hp)⟩
  next => exact fun hp => hback (h hp)
  next hstop => exact hcov (fun _ => hstop) h
  next => trivial

theorem enqueue_keeps {n : Nat} (h : s.Inv) (hstep : loopStep d s (.enqueue n) = some s') :
    s'.Inv := by
  cases hstep
  exact h.others rfl rfl rfl fun _ _ _ => Or.inl (Nat.succ_pos _)

/-- The one step that can leave records without anyone to see to them. -/
theorem kickRead_keeps (h : s.Inv) (hok : kickSeen s .kickRead = true)
    (hstep : loopStep d s .kickRead = some s') : s'.Inv := by
  simp only [loopStep] at hstep
  split at hstep
  next => cases hstep
  next hk =>
    split at hstep
    next hprob =>
      cases hstep
      refine h.others rfl rfl rfl fun hstop hcov (hrec : 0 < s.records) => ?_
      have hpc := hstop hprob
      show 0 < s.kicks - 1 ∨ 0 < s.sends ∨ s.wake = true
      cases hw : s.wake with
      | true => exact Or.inr (Or.inr rfl)
      | false =>
        -- without a wake, the side condition leaves another producer under way
        simp only [kickSeen, hpc, hprob, hw, beq_self_eq_true, Bool.true_and, Bool.not_false,
          Bool.and_true, Bool.not_eq_true', Bool.and_eq_false_iff, decide_eq_false_iff_not,
          beq_eq_false_iff_ne] at hok
        omega
    next =>
      cases hstep
      exact h.others rfl rfl rfl fun _ _ _ => Or.inr (Or.inl (Nat.succ_pos _))

theorem kickSend_keeps (h : s.Inv) (hstep : loopStep d s .kickSend = some s') : s'.Inv := by
  simp only [loopStep] at hstep
  split at hstep
  next => cases hstep
  next =>
    cases hstep
    exact h.others rfl rfl rfl fun _ _ _ => Or.inr (Or.inr rfl)

theorem drain_keeps {n : Nat} (h : s.Inv) (hstep : loopStep d s (.drain n) = some s') : s'.Inv := by
  cases hstep
  exact h.others rfl rfl rfl fun _ hcov hrec => hcov (Nat.lt_of_lt_of_le hrec (Nat.sub_le ..))

/-- The loop's own reads and writes, one case per place. -/
theorem advance_keeps (h : s.Inv) (hstep : s.advance d = some s') : s'.Inv := by
  unfold LoopState.advance at hstep
  unfold LoopState.Inv at h
  split at hstep
  next hpc =>
    -- boot: an idle clock is armed on an empty queue only
    simp only [hpc] at h
    split at hstep
    next => cases hstep; exact h
    next hrec => cases hstep; exact ⟨h, fun hr => absurd hr hrec⟩
  next => cases hstep; rfl
  next kind hpc =>
    simp only [hpc] at h
    cases hstep
    cases kind with
    | idle =>
      refine ⟨fun (hp : s.probing = true) => ?_, fun _ => h.2⟩
      rw [h.1] at hp
      cases hp
    | backoff =>
      exact ⟨fun _ => ⟨s.delay, rfl⟩, fun (hp : s.probing = false) => by rw [h] at hp; cases hp⟩
  next hpc =>
    simp only [hpc] at h
    split at hstep
    next hprob =>
      cases hstep
      exact ⟨h, fun (hp : s.probing = false) => by rw [hprob] at hp; cases hp⟩
    next => cases hstep; rfl
  next failed hpc =>
    split at hstep
    next => cases hstep; trivial
    next hrec => cases hstep; exact fun hr => absurd hr hrec
  next => cases hstep; rfl
  next hpc =>
    simp only [hpc] at h
    cases hstep
    exact ⟨rfl, h⟩
  next => cases hstep
  next => cases hstep

/-- **Every step with its kick seen keeps the invariant.** -/
theorem loopStep_keeps (d : ReplayDelays) (s : LoopState) (a : LoopAction) (s' : LoopState)
    (h : s.Inv) (hok : kickSeen s a = true) (hstep : loopStep d s a = some s') : s'.Inv := by
  cases a with
  | enqueue n => exact enqueue_keeps h hstep
  | kickRead => exact kickRead_keeps h hok hstep
  | kickSend => exact kickSend_keeps h hstep
  | drain n => exact drain_keeps h hstep
  | advance => exact advance_keeps h hstep
  | takeWake =>
    simp only [loopStep] at hstep
    split at hstep
    next hpc =>
      cases hstep
      simp only [LoopState.Inv, hpc.1] at h
      exact h.1
    next => cases hstep
  | takeTick | replayDone failed =>
    simp only [loopStep] at hstep
    split at hstep
    next => cases hstep; trivial
    next => cases hstep
/-! ## Whole runs -/

/-- **No lost wake-up.** From any queue content, in every run in which no kick
falls into the gap, queued records are attended to in every state. -/
theorem loopRun_attended (d : ReplayDelays) (records : Nat) (actions : List LoopAction)
    (s : LoopState)
    (hok : Admits (loopStep d) (fun s a => kickSeen s a = true) { records := records } actions)
    (hrun : runSchedule (loopStep d) { records := records } actions = some s) : s.Attended := by
  have hstart : LoopState.Inv { records := records } := rfl
  exact (runSchedule_inv (loopStep_keeps d) actions hstart hok hrun).attended

/-- An empty queue at boot, a batch queued and kicked while the clock is idle, and
the loop woken by it. -/
def wokenRun : List LoopAction :=
  [.advance, .advance, .enqueue 2, .kickRead, .kickSend, .takeWake, .advance, .advance]

theorem loopRun_attended_wokenRun :
    ∃ s, runSchedule (loopStep ⟨5, 300⟩) { records := 0 } wokenRun = some s ∧ s.pc = .select ∧
      s.records = 3 ∧ s.Attended := by
  obtain ⟨s, hs⟩ := Option.isSome_iff_exists.mp
    (by decide : (runSchedule (loopStep ⟨5, 300⟩) { records := 0 } wokenRun).isSome = true)
  have hfields : (runSchedule (loopStep ⟨5, 300⟩) { records := 0 } wokenRun).map
      (fun s => (s.pc, s.records)) = some (.select, 3) := by decide
  rw [hs] at hfields
  simp only [Option.map_some, Option.some.injEq, Prod.mk.injEq] at hfields
  exact ⟨s, hs, hfields.1, hfields.2, loopRun_attended ⟨5, 300⟩ 0 wokenRun s (by decide) hs⟩

/-- One record at boot is replayed; a batch is queued between the read of the
empty queue and the store of `probing`. -/
def lostRun : List LoopAction :=
  [.advance, .advance, .advance, .takeTick, .drain 1, .replayDone false, .advance,
    .enqueue 2, .kickRead, .advance, .advance]

/-- Three records wait for an idle clock: nothing is buffered, no producer is
under way, the loop is in its `select`. -/
theorem lostRun_unattended :
    ∃ s, runSchedule (loopStep ⟨5, 300⟩) { records := 1 } lostRun = some s ∧
      s.records = 3 ∧ s.kicks = 0 ∧ s.sends = 0 ∧ s.wake = false ∧ s.probing = false ∧
      s.tick = some ⟨300, .idle⟩ ∧ s.pc = .select ∧ ¬ s.Attended := by
  refine ⟨_, rfl, rfl, rfl, rfl, rfl, rfl, rfl, rfl, fun h => ?_⟩
  rcases h ⟨rfl, rfl⟩ (by decide) with ⟨hp, _⟩ | hw | hpc
  · cases hp
  · cases hw
  · exact hpc rfl

end SenhubAgent.Otlp

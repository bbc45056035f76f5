import Mathlib.Data.List.Perm.Subperm
import SenhubAgent.DataStore.EventProgress

/-!
# No event is delivered twice

An event that came in moves between its `enqueue`, the buffer, the syncs in progress and the retry
backlog. Each of these may lose it and none copies it (`delivered_at_most_once`), also while the
triggered sync and the final one of `Shutdown` run at once. The step lemmas count the events of an
arbitrary kind `p`, so that sums are left to compare.
-/

namespace SenhubAgent.DataStore.EventOutput

open SenhubAgent.Lib

section

variable {V : Type}

/-- What a call has yet to send. -/
@[simp] def Call.events : Call V → List (EventDataPoint V)
  | .offer evt _ | .evict evt | .resend evt => [evt]
  | .weigh _ | .check _ | .trigger => []

/-- What a sync has taken and neither delivered, dropped nor given back. -/
@[simp] def Sync.events : Sync V → List (EventDataPoint V)
  | .begun => []
  | .loop events _ | .receive events _ | .collected events _ | .sending events _ => events
  | .putBack events _ evt => events ++ [evt]
  | .refused events | .undelivered events => events

@[simp] def Work.events (w : Work V) : List (EventDataPoint V) :=
  w.delivered ++ w.failedEvents.items ++ w.buffer.buf

/-- The events that are delivered or on their way. -/
def System.events (sys : System V) : List (EventDataPoint V) :=
  sys.work.events ++ sys.calls.flatMap Call.events ++ sys.syncs.flatMap Sync.events

/-- What an action brings in. -/
def Action.events : Action V → List (EventDataPoint V)
  | .enqueue evt => [evt]
  | _ => []

variable {st : Strategy V} {w w' : Work V} {sys sys' : System V} (p : EventDataPoint V → Bool)

theorem callStep_events {c : Call V} {next : Option (Call V)}
    (h : callStep st w c = (w', next)) :
    w'.events.countP p + (next.toList.flatMap Call.events).countP p
      ≤ w.events.countP p + c.events.countP p := by
  cases c with
  | offer evt size | resend evt =>
    simp only [callStep] at h
    split at h
    next hsend =>
      obtain ⟨-, rfl⟩ := Chan.trySend_some hsend
      cases h
      simp
      omega
    next =>
      cases h
      simp
  | evict evt =>
    simp only [callStep] at h
    split at h
    next hrecv =>
      obtain ⟨hbuf, -⟩ := Chan.tryRecv_some hrecv
      cases h
      simp [hbuf, List.countP_cons]
    next =>
      cases h
      simp
  | check newSize =>
    simp only [callStep] at h
    split at h
    all_goals
      cases h
      simp
  | weigh size | trigger =>
    cases h
    simp

theorem syncStep_events {phase : Sync V} {reply : Reply} {next : Next V}
    (h : syncStep st reply w phase = some (w', next)) :
    w'.events.countP p + (next.phases.flatMap Sync.events).countP p
      ≤ w.events.countP p + phase.events.countP p := by
  cases phase with
  | begun =>
    cases h
    simp [Next.phases, Bounded.sync]
    omega
  | receive events size =>
    simp only [syncStep] at h
    split at h
    next =>
      cases h
      simp [Next.phases]
    next hrecv =>
      obtain ⟨hbuf, -⟩ := Chan.tryRecv_some hrecv
      split at h
      next =>
        cases h
        simp [Next.phases, hbuf, List.countP_cons]
      next =>
        split at h
        all_goals
          cases h
          simp [Next.phases, hbuf, List.countP_cons]
          omega
  | putBack events size evt =>
    simp only [syncStep] at h
    split at h
    next => cases h
    next hsend =>
      obtain ⟨-, rfl⟩ := Chan.trySend_some hsend
      cases h
      simp [Next.phases]
      omega
  | sending events attempt =>
    simp only [syncStep] at h
    split at h
    next =>
      cases h
      simp [Next.phases]
      omega
    next =>
      cases h
      simp [Next.phases]
    next =>
      split at h
      all_goals
        cases h
        simp [Next.phases]
  | loop events size | collected events size =>
    simp only [syncStep] at h
    split at h
    all_goals
      cases h
      simp [Next.phases]
  | refused events =>
    cases h
    simp [Next.phases]
  | undelivered events =>
    -- what the cap of the backlog cuts off is lost
    obtain ⟨shed, kept, htrims⟩ :=
      Bounded.trimToCap_trims { w.failedEvents with items := events ++ w.failedEvents.items } w.counters
    have hitems := congrArg (List.countP p) htrims.items
    obtain ⟨hevents, hnext⟩ : w'.events = w.delivered ++ kept ++ w.buffer.buf ∧ next.phases = [] := by
      cases h
      exact ⟨congrArg (fun b => w.delivered ++ b.items ++ w.buffer.buf) htrims.queue, rfl⟩
    rw [hevents, hnext]
    simp at hitems ⊢
    omega

theorem step_events {a : Action V} (h : sys.step st a = some sys') :
    sys'.events.countP p ≤ sys.events.countP p + a.events.countP p := by
  have hok : Admitted (fun evt => a = .enqueue evt) (fun _ _ => True) (fun _ _ => True) sys a := by
    cases a <;> simp [Admitted]
  unfold System.events
  cases step_moves hok h with
  | stays work calls syncs =>
    rcases syncs with syncs | syncs <;> simp [work, calls, syncs]
  | offers evt size admitted _ work calls syncs =>
    simp [work, calls, syncs, admitted, Action.events, List.countP_cons]
    omega
  | triggers before after was work calls syncs =>
    rcases syncs with syncs | syncs <;> simp [work, calls, syncs, was]
  | calls before after c next _ was step calls syncs =>
    have hcall := callStep_events p step
    simp only [calls, syncs, was, List.flatMap_append, List.flatMap_cons, List.countP_append]
    omega
  | syncs before after phase reply next _ was step syncs calls =>
    have hsync := syncStep_events p step
    simp only [calls, syncs, was, List.flatMap_append, List.flatMap_cons, List.countP_append]
    omega

theorem run_events (as : List (Action V)) (h : runSchedule (System.step st) sys as = some sys') :
    sys'.events.countP p ≤ sys.events.countP p + (as.flatMap Action.events).countP p := by
  induction as generalizing sys with
  | nil =>
    cases h
    simp
  | cons a as ih =>
    obtain ⟨t, ht, hrest⟩ := runSchedule_cons h
    have hstep := step_events p ht
    have hrun := ih hrest
    rw [List.flatMap_cons, List.countP_append]
    omega

/-- **No event is delivered twice**: in every run, the events delivered, buffered, in the backlog and
in the hands of calls and syncs are among those that came in, each at most as often. -/
theorem delivered_at_most_once (st : Strategy V) (counters : DropCounters) (as : List (Action V))
    {sys : System V} (hrun : runSchedule (System.step st) (start st counters) as = some sys) :
    sys.events.Subperm (as.flatMap Action.events) := by
  classical
  refine List.subperm_ext_iff.mpr fun evt _ => ?_
  exact (run_events (· == evt) as hrun).trans_eq (Nat.zero_add _)

end

/-- Two events and a sync that delivers them. -/
def twoDelivered : List (Action Nat) :=
  twoLogins ++ .fire :: .tick :: .replicate 8 (.sync (.status 202))

theorem twoDelivered_once :
    ∃ sys, runSchedule (System.step (withQueue 2)) (start (withQueue 2) ∅) twoDelivered = some sys ∧
      sys.work.delivered = [loginEvent 20, loginEvent 30] ∧
      sys.events.Subperm [loginEvent 20, loginEvent 30] :=
  ⟨_, rfl, rfl, delivered_at_most_once (withQueue 2) ∅ twoDelivered rfl⟩

end SenhubAgent.DataStore.EventOutput

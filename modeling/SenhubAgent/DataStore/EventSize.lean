import Mathlib.Algebra.BigOperators.Group.List.Basic
import SenhubAgent.DataStore.EventOutput

/-!
# The size counter of the event buffer

`currentSize` should be the number of bytes in the buffer. `enqueue` adds the size of an event it sends,
and a sync takes off what it collected. Where `enqueue` finds the buffer full it takes the oldest event
out and sends the new one, and touches the counter for neither (`eviction_uncounted`). Without such an
eviction the counter is exact whenever nothing is in progress (`currentSize_exact`); in between, what is
missing from it is what the calls and syncs in progress still owe (`Balanced`).
-/

namespace SenhubAgent.DataStore.EventOutput

open SenhubAgent.Lib

section

variable {V : Type}

/-- The encoded size of an event. -/
def Strategy.sizeOf (st : Strategy V) (evt : EventDataPoint V) : Nat := (st.marshal evt).getD 0

def Strategy.bytes (st : Strategy V) (events : List (EventDataPoint V)) : Nat :=
  (events.map st.sizeOf).sum

/-- No call of `enqueue` and no sync is in progress. -/
def System.Idle (sys : System V) : Prop := sys.calls = [] ∧ sys.syncs = []

/-- The event is in the buffer, its size is not in the counter yet. -/
def Call.owed : Call V → Nat
  | .weigh size => size
  | _ => 0

/-- The bytes a sync took out of the buffer and has not taken off the counter. -/
def Strategy.held (st : Strategy V) : Sync V → Nat
  | .loop _ size | .receive _ size | .collected _ size => size
  | .putBack _ size evt => size + st.sizeOf evt
  | _ => 0

/-- An `enqueue` does not find the buffer full. -/
def Room (sys : System V) : Call V → Prop
  | .offer _ _ => sys.work.buffer.buf.length < sys.work.buffer.cap
  | _ => True

instance (sys : System V) : (c : Call V) → Decidable (Room sys c)
  | .offer _ _ => inferInstanceAs (Decidable (_ < _))
  | .evict _ | .resend _ | .weigh _ | .check _ | .trigger => isTrue trivial

/-- No `enqueue` finds the buffer full. -/
def NoEviction (sys : System V) (a : Action V) : Prop :=
  Admitted (fun _ => True) Room (fun _ _ => True) sys a

instance (sys : System V) (a : Action V) : Decidable (NoEviction sys a) :=
  inferInstanceAs (Decidable (Admitted _ _ _ _ _))

/-- The counter, up to what is owed. -/
def Balanced (st : Strategy V) (w : Work V) (calls : List (Call V)) (syncs : List (Sync V)) : Prop :=
  w.currentSize + (calls.map Call.owed).sum
    = st.bytes w.buffer.buf + ((syncs.map st.held).sum : Nat)

/-- A call that evicts nothing, with the size of its event. -/
def Call.Plain (st : Strategy V) : Call V → Prop
  | .offer evt size => st.marshal evt = some size
  | .evict _ | .resend _ => False
  | _ => True

structure Counted (st : Strategy V) (sys : System V) : Prop where
  plain : ∀ c ∈ sys.calls, c.Plain st
  balanced : Balanced st sys.work sys.calls sys.syncs

variable {st : Strategy V}

@[simp] theorem Strategy.bytes_nil : st.bytes [] = 0 := rfl

@[simp] theorem Strategy.bytes_cons (e : EventDataPoint V) (events : List (EventDataPoint V)) :
    st.bytes (e :: events) = st.sizeOf e + st.bytes events := by
  simp [Strategy.bytes]

@[simp] theorem Strategy.bytes_append (l₁ l₂ : List (EventDataPoint V)) :
    st.bytes (l₁ ++ l₂) = st.bytes l₁ + st.bytes l₂ := by
  simp [Strategy.bytes]

theorem sizeOf_eq {evt : EventDataPoint V} {size : Nat} (h : st.marshal evt = some size) :
    st.sizeOf evt = size := by
  rw [Strategy.sizeOf, h]
  rfl

/-- One step of a plain call: what it still owes makes up for what it changed. -/
theorem callStep_counts {w w' : Work V} {c : Call V} {next : Option (Call V)}
    (hplain : c.Plain st)
    (hroom : ∀ evt size, c = .offer evt size → w.buffer.buf.length < w.buffer.cap)
    (h : callStep st w c = (w', next)) :
    (∀ c' ∈ next, c'.Plain st) ∧
      w'.currentSize + (next.map Call.owed).getD 0 + st.bytes w.buffer.buf
        = w.currentSize + c.owed + st.bytes w'.buffer.buf := by
  cases c with
  | offer evt size =>
    have hsend : w.buffer.trySend evt = some { w.buffer with buf := w.buffer.buf ++ [evt] } :=
      if_pos (hroom evt size rfl)
    rw [callStep, hsend] at h
    cases h
    refine ⟨fun c' hc' => ?_, ?_⟩
    · cases hc'
      trivial
    · have hsize := sizeOf_eq hplain
      simp [Call.owed, hsize]
      omega
  | evict => exact hplain.elim
  | resend => exact hplain.elim
  | weigh size =>
    cases h
    refine ⟨fun c' hc' => ?_, ?_⟩
    · cases hc'
      trivial
    · simp [Call.owed]
  | check newSize =>
    unfold callStep at h
    dsimp only at h
    split at h
    next =>
      cases h
      refine ⟨fun c' hc' => ?_, rfl⟩
      cases hc'
      trivial
    next =>
      cases h
      exact ⟨nofun, rfl⟩
  | trigger =>
    cases h
    exact ⟨nofun, rfl⟩

/-- One step of a sync. -/
theorem syncStep_counts {w w' : Work V} {phase : Sync V} {reply : Reply} {next : Next V}
    (h : syncStep st reply w phase = some (w', next)) :
    w'.currentSize + st.bytes w.buffer.buf + (st.held phase : Nat)
      = w.currentSize + st.bytes w'.buffer.buf + ((next.phases.map st.held).sum : Nat) := by
  cases phase with
  | begun =>
    cases h
    rfl
  | loop events size =>
    unfold syncStep at h
    dsimp only at h
    split at h
    all_goals
      cases h
      rfl
  | receive events size =>
    unfold syncStep at h
    dsimp only at h
    split at h
    next =>
      cases h
      rfl
    next evt buffer hrecv =>
      obtain ⟨hbuf, -⟩ := Chan.tryRecv_some hrecv
      rw [hbuf, Strategy.bytes_cons]
      split at h
      next hnone =>
        cases h
        simp [Strategy.sizeOf, hnone, Next.phases, Strategy.held]
      next n hsome =>
        have hsize := sizeOf_eq hsome
        split at h
        all_goals
          cases h
          simp [Next.phases, Strategy.held, hsize]
          omega
  | putBack events size evt =>
    unfold syncStep at h
    dsimp only at h
    split at h
    next => cases h
    next buffer hsend =>
      obtain ⟨-, rfl⟩ := Chan.trySend_some hsend
      cases h
      simp [Next.phases, Strategy.held]
      omega
  | collected events size =>
    unfold syncStep at h
    dsimp only at h
    split at h
    all_goals
      cases h
      simp [Next.phases, Strategy.held]
      omega
  | sending events attempt =>
    unfold syncStep at h
    dsimp only at h
    split at h
    next =>
      cases h
      rfl
    next =>
      cases h
      rfl
    next =>
      split at h
      all_goals
        cases h
        rfl
  | refused events =>
    cases h
    rfl
  | undelivered events =>
    cases h
    rfl

/-- What holds of the members still holds when one of them gives way to others. -/
theorem forall_mem_replaced {α : Type} {P : α → Prop} {l before m after : List α} {x : α}
    (h : ∀ y ∈ l, P y) (was : l = before ++ x :: after) (hm : ∀ y ∈ m, P y) :
    ∀ y ∈ before ++ m ++ after, P y := by
  simp only [was, List.forall_mem_append, List.forall_mem_cons] at h ⊢
  exact ⟨⟨h.1, hm⟩, h.2.2⟩

theorem Counted.moves {sys sys' : System V} (h : Counted st sys)
    (hmoves : Moves st (fun _ => True) Room (fun _ _ => True) sys sys') : Counted st sys' := by
  have hbalanced := h.balanced
  unfold Balanced at hbalanced
  cases hmoves with
  | stays work calls syncs =>
    refine ⟨calls ▸ h.plain, ?_⟩
    unfold Balanced
    rw [work, calls]
    rcases syncs with syncs | syncs
    · rwa [syncs]
    · rw [syncs]
      simpa [Strategy.held] using hbalanced
  | offers evt size _ marshal work calls syncs =>
    refine ⟨?_, ?_⟩
    · intro c hc
      rw [calls, List.mem_append, List.mem_singleton] at hc
      rcases hc with hc | rfl
      · exact h.plain c hc
      · exact marshal
    · unfold Balanced
      rw [work, calls, syncs]
      simpa [Call.owed] using hbalanced
  | triggers before after was work calls syncs =>
    have hplain := forall_mem_replaced (m := []) h.plain was nofun
    rw [List.append_nil, ← calls] at hplain
    rw [was] at hbalanced
    refine ⟨hplain, ?_⟩
    unfold Balanced
    rw [work, calls]
    rcases syncs with syncs | syncs
    · rw [syncs]
      simpa [Call.owed] using hbalanced
    · rw [syncs]
      simpa [Call.owed, Strategy.held] using hbalanced
  | calls before after c next admitted was step calls syncs =>
    have hc : c ∈ sys.calls := by
      rw [was]
      exact List.mem_append_right _ List.mem_cons_self
    obtain ⟨hplain, hcounts⟩ := callStep_counts (h.plain c hc)
      (fun evt size heq => by subst heq; exact admitted) step
    have hplains := forall_mem_replaced h.plain was fun c' hc' => hplain c' (Option.mem_toList.mp hc')
    rw [was] at hbalanced
    refine ⟨calls ▸ hplains, ?_⟩
    have hnext : (next.toList.map Call.owed).sum = (next.map Call.owed).getD 0 := by
      cases next <;> simp
    unfold Balanced
    rw [calls, syncs]
    simp only [List.map_append, List.map_cons, List.sum_append, List.sum_cons] at hbalanced ⊢
    rw [hnext]
    omega
  | syncs before after phase reply next _ was step syncs calls =>
    have hcounts := syncStep_counts step
    rw [was] at hbalanced
    refine ⟨calls ▸ h.plain, ?_⟩
    unfold Balanced
    rw [calls, syncs]
    simp only [List.map_append, List.map_cons, List.sum_append, List.sum_cons] at hbalanced ⊢
    omega

/-- **The size counter is exact** whenever nothing is in progress, in every run in which no `enqueue`
finds the buffer full. -/
theorem currentSize_exact {counters : DropCounters} {as : List (Action V)} {sys : System V}
    (hok : Admits (System.step st) NoEviction (start st counters) as)
    (hrun : runSchedule (System.step st) (start st counters) as = some sys) (hidle : sys.Idle) :
    sys.work.currentSize = st.bytes sys.work.buffer.buf := by
  have hstart : Counted st (start st counters) := ⟨nofun, rfl⟩
  have hcounted : Counted st sys :=
    runSchedule_inv (fun _ _ _ h hok hstep => h.moves (step_moves hok hstep)) as hstart hok hrun
  have hbalanced := hcounted.balanced
  unfold Balanced at hbalanced
  rw [hidle.1, hidle.2] at hbalanced
  simpa using hbalanced

end

/-! ## A run with an eviction and one without -/

/-- A valid event with a field `details` whose JSON has `n` bytes. -/
def loginEvent (n : Nat) : EventDataPoint Nat :=
  [⟨"timestamp", .time 0⟩, ⟨"host", .text "web1"⟩, ⟨"severity", .text "info"⟩,
    ⟨"message", .text "login"⟩, ⟨"details", .other n⟩].toAList

/-- The event strategy with a queue of `queueSize` events and the defaults for the rest; a login event
has 97 bytes beside its details. -/
def withQueue (queueSize : Nat) : Strategy Nat where
  queueSize := queueSize
  syncTriggerSize := 100
  syncTriggerBytes := 524288
  retryAttempts := 3
  marshal := fun e =>
    match e.lookup "details" with
    | some (.other n) => some (97 + n)
    | _ => some 97

/-- Two events, one call after the other. -/
def twoLogins : List (Action Nat) :=
  [.enqueue (loginEvent 20), .call 0, .call 0, .call 0,
    .enqueue (loginEvent 30), .call 0, .call 0, .call 0]

theorem currentSize_twoLogins :
    ∃ sys, runSchedule (System.step (withQueue 2)) (start (withQueue 2) ∅) twoLogins = some sys ∧
      sys.work.currentSize = (withQueue 2).bytes sys.work.buffer.buf ∧
      sys.work.buffer.buf = [loginEvent 20, loginEvent 30] := by
  have hok : Admits (System.step (withQueue 2)) NoEviction (start (withQueue 2) ∅) twoLogins := by
    decide +kernel
  exact ⟨_, rfl, currentSize_exact hok rfl ⟨rfl, rfl⟩, rfl⟩

/-- **An eviction is not counted**: with room for one event, the second takes the place of the first
and the counter keeps the size of the first. -/
theorem eviction_uncounted :
    ¬∀ (st : Strategy Nat) (counters : DropCounters) (as : List (Action Nat)) (sys : System Nat),
      runSchedule (System.step st) (start st counters) as = some sys → sys.Idle →
        sys.work.currentSize = st.bytes sys.work.buffer.buf := by
  intro h
  have hexact := h (withQueue 1) ∅ twoLogins _ rfl ⟨rfl, rfl⟩
  exact absurd hexact (by decide +kernel)

end SenhubAgent.DataStore.EventOutput

import Mathlib.Algebra.BigOperators.Group.List.Basic
import Mathlib.Algebra.Ring.Int.Defs
import SenhubAgent.Lib.Schedule

/-!
# The supervisor of the agent's services

`Supervisor.Start` brings services up one after the other and records each one that came up;
`Supervisor.Shutdown` takes what is recorded, cancels the run context and stops the services in
reverse, each under its own budget.

The budgets add up to `TotalStopBudget`, but a service that does not return is waited for a
grace longer than its budget. What the services called before a service have overrun is missing
at its own call, unless the budgets still to come make up for it; and the sum may wrap
(`budgets_whole_iff`).

`Start` and `Shutdown` may run at the same time. What is recorded after `Shutdown` has looked is
never stopped, and a run context made after it is never cancelled (`stops_started_iff`).

Mirroring notes:
- Times are in nanoseconds, and only the waits take time. A call of `Shutdown` returns at a time
  of its own, or never, and may look at what is left of its context.
- The steps of the interleaving are the sections under the supervisor's lock and the calls of the
  services. `Shutdown` cancels the run context right after its section: only the services can see
  the difference, so it is one step. Whether a service comes up is up to the schedule. The logging
  is left out.
-/

namespace SenhubAgent.Lifecycle

open SenhubAgent.Lib

/-! ## The budgets -/

structure Service where
  /-- the answer of `StopBudget`, for a service that has one -/
  declared : Option Int
  /-- when `Shutdown` returns, by what is left of its context -/
  returns : Int → Option Nat

def defaultStopBudget : Int := 3000000000

def stopBudget (s : Service) : Int :=
  match s.declared with
  | some d => if 0 < d then d else defaultStopBudget
  | none => defaultStopBudget

/-- A sum of 64-bit durations. -/
def totalStopBudget (services : List Service) : Int :=
  (services.map stopBudget).sum.bmod 18446744073709551616

def shutdownGrace : Int := 250000000

/-- How long `shutdownBounded` waits, for a context with so much left. -/
def shutdownBounded (s : Service) (left : Int) : Int :=
  let abandoned := max left 0 + shutdownGrace
  match s.returns left with
  | some d => min d abandoned
  | none => abandoned

/-- A call of a service's `Shutdown`, and what is left of its context as it begins. -/
structure Call where
  service : Service
  left : Int

/-- The loop of `Shutdown`; `outer` is what is left of the caller's context. -/
def shutdownLoop : Int → List Service → List Call
  | _, [] => []
  | outer, s :: rest =>
    let left := min outer (stopBudget s)
    ⟨s, left⟩ :: shutdownLoop (outer - shutdownBounded s left) rest

def shutdown (outer : Int) (started : List Service) : List Call :=
  shutdownLoop outer started.reverse

theorem map_service_shutdownLoop (l : List Service) :
    ∀ outer, (shutdownLoop outer l).map Call.service = l := by
  induction l with
  | nil => intro outer; rfl
  | cons s l ih => intro outer; rw [shutdownLoop, List.map_cons, ih]

/-- Every call has its whole budget exactly when each time the calls before it, with their whole
budgets, have left that much. -/
theorem shutdownLoop_whole_iff (l : List Service) :
    ∀ outer, (∀ c ∈ shutdownLoop outer l, c.left = stopBudget c.service) ↔
      ∀ earlier s later, l = earlier ++ s :: later →
        (earlier.map fun x => shutdownBounded x (stopBudget x)).sum + stopBudget s ≤ outer := by
  induction l with
  | nil => simp [shutdownLoop]
  | cons x l ih =>
    intro outer
    rw [shutdownLoop, List.forall_mem_cons]
    dsimp only
    constructor
    · rintro ⟨hx, hl⟩ earlier s later heq
      cases earlier with
      | nil =>
        obtain ⟨rfl, -⟩ := List.cons.inj heq
        rw [List.map_nil, List.sum_nil]
        omega
      | cons y earlier =>
        obtain ⟨rfl, rfl⟩ := List.cons.inj heq
        rw [hx] at hl
        have hrest := (ih _).mp hl earlier s later rfl
        rw [List.map_cons, List.sum_cons]
        omega
    · intro h
      have hx : min outer (stopBudget x) = stopBudget x := by
        have hfirst := h [] x l rfl
        rw [List.map_nil, List.sum_nil] at hfirst
        omega
      rw [hx]
      refine ⟨rfl, (ih _).mpr fun earlier s later heq => ?_⟩
      have hrest := h (x :: earlier) s later (by rw [heq]; rfl)
      rw [List.map_cons, List.sum_cons] at hrest
      omega

/-- **Each service gets its stop budget** exactly when its budget and the waits for the services
stopped before it, each with its whole budget, fit into the total. The calls are made once each,
in reverse order of starting, in any case. -/
theorem budgets_whole_iff (services : List Service) :
    (shutdown (totalStopBudget services) services).map Call.service = services.reverse ∧
      ((∀ c ∈ shutdown (totalStopBudget services) services, c.left = stopBudget c.service) ↔
        ∀ earlier s later, services.reverse = earlier ++ s :: later →
          (earlier.map fun x => shutdownBounded x (stopBudget x)).sum + stopBudget s ≤
            totalStopBudget services) :=
  ⟨map_service_shutdownLoop _ _, shutdownLoop_whole_iff _ _⟩

/-- Two services without a budget of their own; the one that is stopped first never returns. -/
theorem stuck_service_cuts_budget :
    ¬ ∀ c ∈ shutdown (totalStopBudget [⟨none, fun _ => some 0⟩, ⟨none, fun _ => none⟩])
      [⟨none, fun _ => some 0⟩, ⟨none, fun _ => none⟩], c.left = stopBudget c.service := by
  decide

/-! ## Starting and stopping at the same time -/

section Interleaved

variable {S : Type}

/-- Where `Start` is. -/
inductive Starting (S : Type) where
  | called (services : List S)
  | loop (services : List S)
  | cameUp (svc : S) (services : List S)

/-- Where `Shutdown` is. -/
inductive Stopping (S : Type) where
  | idle
  | loop (services : List S)

/-- A supervisor with one call of `Start` and one of `Shutdown`. -/
structure System (S : Type) where
  /-- `s.cancel` is set -/
  cancel : Bool
  started : List S
  starting : Starting S
  stopping : Stopping S
  runCancelled : Bool
  /-- the services whose `Start` succeeded -/
  up : List S
  /-- the services whose `Shutdown` was called -/
  shutdowns : List S

/-- `Start` was called; `Shutdown` may be called at any time. -/
def System.new (services : List S) : System S :=
  ⟨false, [], .called services, .idle, false, [], []⟩

/-- What one of the two calls does without the other between: a section under the lock, or one
call of a service. -/
inductive Act where
  /-- `Start` makes the run's context and sets `s.cancel` -/
  | deriveContext
  /-- `svc.Start`, and whether it succeeds -/
  | startNext (ok : Bool)
  /-- the service is appended to `s.started` -/
  | record
  /-- `Shutdown` takes `s.cancel` and `s.started`, and cancels the run -/
  | takeStarted
  /-- `svc.Shutdown` of the last service still to stop -/
  | shutdownNext

/-- One step of either call, where it is due. A service that fails to start is passed over. A
service that came up is recorded only with the next step of `Start`, so `Shutdown` can look in
between and miss it. -/
def System.step (s : System S) (a : Act) : Option (System S) :=
  match a, s.starting, s.stopping with
  | .deriveContext, .called l, _ => some { s with cancel := true, starting := .loop l }
  | .startNext true, .loop (x :: l), _ =>
    some { s with starting := .cameUp x l, up := s.up ++ [x] }
  | .startNext false, .loop (_ :: l), _ => some { s with starting := .loop l }
  | .record, .cameUp x l, _ => some { s with started := s.started ++ [x], starting := .loop l }
  | .takeStarted, _, .idle =>
    some { s with stopping := .loop s.started.reverse, started := [], cancel := false,
                  runCancelled := s.runCancelled || s.cancel }
  | .shutdownNext, _, .loop (x :: l) =>
    some { s with stopping := .loop l, shutdowns := s.shutdowns ++ [x] }
  | _, _, _ => none

/-- The service that came up and is not recorded yet. -/
def Starting.unrecorded : Starting S → List S
  | .cameUp x _ => [x]
  | _ => []

/-- The services `Shutdown` has still to stop. -/
def Stopping.left : Stopping S → List S
  | .idle => []
  | .loop l => l

/-- `Start` has not made its context. -/
def Starting.unmade : Starting S → Nat
  | .called _ => 1
  | _ => 0

variable [DecidableEq S]

/-- Every service that came up is in one place, and so is the function that cancels the run. -/
structure System.Inv (s : System S) : Prop where
  services : ∀ x, s.up.count x = s.shutdowns.count x + s.stopping.left.count x +
    s.started.count x + s.starting.unrecorded.count x
  cancel : s.starting.unmade + s.cancel.toNat + s.runCancelled.toNat = 1

/-- Nothing was recorded after `Shutdown` looked. -/
def System.Clean (s : System S) : Prop := s.stopping = .idle ∨ s.started = [] ∧ s.cancel = false

/-- What `Start` records, it records before `Shutdown` looks. -/
def InTime (s : System S) (a : Act) : Prop := a = .deriveContext ∨ a = .record → s.stopping = .idle

theorem step_inv (s : System S) (a : Act) (s' : System S) (h : s.Inv) (hstep : s.step a = some s') :
    s'.Inv ∧ (s'.Clean ↔ s.Clean ∧ InTime s a) := by
  obtain ⟨hup, hcancel⟩ := h
  have hother : a ≠ .deriveContext → a ≠ .record → InTime s a := fun h h' ha =>
    absurd ha (not_or.mpr ⟨h, h'⟩)
  unfold System.step at hstep
  split at hstep
  next l hat =>
    cases hstep
    rw [hat] at hup hcancel
    refine ⟨⟨hup, ?_⟩, ?_⟩
    · simp only [Starting.unmade, Bool.toNat_true] at hcancel ⊢
      omega
    · simpa [System.Clean, InTime] using Or.inl
  next x l hat =>
    cases hstep
    rw [hat] at hup hcancel
    refine ⟨⟨fun y => ?_, hcancel⟩, (and_iff_left (hother nofun nofun)).symm⟩
    simp only [List.count_append, hup y, Starting.unrecorded, List.count_nil, Nat.add_zero]
  next l hat =>
    cases hstep
    rw [hat] at hup hcancel
    exact ⟨⟨hup, hcancel⟩, (and_iff_left (hother nofun nofun)).symm⟩
  next x l hat =>
    cases hstep
    rw [hat] at hup hcancel
    refine ⟨⟨fun y => ?_, hcancel⟩, by simpa [System.Clean, InTime] using Or.inl⟩
    have hy := hup y
    simp only [Starting.unrecorded, List.count_nil, List.count_append] at hy ⊢
    omega
  next hat =>
    cases hstep
    rw [hat] at hup
    refine ⟨⟨fun y => ?_, ?_⟩, by simp [System.Clean, InTime, hat]⟩
    · have hy := hup y
      simp only [Stopping.left, List.count_nil, List.count_reverse] at hy ⊢
      omega
    · cases hset : s.cancel with
      | false => simpa [hset] using hcancel
      | true =>
        simp only [hset, Bool.toNat_true, Bool.or_true, Bool.toNat_false] at hcancel ⊢
        omega
  next x l hat =>
    cases hstep
    rw [hat] at hup
    refine ⟨⟨fun y => ?_, hcancel⟩, by simp [System.Clean, InTime, hat]⟩
    have hy := hup y
    simp only [Stopping.left, List.count_append, List.count_cons, List.count_nil] at hy ⊢
    omega
  next => cases hstep

/-- **The supervisor stops what it started** exactly when `Start` has made its context and
recorded every service that came up before `Shutdown` looks. -/
theorem stops_started_iff (services : List S) (acts : List Act) (s : System S)
    (hrun : runSchedule System.step (System.new services) acts = some s)
    (hstarted : s.starting = .loop []) (hstopped : s.stopping = .loop []) :
    ((∀ x, s.shutdowns.count x = s.up.count x) ∧ s.runCancelled = true) ↔
      Admits System.step InTime (System.new services) acts := by
  have hnew : (System.new services).Inv := ⟨fun _ => rfl, rfl⟩
  obtain ⟨hup, hcancel⟩ :=
    runSchedule_keeps (fun s a s' h hs => (step_inv s a s' h hs).1) acts hnew hrun
  have hclean := (runSchedule_clean_iff step_inv acts hnew hrun).trans (and_iff_right (.inl rfl))
  simp only [hstarted, hstopped, Stopping.left, Starting.unrecorded, List.count_nil] at hup
  simp only [hstarted, Starting.unmade, Nat.zero_add] at hcancel
  rw [← hclean, System.Clean, hstopped, or_iff_right nofun]
  constructor
  · rintro ⟨hall, hrun⟩
    refine ⟨List.eq_nil_iff_forall_not_mem.mpr fun x hx => ?_, ?_⟩
    · have hpos := List.count_pos_iff.mpr hx
      have hx := hup x
      have hsame := hall x
      omega
    · rw [hrun] at hcancel
      simpa using hcancel
  · rintro ⟨hnil, hfalse⟩
    rw [hnil] at hup
    rw [hfalse] at hcancel
    exact ⟨fun x => by simp [hup x], by simpa using hcancel⟩

end Interleaved

/-- A stop that arrives before the second service is recorded, or after. -/
def stopDuringStart : List Act :=
  [.deriveContext, .startNext true, .record, .startNext true, .takeStarted, .record, .shutdownNext]

def stopAfterStart : List Act :=
  [.deriveContext, .startNext true, .record, .startNext true, .record, .takeStarted, .shutdownNext,
    .shutdownNext]

theorem stopAfterStart_stops :
    ∃ s, runSchedule System.step (System.new ["store", "sensors"]) stopAfterStart = some s ∧
      (∀ x, s.shutdowns.count x = s.up.count x) ∧ s.shutdowns = ["sensors", "store"] := by
  refine ⟨_, rfl, ((stops_started_iff ["store", "sensors"] stopAfterStart _ rfl rfl rfl).mpr ?_).1,
    rfl⟩
  have hidle {s : System String} (h : s.stopping = .idle) (a : Act) : InTime s a := fun _ => h
  exact ⟨hidle rfl _, hidle rfl _, hidle rfl _, hidle rfl _, hidle rfl _, hidle rfl _,
    (·.elim nofun nofun), (·.elim nofun nofun), trivial⟩

/-- The second service is up, recorded and never stopped. -/
theorem stopDuringStart_leaves :
    ∃ s, runSchedule System.step (System.new ["store", "sensors"]) stopDuringStart = some s ∧
      s.starting = .loop [] ∧ s.stopping = .loop [] ∧ s.up.count "sensors" = 1 ∧
      s.shutdowns.count "sensors" = 0 :=
  ⟨_, rfl, rfl, rfl, rfl, rfl⟩

end SenhubAgent.Lifecycle

import SenhubAgent.Entities.Model

/-!
# The entity tracker

`Tracker.Reconcile` turns a snapshot of the entities observed in a cycle into
events: a state for every entity that is new, changed or due on the heartbeat grid,
and a delete for every entity that was there last cycle and is not now. `Forget`
empties the record of what was published, so that the next call sends everything.

The lifecycle law relates three things that evolve apart: `seen` (the deletes held
ready), `pub` (what was last published of each key) and the events a consumer got.
`TrackerInv` ties them together: the keys alive at the consumer are the keys of
`seen`, and `pub` only remembers keys of `seen`. A state is suppressed only when
`pub` remembers its key, so a suppressed entity is alive already.

Mirroring notes:
- `publish` is the list of events a call returns, in order.
- The deleting loop ranges over a map, in an order Go does not fix. Each call comes
  with a `RangeOrder` for it.
- The loop that moves `nextGrid` past the current slot runs on fuel;
  `advanceGrid_after` says the fuel is enough.
-/

namespace SenhubAgent.Entities

open SenhubAgent.Lib

/-- `published`: the content hash and emit time of the last published state. -/
structure Published where
  hash : String
  time : Instant

structure Tracker where
  seen : AssocMap String Event
  refresh : Duration
  grid : Instant
  nextGrid : Instant
  pub : AssocMap String Published

def newTracker (refresh : Duration) : Tracker := ⟨∅, refresh, zeroTime, zeroTime, ∅⟩

/-- An order in which a loop may range over the keys of a map. -/
structure RangeOrder where
  visit : List String → List String
  perm : ∀ keys, (visit keys).Perm keys

/-! ## The heartbeat grid -/

/-- `for !nextGrid.After(limit) { nextGrid = nextGrid.Add(refresh) }`. -/
def advanceGrid (refresh : Duration) (limit : Instant) : Nat → Instant → Instant
  | 0, nextGrid => nextGrid
  | fuel + 1, nextGrid =>
    if limit < nextGrid then nextGrid else advanceGrid refresh limit fuel (nextGrid + refresh)

/-- Enough fuel for any positive interval. -/
def gridFuel (limit nextGrid : Instant) : Nat := (limit - nextGrid + 1).toNat

theorem advanceGrid_after {refresh : Int} (hpos : 0 < refresh) (limit : Int) :
    ∀ (fuel : Nat) (nextGrid : Int), gridFuel limit nextGrid ≤ fuel →
      limit < advanceGrid refresh limit fuel nextGrid := by
  intro fuel
  induction fuel with
  | zero =>
    intro nextGrid h
    show limit < nextGrid
    unfold gridFuel at h
    omega
  | succ fuel ih =>
    intro nextGrid h
    unfold advanceGrid
    split
    next hafter => exact hafter
    next hbefore =>
      apply ih
      unfold gridFuel at h ⊢
      omega

/-- Whether unchanged states are due now. -/
def Tracker.gridDue (t : Tracker) (now : Instant) : Bool :=
  decide (0 < t.refresh) && decide (t.nextGrid ≠ zeroTime) &&
    !decide (now < t.nextGrid + (-t.refresh).tdiv 4)

/-- The start of a call: a due slot moves the grid on. -/
def Tracker.tick (t : Tracker) (now : Instant) : Tracker :=
  if t.gridDue now then
    let limit := now + t.refresh.tdiv 4
    { t with nextGrid := advanceGrid t.refresh limit (gridFuel limit t.nextGrid) t.nextGrid }
  else t

/-! ## Reconcile -/

/-- The event time of a state: when it was observed, or what it carries, or now. -/
def Event.stamp (ev : Event) (now : Instant) : Event :=
  if ev.kind = .entityState then
    if ev.entity.observedAt ≠ zeroTime then { ev with time := ev.entity.observedAt }
    else if ev.time = zeroTime then { ev with time := now }
    else ev
  else ev

section Reconcile

variable (formatFloat : Float → String)

/-- `!ok || p.hash != h`. -/
def Tracker.changed (t : Tracker) (ev : Event) : Bool :=
  match t.pub.lookup (eventKey formatFloat ev) with
  | none => true
  | some p => p.hash != stateHash formatFloat ev

/-- `t.seen[k] = deleteFor(ev)`. -/
def Tracker.see (t : Tracker) (ev : Event) : Tracker :=
  { t with seen := t.seen.insert (eventKey formatFloat ev) (deleteFor ev) }

/-- The record of a published state; the first one anchors the grid. -/
def Tracker.record (t : Tracker) (now : Instant) (ev : Event) : Tracker :=
  { t with
    pub := t.pub.insert (eventKey formatFloat ev) ⟨stateHash formatFloat ev, now⟩
    grid := if t.grid = zeroTime then now else t.grid
    nextGrid := if t.grid = zeroTime then now + t.refresh else t.nextGrid }

/-- One state of the snapshot, already stamped. -/
def Tracker.observe (t : Tracker) (now : Instant) (gridDue : Bool) (ev : Event) :
    Tracker × List Event :=
  -- a suppressed state is seen all the same, or its entity would be deleted
  let t' := t.see formatFloat ev
  if t.refresh > 0 ∧ t.changed formatFloat ev = false ∧ gridDue = false then (t', [])
  else (t'.record formatFloat now ev, [ev])

/-- The loop over the snapshot. -/
def Tracker.observeAll (now : Instant) (gridDue : Bool) :
    List Event → Tracker → Tracker × List Event
  | [], t => (t, [])
  | ev :: evs, t =>
    let (t, out) := t.observe formatFloat now gridDue (ev.stamp now)
    let (t, outs) := observeAll now gridDue evs t
    (t, out ++ outs)

/-- The reason a delete carries. -/
def deleteReasonFor (reasons : AssocMap String String) (k : String) : String :=
  match reasons.lookup k with
  | some r => if r ≠ "" then r else reasonTerminated
  | none => reasonTerminated

/-- The delete held ready, as it is published. -/
def Event.deletedAt (del : Event) (now : Instant) (reason : String) : Event :=
  { del with time := now, deleteReason := reason }

/-- `delete(t.seen, k); delete(t.pub, k)`. -/
def Tracker.dropKey (t : Tracker) (k : String) : Tracker :=
  { t with seen := t.seen.erase k, pub := t.pub.erase k }

/-- The deleting loop: `cur` holds the keys of the snapshot. -/
def Tracker.retire (now : Instant) (cur : List String) (reasons : AssocMap String String) :
    List String → Tracker → Tracker × List Event
  | [], t => (t, [])
  | k :: order, t =>
    match t.seen.lookup k with
    | none => retire now cur reasons order t
    | some del =>
      if k ∈ cur then retire now cur reasons order t
      else
        let (t', dels) := retire now cur reasons order (t.dropKey k)
        (t', del.deletedAt now (deleteReasonFor reasons k) :: dels)

/-- `Tracker.Reconcile`: the tracker it leaves and the events it publishes. -/
def Tracker.reconcile (t : Tracker) (order : RangeOrder) (current : List Event) (now : Instant)
    (reasons : AssocMap String String) : Tracker × List Event :=
  let (t', states) := (t.tick now).observeAll formatFloat now (t.gridDue now) current
  -- every key of the snapshot, published or suppressed
  let cur := current.map (eventKey formatFloat)
  let (t'', dels) := t'.retire now cur reasons (order.visit t'.seen.keys)
  (t'', states ++ dels)

def Tracker.forget (t : Tracker) : Tracker := { t with pub := ∅ }

end Reconcile

end SenhubAgent.Entities

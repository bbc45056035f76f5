import Mathlib.Data.List.Chain
import SenhubAgent.Entities.Lifecycle

/-!
# The heartbeat gap

Unchanged states wait for a slot of a grid that all entities share. A call is due from a quarter
of the period before its slot on, and then moves the slot past a quarter of the period after the
call. So the slot is never further than a period and a quarter from the last due call, and the
next due call comes at most a period after it: an entity that is in every snapshot is published
in every window of calls that long, whatever else happens.

Hypotheses: instants do not go back, and come after Go's zero time, which the tracker reads as
"no grid yet".

A state is withheld only when its key is on record, and a key on record means that the grid was
anchored: by the first state ever published, which counts as a due call here.
-/

namespace SenhubAgent.Entities

open SenhubAgent.Lib

/-- The instants of the `Reconcile` calls. -/
def callTimes (actions : List TrackerAction) : List Instant :=
  actions.filterMap fun
    | .reconcile _ now _ _ => some now
    | .forget => none

/-- Calls in order, at most `d` apart. -/
structure Paced (d : Duration) (times : List Instant) : Prop where
  after : ∀ t ∈ times, zeroTime < t
  apart : times.IsChain fun a b => a ≤ b ∧ b ≤ a + d

/-! ## The grid -/

theorem advanceGrid_le {refresh : Int} (limit : Int) :
    ∀ (fuel : Nat) (nextGrid : Int), nextGrid ≤ limit + refresh →
      advanceGrid refresh limit fuel nextGrid ≤ limit + refresh := by
  intro fuel
  induction fuel with
  | zero =>
    intro nextGrid h
    exact h
  | succ fuel ih =>
    intro nextGrid h
    unfold advanceGrid
    split
    next => exact h
    next hbefore =>
      apply ih
      have hle : nextGrid ≤ limit := Int.not_lt.mp hbefore
      omega

variable {r nextGrid now q : Int}

theorem quarter_lt (hr : 0 < r) : 0 ≤ r.tdiv 4 ∧ r.tdiv 4 < r := by
  rw [Int.tdiv_eq_ediv_of_nonneg hr.le]
  omega

theorem slot_le (hr : 0 < r) (h : nextGrid + -q ≤ now) : nextGrid ≤ now + q + r := by omega

theorem lt_slot (h : now < nextGrid + -q) : now + q < nextGrid := by omega

/-- What a due call leaves of the grid, and which calls are not due. -/
theorem tick_nextGrid {t : Tracker} (hr : 0 < t.refresh) (now : Instant) :
    (t.gridDue now = true ∧ now + t.refresh.tdiv 4 < (t.tick now).nextGrid ∧
        (t.tick now).nextGrid ≤ now + t.refresh + t.refresh.tdiv 4) ∨
      (t.gridDue now = false ∧ t.tick now = t ∧
        (t.nextGrid ≠ zeroTime → now + t.refresh.tdiv 4 < t.nextGrid)) := by
  unfold Tracker.tick
  cases hdue : t.gridDue now with
  | true =>
    left
    rw [if_pos rfl]
    unfold Tracker.gridDue at hdue
    rw [Int.neg_tdiv] at hdue
    simp only [Bool.and_eq_true, Bool.not_eq_true', decide_eq_true_eq, decide_eq_false_iff_not]
      at hdue
    refine ⟨rfl, advanceGrid_after hr _ _ _ (Nat.le_refl _), ?_⟩
    have hstart : t.nextGrid ≤ now + t.refresh.tdiv 4 + t.refresh :=
      slot_le hr (Int.not_lt.mp hdue.2)
    calc advanceGrid t.refresh (now + t.refresh.tdiv 4) _ t.nextGrid
        ≤ now + t.refresh.tdiv 4 + t.refresh := advanceGrid_le _ _ _ hstart
      _ = now + t.refresh + t.refresh.tdiv 4 := Int.add_right_comm ..
  | false =>
    right
    refine ⟨rfl, if_neg Bool.false_ne_true, fun hne => ?_⟩
    unfold Tracker.gridDue at hdue
    rw [Int.neg_tdiv] at hdue
    simp only [Bool.and_eq_false_iff, Bool.not_eq_false', decide_eq_false_iff_not,
      decide_eq_true_eq] at hdue
    rcases hdue with (hno | hzero) | hearly
    · exact absurd hr hno
    · exact absurd hne hzero
    · exact lt_slot hearly

section Calls

variable {formatFloat : Float → String}

/-- What `observe` does, by whether it withholds the state. -/
theorem observe_eq (t : Tracker) (now : Instant) (gridDue : Bool) (ev : Event) :
    t.observe formatFloat now gridDue ev
      = if t.refresh > 0 ∧ t.changed formatFloat ev = false ∧ gridDue = false
        then (t.see formatFloat ev, [])
        else ((t.see formatFloat ev).record formatFloat now ev, [ev]) := rfl

variable {t : Tracker} {now : Instant} {k : String} {r : Duration} {times : List Instant}
    {b : Beats}

theorem changed_eq_false {ev : Event} (h : t.changed formatFloat ev = false) :
    ∃ p, t.pub.lookup (eventKey formatFloat ev) = some p ∧ p.hash = stateHash formatFloat ev := by
  unfold Tracker.changed at h
  split at h
  next => cases h
  next p hp => exact ⟨p, hp, by simpa using h⟩

variable (formatFloat) in
/-- The snapshot loop anchors a grid that is not, with the first state it publishes. -/
theorem observeAll_grid (hnow : now ≠ zeroTime) (gridDue : Bool) (evs : List Event) : ∀ t : Tracker,
      ((t.observeAll formatFloat now gridDue evs).1.grid = t.grid ∧
          (t.observeAll formatFloat now gridDue evs).1.nextGrid = t.nextGrid ∧
          (t.observeAll formatFloat now gridDue evs).1.pub = t.pub) ∨
        ((t.observeAll formatFloat now gridDue evs).1.grid =
            (if t.grid = zeroTime then now else t.grid) ∧
          (t.observeAll formatFloat now gridDue evs).1.nextGrid =
            if t.grid = zeroTime then now + t.refresh else t.nextGrid) := by
  induction evs with
  | nil =>
    intro t
    exact .inl ⟨rfl, rfl, rfl⟩
  | cons ev evs ih =>
    intro t
    have hcons : (t.observeAll formatFloat now gridDue (ev :: evs)).1 =
        (Tracker.observeAll formatFloat now gridDue evs
          (t.observe formatFloat now gridDue (ev.stamp now)).1).1 := rfl
    rw [hcons, observe_eq]
    split
    next => exact ih (t.see formatFloat (ev.stamp now))
    next =>
      right
      have hgrid : ((t.see formatFloat (ev.stamp now)).record formatFloat now (ev.stamp now)).grid =
          if t.grid = zeroTime then now else t.grid := rfl
      have hset : (if t.grid = zeroTime then now else t.grid) ≠ zeroTime := by
        split
        next => exact hnow
        next hne => exact hne
      rcases ih ((t.see formatFloat (ev.stamp now)).record formatFloat now (ev.stamp now)) with
        ⟨hsame, hnext, -⟩ | ⟨hsame, hnext⟩
      · exact ⟨hsame, hnext⟩
      · rw [hgrid, if_neg hset] at hsame
        rw [hgrid, if_neg hset] at hnext
        exact ⟨hsame, hnext⟩

/-- The deleting loop leaves the grid, and forgets and adds nothing. -/
theorem retire_frame (now : Instant) (cur : List String) (reasons : AssocMap String String)
    (order : List String) : ∀ t : Tracker,
      (t.retire now cur reasons order).1.grid = t.grid ∧
        (t.retire now cur reasons order).1.nextGrid = t.nextGrid ∧
        (t.retire now cur reasons order).1.refresh = t.refresh ∧
        ∀ k, t.pub.lookup k = none → (t.retire now cur reasons order).1.pub.lookup k = none := by
  induction order with
  | nil =>
    intro t
    exact ⟨rfl, rfl, rfl, fun _ h => h⟩
  | cons k order ih =>
    intro t
    rcases retire_cons now cur reasons k order t with ⟨heq, -⟩ | ⟨del, -, -, heq⟩
    · rw [heq]
      exact ih t
    · obtain ⟨hgrid, hnext, hrefresh, hpub⟩ := ih (t.dropKey k)
      rw [heq]
      refine ⟨hgrid, hnext, hrefresh, fun q hq => hpub q ?_⟩
      show (t.pub.erase k).lookup q = none
      rw [lookup_erase_if, hq, ite_self]

/-- A state of the snapshot that is not published was on record, and the grid was not due. -/
theorem observeAll_withheld (now : Instant) (gridDue : Bool) (evs : List Event) :
    ∀ {t : Tracker}, 0 < t.refresh → k ∈ evs.map (eventKey formatFloat) →
      (∀ ev ∈ (t.observeAll formatFloat now gridDue evs).2, eventKey formatFloat ev ≠ k) →
      gridDue = false ∧ t.pub.lookup k ≠ none := by
  induction evs with
  | nil =>
    intro t _ hk
    cases hk
  | cons ev evs ih =>
    intro t hr hk hout
    have hout' : ∀ e ∈ (t.observe formatFloat now gridDue (ev.stamp now)).2 ++
        (Tracker.observeAll formatFloat now gridDue evs
          (t.observe formatFloat now gridDue (ev.stamp now)).1).2,
        eventKey formatFloat e ≠ k := hout
    rw [List.forall_mem_append] at hout'
    obtain ⟨hfirst, hrest⟩ := hout'
    rw [observe_eq] at hfirst hrest
    by_cases hwithheld : t.refresh > 0 ∧ t.changed formatFloat (ev.stamp now) = false ∧
        gridDue = false
    · rw [if_pos hwithheld] at hrest
      rw [List.map_cons, List.mem_cons] at hk
      rcases hk with hk | hk
      · obtain ⟨p, hp, -⟩ := changed_eq_false hwithheld.2.1
        rw [eventKey_stamp, ← hk] at hp
        refine ⟨hwithheld.2.2, ?_⟩
        rw [hp]
        exact Option.some_ne_none p
      · exact ih (t := t.see formatFloat (ev.stamp now)) hr hk hrest
    · rw [if_neg hwithheld] at hfirst hrest
      have hne : eventKey formatFloat ev ≠ k := by
        have hev := hfirst _ (List.mem_singleton_self _)
        rwa [eventKey_stamp] at hev
      rw [List.map_cons, List.mem_cons] at hk
      rcases hk with hk | hk
      · exact absurd hk.symm hne
      · obtain ⟨hdue, hpub⟩ :=
          ih (t := (t.see formatFloat (ev.stamp now)).record formatFloat now (ev.stamp now))
            hr hk hrest
        refine ⟨hdue, ?_⟩
        have hpub' : (t.pub.insert (eventKey formatFloat (ev.stamp now))
            ⟨stateHash formatFloat (ev.stamp now), now⟩).lookup k ≠ none := hpub
        rwa [eventKey_stamp, AList.lookup_insert_ne hne.symm] at hpub'

/-! ## Runs -/

/-- A run and its last due call; the call that anchors the grid is due. -/
structure Beats where
  run : TrackerRun
  due : Option Instant

variable (formatFloat) in
def beatStep (b : Beats) (a : TrackerAction) : Beats where
  run := trackerStep formatFloat b.run a
  due :=
    match a with
    | .reconcile _ now _ _ =>
      if b.run.tracker.gridDue now = true ∨ (b.run.tracker.grid = zeroTime ∧
          (trackerStep formatFloat b.run a).tracker.grid ≠ zeroTime) then some now
      else b.due
    | .forget => b.due

variable (formatFloat) in
def trackerBeats (refresh : Duration) (actions : List TrackerAction) : Beats :=
  actions.foldl (beatStep formatFloat) ⟨⟨newTracker refresh, [], []⟩, none⟩

/-- Where the slot is, by the last due call among `times`. -/
structure GridInv (r : Duration) (times : List Instant) (t : Tracker) (due : Option Instant) :
    Prop where
  refresh : t.refresh = r
  idle : t.grid = zeroTime → t.nextGrid = zeroTime ∧ (∀ k, t.pub.lookup k = none) ∧ due = none
  beat : t.grid ≠ zeroTime → ∃ last ∈ times, due = some last ∧ zeroTime < last ∧
    last + r.tdiv 4 < t.nextGrid ∧ t.nextGrid ≤ last + r + r.tdiv 4

theorem GridInv.of_due {due : Instant} (h : GridInv r times t (some due)) :
    due ∈ times ∧ due + r.tdiv 4 < t.nextGrid ∧ t.nextGrid ≤ due + r + r.tdiv 4 := by
  by_cases hidle : t.grid = zeroTime
  · cases (h.idle hidle).2.2
  · obtain ⟨last, hmem, hlast, -, hlow, hhigh⟩ := h.beat hidle
    rw [Option.some.inj hlast]
    exact ⟨hmem, hlow, hhigh⟩

variable (formatFloat) in
/-- A call leaves of the grid what its snapshot loop leaves. -/
theorem reconcile_grid (t : Tracker) (order : RangeOrder) (current : List Event) (now : Instant)
    (reasons : AssocMap String String) :
    (t.reconcile formatFloat order current now reasons).1.grid =
        ((t.tick now).observeAll formatFloat now (t.gridDue now) current).1.grid ∧
      (t.reconcile formatFloat order current now reasons).1.nextGrid =
        ((t.tick now).observeAll formatFloat now (t.gridDue now) current).1.nextGrid ∧
      (t.reconcile formatFloat order current now reasons).1.refresh = t.refresh := by
  obtain ⟨hgrid, hnext, hrefresh, -⟩ := retire_frame now (current.map (eventKey formatFloat)) reasons
    (order.visit ((t.tick now).observeAll formatFloat now (t.gridDue now) current).1.seen.keys)
    ((t.tick now).observeAll formatFloat now (t.gridDue now) current).1
  exact ⟨hgrid, hnext, hrefresh.trans ((observeAll_frame formatFloat now _ current _).1.trans
    (tick_frame t now).2.2.1)⟩

theorem GridInv.reconcile (hr : 0 < r) (h : GridInv r times b.run.tracker b.due)
    (hnow : zeroTime < now) (current : List StateEvent) (reasons : AssocMap String String)
    (order : RangeOrder) :
    GridInv r (times ++ [now])
      (beatStep formatFloat b (.reconcile current now reasons order)).run.tracker
      (beatStep formatFloat b (.reconcile current now reasons order)).due := by
  have hne : now ≠ zeroTime := Int.ne_of_gt hnow
  obtain ⟨hquarter, hless⟩ := quarter_lt hr
  have hpos : 0 < b.run.tracker.refresh := h.refresh ▸ hr
  obtain ⟨hgrid, hnext, hrefresh⟩ := reconcile_grid formatFloat b.run.tracker order
    (snapshotEvents current) now reasons
  have hdue : (beatStep formatFloat b (.reconcile current now reasons order)).due =
      if b.run.tracker.gridDue now = true ∨ (b.run.tracker.grid = zeroTime ∧
        (b.run.tracker.reconcile formatFloat order (snapshotEvents current) now reasons).1.grid ≠
          zeroTime) then some now
      else b.due := rfl
  have htracker : (beatStep formatFloat b (.reconcile current now reasons order)).run.tracker =
      (b.run.tracker.reconcile formatFloat order (snapshotEvents current) now reasons).1 := rfl
  rw [hdue, htracker]
  have hobserved := observeAll_grid formatFloat hne (b.run.tracker.gridDue now)
    (snapshotEvents current) (b.run.tracker.tick now)
  obtain ⟨-, -, hticked, hanchor⟩ := tick_frame b.run.tracker now
  rw [← hgrid, ← hnext, hanchor, hticked, h.refresh] at hobserved
  by_cases hidle : b.run.tracker.grid = zeroTime
  · obtain ⟨hzero, hpub, hnone⟩ := h.idle hidle
    have hno : b.run.tracker.gridDue now = false := by
      unfold Tracker.gridDue
      simp [hzero]
    have htick : b.run.tracker.tick now = b.run.tracker := if_neg (by simp [hno])
    rw [htick, hidle, if_pos rfl, if_pos rfl] at hobserved
    rcases hobserved with ⟨hsame, hslot, hkept⟩ | ⟨hset, hslot⟩
    · refine ⟨hrefresh.trans h.refresh, fun _ => ⟨hslot.trans hzero, ?_, ?_⟩, ?_⟩
      · refine fun k => (retire_frame now _ reasons _ _).2.2.2 k ?_
        rw [htick, hkept]
        exact hpub k
      · rw [if_neg (by simp [hno, hsame]), hnone]
      · exact fun hgrid => absurd hsame hgrid
    · refine ⟨hrefresh.trans h.refresh, fun hz => absurd (hset.symm.trans hz) hne, fun _ => ?_⟩
      refine ⟨now, List.mem_append_right _ (List.mem_singleton_self now), ?_, hnow, ?_, ?_⟩
      · exact if_pos (.inr ⟨hidle, fun hz => hne (hset.symm.trans hz)⟩)
      · rw [hslot]
        exact Int.add_lt_add_left hless now
      · rw [hslot]
        exact Int.le_add_of_nonneg_right hquarter
  · obtain ⟨last, hmem, hlast, hafter, hlow, hhigh⟩ := h.beat hidle
    rw [if_neg hidle, if_neg hidle] at hobserved
    have hkept : (b.run.tracker.reconcile formatFloat order (snapshotEvents current) now
          reasons).1.grid = b.run.tracker.grid ∧
        (b.run.tracker.reconcile formatFloat order (snapshotEvents current) now
          reasons).1.nextGrid = (b.run.tracker.tick now).nextGrid := by
      rcases hobserved with ⟨hsame, hslot, -⟩ | hboth
      · exact ⟨hsame, hslot⟩
      · exact hboth
    refine ⟨hrefresh.trans h.refresh, fun hz => absurd (hkept.1.symm.trans hz) hidle, fun _ => ?_⟩
    rw [hkept.2]
    have htick := tick_nextGrid hpos now
    rw [h.refresh] at htick
    rcases htick with ⟨hyes, hbeyond, hwithin⟩ | ⟨hno, hsame, -⟩
    · exact ⟨now, List.mem_append_right _ (List.mem_singleton_self now),
        if_pos (.inl hyes), hnow, hbeyond, hwithin⟩
    · refine ⟨last, List.mem_append_left _ hmem, ?_, hafter, ?_, ?_⟩
      · rw [if_neg (by simp [hno, hidle]), hlast]
      · rw [hsame]
        exact hlow
      · rw [hsame]
        exact hhigh

theorem GridInv.forget {due : Option Instant} (h : GridInv r times t due) :
    GridInv r times t.forget due :=
  ⟨h.refresh, fun hidle => ⟨(h.idle hidle).1, fun _ => rfl, (h.idle hidle).2.2⟩, h.beat⟩

theorem callTimes_append (as bs : List TrackerAction) :
    callTimes (as ++ bs) = callTimes as ++ callTimes bs := List.filterMap_append ..

theorem trackerBeats_concat (r : Duration) (as : List TrackerAction) (a : TrackerAction) :
    trackerBeats formatFloat r (as ++ [a]) =
      beatStep formatFloat (trackerBeats formatFloat r as) a := List.foldl_concat ..

variable (formatFloat) in
theorem gridInv_beats (hr : 0 < r) (actions : List TrackerAction)
    (hafter : ∀ t ∈ callTimes actions, zeroTime < t) :
    GridInv r (callTimes actions) (trackerBeats formatFloat r actions).run.tracker
      (trackerBeats formatFloat r actions).due := by
  induction actions using List.reverseRecOn with
  | nil => exact ⟨rfl, fun _ => ⟨rfl, fun _ => rfl, rfl⟩, fun hne => absurd rfl hne⟩
  | append_singleton actions a ih =>
    rw [callTimes_append, List.forall_mem_append] at hafter
    have hinv := ih hafter.1
    rw [trackerBeats_concat, callTimes_append]
    cases a with
    | reconcile current now reasons order =>
      exact hinv.reconcile hr (hafter.2 now (List.mem_singleton_self now)) current reasons order
    | forget =>
      show GridInv r (callTimes actions ++ []) _ _
      rw [List.append_nil]
      exact hinv.forget

theorem trackerBeats_run (r : Duration) (actions : List TrackerAction) :
    (trackerBeats formatFloat r actions).run = trackerRun formatFloat r actions := by
  induction actions using List.reverseRecOn with
  | nil => rfl
  | append_singleton actions a ih =>
    rw [trackerBeats_concat]
    show trackerStep formatFloat (trackerBeats formatFloat r actions).run a = _
    rw [ih]
    exact (List.foldl_concat ..).symm

/-! ## Windows of calls -/

variable (formatFloat) in
/-- The events a list of actions publishes. -/
def publishedIn (s : TrackerRun) : List TrackerAction → List Event
  | [] => []
  | a :: as =>
    (trackerStep formatFloat { s with published := [] } a).published ++
      publishedIn (trackerStep formatFloat s a) as

variable (formatFloat) in
/-- The key is in every snapshot. -/
def InEvery (k : String) (actions : List TrackerAction) : Prop :=
  ∀ current now reasons order, .reconcile current now reasons order ∈ actions →
    k ∈ (snapshotEvents current).map (eventKey formatFloat)

variable (formatFloat) in
/-- A state of the key is among the events. -/
def Asserted (k : String) (evs : List Event) : Prop :=
  ∃ ev ∈ evs, ev.kind = .entityState ∧ eventKey formatFloat ev = k

/-- A call that withholds a state comes less than a period after the last due call, and is not
due itself. -/
theorem GridInv.withheld (hr : 0 < r)
    (h : GridInv r times b.run.tracker b.due) {current : List StateEvent}
    {reasons : AssocMap String String} {order : RangeOrder}
    (hk : k ∈ (snapshotEvents current).map (eventKey formatFloat))
    (hout : ¬ Asserted formatFloat k (b.run.tracker.reconcile formatFloat order
      (snapshotEvents current) now reasons).2) :
    (∃ last, b.due = some last ∧ now < last + r) ∧
      (beatStep formatFloat b (.reconcile current now reasons order)).due = b.due := by
  have hpos : 0 < b.run.tracker.refresh := h.refresh ▸ hr
  have hstates : ∀ ev ∈ ((b.run.tracker.tick now).observeAll formatFloat now
      (b.run.tracker.gridDue now) (snapshotEvents current)).2, ev.kind = .entityState :=
    observeAll_states now _ _ (snapshotEvents_states current)
  obtain ⟨-, hticks, hticked, -⟩ := tick_frame b.run.tracker now
  obtain ⟨hno, hpub⟩ := observeAll_withheld now (b.run.tracker.gridDue now)
    (snapshotEvents current) (t := b.run.tracker.tick now) (hticked ▸ hpos) hk
    (fun ev hev hkey => hout ⟨ev, List.mem_append_left _ hev, hstates ev hev, hkey⟩)
  rw [hticks] at hpub
  have hset : b.run.tracker.grid ≠ zeroTime := fun hidle => hpub ((h.idle hidle).2.1 k)
  obtain ⟨last, -, hlast, hafter, hlow, hhigh⟩ := h.beat hset
  have hslot : b.run.tracker.nextGrid ≠ zeroTime := by
    obtain ⟨hquarter, -⟩ := quarter_lt hr
    exact Int.ne_of_gt (Int.lt_trans hafter (Int.lt_of_le_of_lt
      (Int.le_add_of_nonneg_right hquarter) hlow))
  constructor
  · refine ⟨last, hlast, ?_⟩
    rcases tick_nextGrid hpos now with ⟨hyes, -⟩ | ⟨-, -, hearly⟩
    · exact absurd (hno.symm.trans hyes) (by decide)
    · have hless := Int.lt_of_lt_of_le (hearly hslot) hhigh
      rw [h.refresh] at hless
      exact Int.lt_of_add_lt_add_right hless
  · exact if_neg (by simp [hno, hset])

/-- While a key is withheld, the calls come less than a period after the last due one. -/
theorem withheld_window (hr : 0 < r) (window : List TrackerAction) :
    ∀ {times : List Instant} {b : Beats}, GridInv r times b.run.tracker b.due →
      (∀ t ∈ callTimes window, zeroTime < t) → InEvery formatFloat k window →
      ¬ Asserted formatFloat k (publishedIn formatFloat b.run window) →
      ∀ c ∈ callTimes window, ∃ last, b.due = some last ∧ c < last + r := by
  induction window with
  | nil =>
    intro times b _ _ _ _ c hc
    cases hc
  | cons a window ih =>
    intro times b h hafter hin hout c hc
    have hrest : InEvery formatFloat k window :=
      fun current now reasons order hmem =>
        hin current now reasons order (List.mem_cons_of_mem _ hmem)
    have hlater : ¬ Asserted formatFloat k
        (publishedIn formatFloat (trackerStep formatFloat b.run a) window) :=
      fun ⟨ev, hev, hkind, hkey⟩ => hout ⟨ev, List.mem_append_right _ hev, hkind, hkey⟩
    have hnow : ¬ Asserted formatFloat k
        (trackerStep formatFloat { b.run with published := [] } a).published :=
      fun ⟨ev, hev, hkind, hkey⟩ => hout ⟨ev, List.mem_append_left _ hev, hkind, hkey⟩
    cases a with
    | reconcile current now reasons order =>
      have htimes : callTimes (.reconcile current now reasons order :: window) =
          now :: callTimes window := rfl
      rw [htimes] at hafter hc
      rw [List.forall_mem_cons] at hafter
      obtain ⟨hearly, hdue⟩ := h.withheld hr
        (hin current now reasons order (List.mem_cons_self ..)) hnow
      rcases List.mem_cons.mp hc with hc | hc
      · rw [hc]
        exact hearly
      · have hstep := ih (h.reconcile hr hafter.1 current reasons order) hafter.2 hrest hlater c hc
        rw [hdue] at hstep
        exact hstep
    | forget => exact ih (b := beatStep formatFloat b .forget) h.forget hafter hrest hlater c hc

/-- Calls before a window come before it, and there are two calls only if `d` is no less than
zero. -/
theorem Paced.before {d : Duration} {before window : List Instant}
    (h : Paced d (before ++ window)) {last first : Instant} (hlast : last ∈ before)
    (hfirst : window.head? = some first) : last ≤ first ∧ 0 ≤ d := by
  constructor
  · have hordered : (before ++ window).Pairwise (· ≤ ·) :=
      List.isChain_iff_pairwise.mp (h.apart.imp fun _ _ hab => hab.1)
    exact (List.pairwise_append.mp hordered).2.2 last hlast first (List.mem_of_mem_head? hfirst)
  · obtain ⟨x, hx⟩ : ∃ x, before.getLast? = some x :=
      Option.isSome_iff_exists.mp (by
        rw [List.getLast?_isSome]
        exact List.ne_nil_of_mem hlast)
    obtain ⟨hle, hgap⟩ := (List.isChain_append.mp h.apart).2.2 x hx first hfirst
    have hle' : x ≤ x + d := Int.le_trans hle hgap
    exact Int.le_of_add_le_add_left (a := x) (by rwa [Int.add_zero])

theorem span_le {first last due r d : Int} (hless : last < due + r) (hle : due ≤ first)
    (hd : 0 ≤ d) : ¬ r + d < last - first := by omega

end Calls

/-- **The heartbeat gap.** With calls at most `d` apart, an entity in all snapshots of a window
that spans more than `r + d` is published in it; and the next slot is more than a quarter of the
period ahead of the last due call, and at most a period and a quarter. -/
theorem heartbeat_gap (formatFloat : Float → String) {r d : Duration} (hr : 0 < r)
    (actions : List TrackerAction) (hpaced : Paced d (callTimes actions)) :
    (∀ before window after, actions = before ++ window ++ after → ∀ first last,
      (callTimes window).head? = some first → (callTimes window).getLast? = some last →
      r + d < last - first → ∀ k, InEvery formatFloat k window →
      Asserted formatFloat k
        (publishedIn formatFloat (trackerRun formatFloat r before) window)) ∧
    ∀ due, (trackerBeats formatFloat r actions).due = some due →
      due + r.tdiv 4 < (trackerRun formatFloat r actions).tracker.nextGrid ∧
      (trackerRun formatFloat r actions).tracker.nextGrid ≤ due + r + r.tdiv 4 := by
  constructor
  · intro before window after hactions first last hfirst hlast hspan k hin
    by_contra hout
    rw [hactions, callTimes_append, callTimes_append] at hpaced
    have hpaced' : Paced d (callTimes before ++ callTimes window) :=
      ⟨fun t ht => hpaced.after t (List.mem_append_left _ ht), hpaced.apart.left_of_append⟩
    have hinv := gridInv_beats formatFloat hr before
      (fun t ht => hpaced'.after t (List.mem_append_left _ ht))
    rw [← trackerBeats_run] at hout
    obtain ⟨due, hdue, hless⟩ := withheld_window hr window hinv
      (fun t ht => hpaced'.after t (List.mem_append_right _ ht)) hin hout last
      (List.mem_of_mem_getLast? hlast)
    rw [hdue] at hinv
    obtain ⟨hle, hnonneg⟩ := hpaced'.before hinv.of_due.1 hfirst
    exact span_le hless hle hnonneg hspan
  · intro due hdue
    have hinv := gridInv_beats formatFloat hr actions hpaced.after
    rw [trackerBeats_run, hdue] at hinv
    exact hinv.of_due.2

/-- No value of the example is a float. -/
def noFloat : Float → String := fun _ => ""

/-- A host that claims, with some confidence, to be another one. -/
def aliasEvent (confidence name : String) : StateEvent where
  val :=
    { kind := .entityState
      entity :=
        { type := "host"
          id := .single "host.id" (.string "h1")
          attributes := .single "host.name" (.string name)
          relationships :=
            [⟨"same_as", "host", .single "host.id" (.string "h2"),
              .single "confidence" (.string confidence)⟩]
          scope := ""
          observedAt := zeroTime }
      time := zeroTime
      interval := 300000000000
      deleteReason := "" }
  property := rfl

/-- The loop order of a map with at most one key. -/
def asListed : RangeOrder := ⟨id, fun _ => List.Perm.refl _⟩

/-- Six calls, a minute apart, with one entity that never changes. -/
def steady : List TrackerAction :=
  [1000, 1060, 1120, 1180, 1240, 1300].map fun s =>
    .reconcile [aliasEvent "0.5" "web"] (s * 1000000000) ∅ asListed

theorem heartbeat_gap_steady :
    Asserted noFloat (eventKey noFloat (aliasEvent "0.5" "web").val)
      (publishedIn noFloat (trackerRun noFloat 120000000000 (steady.take 1)) (steady.drop 1)) := by
  have hpaced : Paced 60000000000 (callTimes steady) := ⟨by decide, by decide⟩
  refine (heartbeat_gap noFloat (by decide) steady hpaced).1 (steady.take 1) (steady.drop 1) [] rfl
    1060000000000 1300000000000 rfl rfl (by decide) _ ?_
  intro current now reasons order hmem
  obtain ⟨s, -, hs⟩ := List.mem_map.mp (List.mem_of_mem_drop hmem)
  cases hs
  exact List.mem_singleton_self _

end SenhubAgent.Entities

import SenhubAgent.Entities.Tracker

/-!
# Entity lifecycles at the consumer

A consumer sees, for each key, a sequence of states and deletes. `aliveAfter`
replays one; `Alternates` says the sequence is well formed: a delete comes only
while the entity is alive, so between two deletes of a key there is a state. The
results are over every run of `Reconcile` and `Forget` calls, with any snapshots
(a key may occur twice in one), times, reasons and loop orders.
-/

namespace SenhubAgent.Entities

open SenhubAgent.Lib

section Consumer

variable (formatFloat : Float → String) (k : String)

/-- Whether the entity `k` is alive once the events are replayed. -/
def aliveAfter : Bool → List Event → Bool
  | alive, [] => alive
  | alive, ev :: evs =>
    if eventKey formatFloat ev = k then aliveAfter (decide (ev.kind = .entityState)) evs
    else aliveAfter alive evs

/-- A delete of `k` is published only while it is alive. -/
def Alternates : Bool → List Event → Prop
  | _, [] => True
  | alive, ev :: evs =>
    if eventKey formatFloat ev = k then
      (ev.kind = .entityDelete → alive = true) ∧ Alternates (decide (ev.kind = .entityState)) evs
    else Alternates alive evs

/-- The deletes of `k` among the events. -/
def deletesOf (evs : List Event) : Nat :=
  evs.countP fun ev => decide (ev.kind = .entityDelete) && decide (eventKey formatFloat ev = k)

theorem aliveAfter_append :
    ∀ (evs evs' : List Event) (alive : Bool), aliveAfter formatFloat k alive (evs ++ evs')
      = aliveAfter formatFloat k (aliveAfter formatFloat k alive evs) evs' := by
  intro evs evs'
  induction evs with
  | nil => intro alive; rfl
  | cons ev evs ih =>
    intro alive
    simp only [List.cons_append, aliveAfter]
    split
    next => exact ih _
    next => exact ih _

theorem alternates_append :
    ∀ (evs evs' : List Event) (alive : Bool), Alternates formatFloat k alive evs →
      Alternates formatFloat k (aliveAfter formatFloat k alive evs) evs' →
      Alternates formatFloat k alive (evs ++ evs') := by
  intro evs evs'
  induction evs with
  | nil => intro alive _ h; exact h
  | cons ev evs ih =>
    intro alive h h'
    simp only [List.cons_append, Alternates, aliveAfter] at h h' ⊢
    split
    next hk =>
      rw [if_pos hk] at h h'
      exact ⟨h.1, ih _ h.2 h'⟩
    next hk =>
      rw [if_neg hk] at h h'
      exact ih _ h h'

end Consumer

section Run

variable {formatFloat : Float → String}

/-- Stamping an event sets its time and nothing else. -/
theorem stamp_eq (ev : Event) (now : Instant) : ∃ t, ev.stamp now = { ev with time := t } := by
  unfold Event.stamp
  split
  next =>
    split
    next => exact ⟨ev.entity.observedAt, rfl⟩
    next =>
      split
      next => exact ⟨now, rfl⟩
      next => exact ⟨ev.time, rfl⟩
  next => exact ⟨ev.time, rfl⟩

theorem eventKey_stamp (ev : Event) (now : Instant) :
    eventKey formatFloat (ev.stamp now) = eventKey formatFloat ev := by
  obtain ⟨t, ht⟩ := stamp_eq ev now
  rw [ht]
  rfl

theorem kind_stamp (ev : Event) (now : Instant) : (ev.stamp now).kind = ev.kind := by
  obtain ⟨t, ht⟩ := stamp_eq ev now
  rw [ht]

@[simp] theorem kind_deletedAt (del : Event) (now : Instant) (reason : String) :
    (del.deletedAt now reason).kind = del.kind := rfl

@[simp] theorem eventKey_deletedAt (del : Event) (now : Instant) (reason : String) :
    eventKey formatFloat (del.deletedAt now reason) = eventKey formatFloat del := rfl

/-! ## The invariant -/

/-- The tracker agrees with a consumer for which `alive` holds. -/
structure TrackerInv (formatFloat : Float → String) (t : Tracker) (alive : String → Bool) :
    Prop where
  seen : ∀ k, k ∈ t.seen ↔ alive k = true
  pub : ∀ k, k ∈ t.pub → k ∈ t.seen
  ready : ∀ k del, t.seen.lookup k = some del →
    del.kind = .entityDelete ∧ eventKey formatFloat del = k

/-- What a part of a call does to the tracker and to the consumer. -/
structure Keeps (formatFloat : Float → String) (alive : String → Bool) (t' : Tracker)
    (out : List Event) : Prop where
  inv : TrackerInv formatFloat t' fun k => aliveAfter formatFloat k (alive k) out
  alternates : ∀ k, Alternates formatFloat k (alive k) out

variable {alive : String → Bool} {t : Tracker} {ev : Event} {current : List Event}

theorem trackerInv_tick (h : TrackerInv formatFloat t alive) (now : Instant) :
    TrackerInv formatFloat (t.tick now) alive := by
  unfold Tracker.tick
  split
  next => exact ⟨h.seen, h.pub, h.ready⟩
  next => exact h

/-- A due slot moves the grid on and touches nothing else. -/
theorem tick_frame (t : Tracker) (now : Instant) :
    (t.tick now).seen = t.seen ∧ (t.tick now).pub = t.pub ∧ (t.tick now).refresh = t.refresh ∧
      (t.tick now).grid = t.grid := by
  unfold Tracker.tick
  split
  next => exact ⟨rfl, rfl, rfl, rfl⟩
  next => exact ⟨rfl, rfl, rfl, rfl⟩

theorem mem_see (t : Tracker) (ev : Event) (k : String) :
    k ∈ (t.see formatFloat ev).seen ↔ k = eventKey formatFloat ev ∨ k ∈ t.seen :=
  AList.mem_insert _

/-- The delete held ready under each key, after one more state. -/
theorem ready_see (h : TrackerInv formatFloat t alive) (ev : Event) :
    ∀ k del, (t.see formatFloat ev).seen.lookup k = some del →
      del.kind = .entityDelete ∧ eventKey formatFloat del = k := by
  intro k del hlook
  obtain ⟨rfl, rfl⟩ | hold := lookup_of_insert hlook
  · exact ⟨rfl, eventKey_deleteFor formatFloat ev⟩
  · exact h.ready k del hold

/-- A published state makes its key alive, and no other. -/
theorem aliveAfter_state (hev : ev.kind = .entityState) (k : String) (alive : Bool) :
    aliveAfter formatFloat k alive [ev] = (decide (k = eventKey formatFloat ev) || alive) := by
  simp only [aliveAfter, hev, decide_true]
  by_cases hk : eventKey formatFloat ev = k
  · simp [hk]
  · simp [hk, Ne.symm hk]

theorem observe_keeps (h : TrackerInv formatFloat t alive) (now : Instant) (gridDue : Bool)
    (hev : ev.kind = .entityState) :
    Keeps formatFloat alive (t.observe formatFloat now gridDue ev).1
      (t.observe formatFloat now gridDue ev).2 := by
  unfold Tracker.observe
  split
  next hsuppressed =>
    -- suppressed: `pub` remembers the key, so the entity is alive already
    have hin : eventKey formatFloat ev ∈ t.seen := by
      apply h.pub
      have hsame := hsuppressed.2.1
      unfold Tracker.changed at hsame
      split at hsame
      next => cases hsame
      next p hp => exact mem_of_lookup hp
    refine ⟨⟨fun k => ?_, fun k hk => ?_, ready_see h ev⟩, fun k => trivial⟩
    · rw [mem_see]
      show _ ↔ alive k = true
      rw [← h.seen k]
      constructor
      · rintro (rfl | hk)
        · exact hin
        · exact hk
      · exact Or.inr
    · exact (mem_see t ev k).mpr (Or.inr (h.pub k hk))
  next =>
    refine ⟨⟨fun k => ?_, fun k hk => ?_, ready_see h ev⟩, fun k => ?_⟩
    · rw [aliveAfter_state hev, Bool.or_eq_true, decide_eq_true_eq, ← h.seen k]
      exact mem_see t ev k
    · have hpub : k ∈ t.pub.insert (eventKey formatFloat ev) ⟨stateHash formatFloat ev, now⟩ := hk
      apply (mem_see t ev k).mpr
      rcases AList.mem_insert _ |>.mp hpub with heq | hold
      · exact Or.inl heq
      · exact Or.inr (h.pub k hold)
    · unfold Alternates
      split
      next => exact ⟨fun hdel => absurd (hev.symm.trans hdel) (by decide), trivial⟩
      next => trivial

theorem Keeps.trans {t' : Tracker} {out out' : List Event} (h : Keeps formatFloat alive t out)
    (h' : Keeps formatFloat (fun k => aliveAfter formatFloat k (alive k) out) t' out') :
    Keeps formatFloat alive t' (out ++ out') where
  inv := by
    have hinv := h'.inv
    simp only [← aliveAfter_append] at hinv
    exact hinv
  alternates := fun k =>
    alternates_append formatFloat k out out' (alive k) (h.alternates k) (h'.alternates k)

/-- The loop over the snapshot. -/
theorem observeAll_keeps (now : Instant) (gridDue : Bool) :
    ∀ (current : List Event) {t : Tracker} {alive : String → Bool},
      TrackerInv formatFloat t alive → (∀ ev ∈ current, ev.kind = .entityState) →
      Keeps formatFloat alive (t.observeAll formatFloat now gridDue current).1
        (t.observeAll formatFloat now gridDue current).2 := by
  intro current
  induction current with
  | nil => intro t alive h _; exact ⟨h, fun _ => trivial⟩
  | cons ev evs ih =>
    intro t alive h hstates
    have hev : (ev.stamp now).kind = .entityState := by
      rw [kind_stamp]
      exact hstates ev (List.mem_cons_self ..)
    have hone := observe_keeps h now gridDue hev
    exact hone.trans (ih hone.inv fun ev' hev' => hstates ev' (List.mem_cons_of_mem _ hev'))

/-- One state is held ready for its delete, and published or not. -/
theorem observe_frame (t : Tracker) (now : Instant) (gridDue : Bool) (ev : Event) :
    (t.observe formatFloat now gridDue ev).1.refresh = t.refresh ∧
      (∀ k, k ∈ (t.observe formatFloat now gridDue ev).1.seen
        ↔ k = eventKey formatFloat ev ∨ k ∈ t.seen) ∧
      ∀ ev' ∈ (t.observe formatFloat now gridDue ev).2, ev' = ev := by
  unfold Tracker.observe
  split
  next => exact ⟨rfl, mem_see t ev, nofun⟩
  next => exact ⟨rfl, mem_see t ev, fun _ hev' => List.mem_singleton.mp hev'⟩

variable (formatFloat) in
/-- Everything in the snapshot is held ready for its delete, with what was there, and what is
published is of the snapshot. -/
theorem observeAll_frame (now : Instant) (gridDue : Bool) :
    ∀ (current : List Event) (t : Tracker),
      (t.observeAll formatFloat now gridDue current).1.refresh = t.refresh ∧
      (∀ k, k ∈ (t.observeAll formatFloat now gridDue current).1.seen
        ↔ k ∈ current.map (eventKey formatFloat) ∨ k ∈ t.seen) ∧
      ∀ ev ∈ (t.observeAll formatFloat now gridDue current).2, ∃ ev' ∈ current, ev = ev'.stamp now := by
  intro current
  induction current with
  | nil => intro t; exact ⟨rfl, by simp [Tracker.observeAll], nofun⟩
  | cons ev evs ih =>
    intro t
    obtain ⟨hrefresh, hseen, hout⟩ := observe_frame t now gridDue (ev.stamp now)
    obtain ⟨hrefresh', hseen', hout'⟩ := ih (t.observe formatFloat now gridDue (ev.stamp now)).1
    refine ⟨hrefresh'.trans hrefresh, fun k => (hseen' k).trans ?_, fun ev' hev' => ?_⟩
    · rw [hseen, eventKey_stamp, List.map_cons, List.mem_cons]
      tauto
    · rcases List.mem_append.mp hev' with hone | hrest
      · exact ⟨ev, List.mem_cons_self, hout ev' hone⟩
      · obtain ⟨ev₀, hin, heq⟩ := hout' ev' hrest
        exact ⟨ev₀, List.mem_cons_of_mem _ hin, heq⟩

/-- The snapshot loop publishes no delete. -/
theorem observeAll_states (now : Instant) (gridDue : Bool) (t : Tracker)
    (hstates : ∀ ev ∈ current, ev.kind = .entityState) :
    ∀ ev ∈ (t.observeAll formatFloat now gridDue current).2, ev.kind = .entityState := by
  intro ev hev
  obtain ⟨ev', hin, rfl⟩ := (observeAll_frame formatFloat now gridDue current t).2.2 ev hev
  rw [kind_stamp]
  exact hstates ev' hin

/-! ## Deletes -/

/-- The delete of one key that left the snapshot. -/
theorem dropKey_keeps (h : TrackerInv formatFloat t alive) {k : String} (hk : k ∈ t.seen)
    {del : Event} (hkind : del.kind = .entityDelete) (hkey : eventKey formatFloat del = k) :
    Keeps formatFloat alive (t.dropKey k) [del] := by
  have hgone : ∀ k', k' ∈ (t.dropKey k).seen ↔ k' ≠ k ∧ k' ∈ t.seen := fun k' => AList.mem_erase
  refine ⟨⟨fun k' => ?_, fun k' hk' => ?_, fun k' del' hlook => ?_⟩, fun k' => ?_⟩
  · rw [hgone, h.seen k']
    simp only [aliveAfter, hkey, hkind]
    by_cases hkk : k = k'
    · simp [hkk]
    · simp [hkk, Ne.symm hkk]
  · have hpub : k' ∈ t.pub.erase k := hk'
    rw [AList.mem_erase] at hpub
    exact (hgone k').mpr ⟨hpub.1, h.pub k' hpub.2⟩
  · exact h.ready k' del' (lookup_of_erase hlook)
  · simp only [Alternates, hkey]
    split
    next hkk => exact ⟨fun _ => hkk ▸ (h.seen k).mp hk, trivial⟩
    next => trivial

section Retire

variable (now : Instant) (cur : List String) (reasons : AssocMap String String)

/-- The loop passes over a key, or publishes its delete and forgets it. -/
theorem retire_cons (k : String) (order : List String) (t : Tracker) :
    (t.retire now cur reasons (k :: order) = t.retire now cur reasons order ∧
      (k ∈ t.seen → k ∈ cur)) ∨
    ∃ del, t.seen.lookup k = some del ∧ k ∉ cur ∧ t.retire now cur reasons (k :: order) =
      (((t.dropKey k).retire now cur reasons order).1,
        del.deletedAt now (deleteReasonFor reasons k) ::
          ((t.dropKey k).retire now cur reasons order).2) := by
  rw [Tracker.retire]
  split
  next hnone => exact .inl ⟨rfl, fun hk => absurd hk (AList.lookup_eq_none.mp hnone)⟩
  next del hdel =>
    split
    next hcur => exact .inl ⟨rfl, fun _ => hcur⟩
    next hcur => exact .inr ⟨del, hdel, hcur, rfl⟩

/-- The deleting loop, in whatever order it visits the keys. It leaves the keys of the snapshot and
those it did not visit, and deletes a key once: it forgets the key as it publishes. -/
theorem retire_keeps :
    ∀ (order : List String) {t : Tracker} {alive : String → Bool}, TrackerInv formatFloat t alive →
      Keeps formatFloat alive (t.retire now cur reasons order).1
        (t.retire now cur reasons order).2 ∧
      ∀ k, (k ∈ (t.retire now cur reasons order).1.seen ↔ k ∈ t.seen ∧ (k ∈ order → k ∈ cur)) ∧
        deletesOf formatFloat k (t.retire now cur reasons order).2
          = if k ∈ t.seen ∧ k ∈ order ∧ k ∉ cur then 1 else 0 := by
  intro order
  induction order with
  | nil => intro t alive h; exact ⟨⟨h, fun _ => trivial⟩, by simp [Tracker.retire, deletesOf]⟩
  | cons k' order ih =>
    intro t alive h
    rcases retire_cons now cur reasons k' order t with ⟨heq, hskip⟩ | ⟨del, hdel, hcur, heq⟩
    · obtain ⟨hkeeps, hrest⟩ := ih h
      rw [heq]
      refine ⟨hkeeps, fun k => ?_⟩
      have hk : k = k' → k ∈ t.seen → k ∈ cur := by
        rintro rfl
        exact hskip
      have hin : k ∈ k' :: order ↔ k = k' ∨ k ∈ order := List.mem_cons
      rw [(hrest k).1, (hrest k).2]
      exact ⟨by tauto, if_congr (by tauto) rfl rfl⟩
    · -- the delete held under `k'` is a delete of `k'`, and `k'` is alive
      have hready := h.ready k' del hdel
      have hmem := mem_of_lookup hdel
      have hone : Keeps formatFloat alive (t.dropKey k')
          [del.deletedAt now (deleteReasonFor reasons k')] :=
        dropKey_keeps h hmem hready.1 hready.2
      obtain ⟨hkeeps, hrest⟩ := ih hone.inv
      rw [heq]
      refine ⟨hone.trans hkeeps, fun k => ?_⟩
      have hseen : k ∈ (t.dropKey k').seen ↔ k ≠ k' ∧ k ∈ t.seen := AList.mem_erase
      obtain ⟨hleft, hdeletes⟩ := hrest k
      unfold deletesOf at hdeletes ⊢
      rw [hleft, hseen, List.countP_cons, hdeletes]
      -- dropping the key is what keeps a second visit from publishing again
      by_cases hkk : k = k'
      · subst hkk
        simp [hseen, hmem, hcur, hready]
      · simp [hseen, hready.2, hkk, Ne.symm hkk]

end Retire

/-! ## A call -/

/-- After a call, exactly the keys of its snapshot are held. Its deletes: none for a key of the
snapshot, one for each key that left it. -/
theorem reconcile_keeps (h : TrackerInv formatFloat t alive) (order : RangeOrder)
    (hstates : ∀ ev ∈ current, ev.kind = .entityState) (now : Instant)
    (reasons : AssocMap String String) :
    Keeps formatFloat alive (t.reconcile formatFloat order current now reasons).1
      (t.reconcile formatFloat order current now reasons).2 ∧
    ∀ k, (k ∈ (t.reconcile formatFloat order current now reasons).1.seen
        ↔ k ∈ current.map (eventKey formatFloat)) ∧
      deletesOf formatFloat k (t.reconcile formatFloat order current now reasons).2
        = if k ∈ t.seen ∧ k ∉ current.map (eventKey formatFloat) then 1 else 0 := by
  have hobs := observeAll_keeps now (t.gridDue now) current (trackerInv_tick h now) hstates
  obtain ⟨hkeeps, hretire⟩ := retire_keeps now (current.map (eventKey formatFloat)) reasons
    (order.visit ((t.tick now).observeAll formatFloat now (t.gridDue now) current).1.seen.keys)
    hobs.inv
  refine ⟨hobs.trans hkeeps, fun k => ?_⟩
  obtain ⟨hleft, hdeletes⟩ := hretire k
  have hseen := (observeAll_frame formatFloat now (t.gridDue now) current (t.tick now)).2.1 k
  have hvisited := ((order.perm _).mem_iff.trans AList.mem_keys.symm).trans hseen
  rw [(tick_frame t now).1] at hseen hvisited
  refine ⟨hleft.trans (by tauto), ?_⟩
  have hnone : deletesOf formatFloat k
      ((t.tick now).observeAll formatFloat now (t.gridDue now) current).2 = 0 := by
    unfold deletesOf
    rw [List.countP_eq_zero]
    intro ev hev
    simp [observeAll_states now _ _ hstates ev hev]
  show deletesOf formatFloat k (_ ++ _) = _
  unfold deletesOf at hnone hdeletes ⊢
  rw [List.countP_append, hnone, Nat.zero_add, hdeletes]
  exact if_congr (by tauto) rfl rfl

/-! ## Runs -/

inductive TrackerAction where
  | reconcile (current : List StateEvent) (now : Instant) (reasons : AssocMap String String)
    (order : RangeOrder)
  | forget

/-- The tracker, the last snapshot it was given and all it has published. -/
structure TrackerRun where
  tracker : Tracker
  last : List Event
  published : List Event

/-- The events of a snapshot. -/
def snapshotEvents (current : List StateEvent) : List Event := current.map Subtype.val

theorem snapshotEvents_states (current : List StateEvent) :
    ∀ ev ∈ snapshotEvents current, ev.kind = .entityState := by
  intro ev hev
  obtain ⟨se, _, rfl⟩ := List.mem_map.mp hev
  exact se.2

variable (formatFloat)

def trackerStep (s : TrackerRun) : TrackerAction → TrackerRun
  | .reconcile current now reasons order =>
    let (t, out) := s.tracker.reconcile formatFloat order (snapshotEvents current) now reasons
    ⟨t, snapshotEvents current, s.published ++ out⟩
  | .forget => { s with tracker := s.tracker.forget }

def trackerRun (refresh : Duration) (actions : List TrackerAction) : TrackerRun :=
  actions.foldl (trackerStep formatFloat) ⟨newTracker refresh, [], []⟩

variable {formatFloat}

structure RunInv (formatFloat : Float → String) (s : TrackerRun) : Prop where
  tracker : TrackerInv formatFloat s.tracker fun k => aliveAfter formatFloat k false s.published
  alternates : ∀ k, Alternates formatFloat k false s.published
  last : ∀ k, k ∈ s.tracker.seen ↔ k ∈ s.last.map (eventKey formatFloat)

theorem runInv_start (refresh : Duration) :
    RunInv formatFloat ⟨newTracker refresh, [], []⟩ where
  tracker := by
    refine ⟨fun k => ?_, fun k hk => ?_, fun k del hdel => ?_⟩
    · exact ⟨fun hin => absurd hin (AList.notMem_empty _), fun hf => nomatch hf⟩
    · exact absurd hk (AList.notMem_empty _)
    · cases hdel
  alternates := fun _ => trivial
  last := fun k => ⟨fun hin => absurd hin (AList.notMem_empty _), fun hin => nomatch hin⟩

theorem trackerStep_inv {s : TrackerRun} (h : RunInv formatFloat s) (a : TrackerAction) :
    RunInv formatFloat (trackerStep formatFloat s a) := by
  cases a with
  | reconcile current now reasons order =>
    obtain ⟨hkeeps, hcall⟩ :=
      reconcile_keeps h.tracker order (snapshotEvents_states current) now reasons
    refine ⟨?_, fun k => ?_, fun k => ?_⟩
    · have hinv := hkeeps.inv
      simp only [← aliveAfter_append] at hinv
      exact hinv
    · exact alternates_append formatFloat k _ _ false (h.alternates k) (hkeeps.alternates k)
    · exact (hcall k).1
  | forget =>
    refine ⟨⟨h.tracker.seen, fun k hk => ?_, h.tracker.ready⟩, h.alternates, h.last⟩
    exact absurd hk (AList.notMem_empty _)

theorem trackerRun_inv (refresh : Duration) (actions : List TrackerAction) :
    RunInv formatFloat (trackerRun formatFloat refresh actions) :=
  List.foldlRecOn actions (trackerStep formatFloat) (runInv_start refresh)
    fun _ h a _ => trackerStep_inv h a

/-- **Lifecycle exactness.** After every run, replaying what was published leaves
exactly the keys of the last snapshot alive, and each key's events alternate. A
further call publishes no delete for a key of its snapshot, one delete for each key
that left it, and no other. -/
theorem trackerRun_lifecycle (formatFloat : Float → String) (refresh : Duration)
    (actions : List TrackerAction) :
    let s := trackerRun formatFloat refresh actions
    (∀ k, aliveAfter formatFloat k false s.published = true
      ↔ k ∈ s.last.map (eventKey formatFloat)) ∧
    (∀ k, Alternates formatFloat k false s.published) ∧
    ∀ (current : List StateEvent) (now : Instant) (reasons : AssocMap String String)
      (order : RangeOrder) (k : String),
      let keys := (snapshotEvents current).map (eventKey formatFloat)
      let out := (s.tracker.reconcile formatFloat order (snapshotEvents current) now reasons).2
      deletesOf formatFloat k out
        = if k ∈ s.last.map (eventKey formatFloat) ∧ k ∉ keys then 1 else 0 := by
  have h : RunInv formatFloat (trackerRun formatFloat refresh actions) :=
    trackerRun_inv refresh actions
  refine ⟨fun k => ?_, h.alternates, fun current now reasons order k => ?_⟩
  · rw [← h.last k]
    exact (h.tracker.seen k).symm
  · simp only [← h.last k]
    exact ((reconcile_keeps h.tracker order (snapshotEvents_states current) now reasons).2 k).2

end Run

end SenhubAgent.Entities

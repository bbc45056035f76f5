import SenhubAgent.DataStore.EventSize

/-!
# An event sync neither blocks nor stalls

What a `doSync` should do beside the producers: never wait on the buffer, send requests within
`syncTriggerSize` and `syncTriggerBytes`, and empty the buffer in finitely many calls once the server
accepts and the producers are quiet. Each part fails on a path of its own:

* the event put back at the byte limit is sent with a plain send, and waits where producers have taken
  its slot (`putBack_blocks`);
* the retry backlog is put before the events of the buffer and counts for neither limit;
* an event above `syncTriggerBytes` is put back by every sync.

`sync_progresses` says that these are all.
-/

namespace SenhubAgent.DataStore.EventOutput

open SenhubAgent.Lib

section

variable {V : Type}

/-! ## The property -/

/-- The limits of a request. -/
def Strategy.Limited (st : Strategy V) (events : List (EventDataPoint V)) : Prop :=
  (events.length ≤ st.syncTriggerSize ∧ st.bytes events ≤ st.syncTriggerBytes) ∨ events.length = 1

/-- A `doSync` from a phase to its return, with nothing else going on and every request answered by
`reply`. -/
inductive Completes (st : Strategy V) (reply : Reply) : Work V → Sync V → Work V → Prop
  | returns {w w' : Work V} {phase : Sync V} {failed : Bool}
      (step : syncStep st reply w phase = some (w', .returns failed)) : Completes st reply w phase w'
  | goes {w w₁ w' : Work V} {phase phase' : Sync V}
      (step : syncStep st reply w phase = some (w₁, .goes phase'))
      (rest : Completes st reply w₁ phase' w') : Completes st reply w phase w'

/-- `n` calls of `doSync`, one after the other. -/
def Syncs (st : Strategy V) (reply : Reply) : Nat → Work V → Work V → Prop
  | 0, w, w' => w = w'
  | n + 1, w, w' => ∃ w₁, Completes st reply w .begun w₁ ∧ Syncs st reply n w₁ w'

structure Progresses (st : Strategy V) (sys : System V) : Prop where
  /-- No sync waits on the buffer. -/
  moves : ∀ phase ∈ sys.syncs, ∀ reply, syncStep st reply sys.work phase ≠ none
  /-- Every request is within the limits. -/
  limited : ∀ events attempt, .sending events attempt ∈ sys.syncs → st.Limited events
  /-- With the producers quiet and a server that accepts, finitely many syncs deliver the backlog and
  the buffer. -/
  delivers : sys.Idle → ∀ reply : Reply, reply.result = .accepted →
    ∃ n w', Syncs st reply n sys.work w' ∧ w'.buffer.buf = [] ∧
      w'.delivered.Perm
        (sys.work.delivered ++ (sys.work.failedEvents.items ++ sys.work.buffer.buf))

/-! ## When it holds -/

/-- An event above no limit. -/
def Strategy.Small (st : Strategy V) (evt : EventDataPoint V) : Prop :=
  ∀ n ∈ st.marshal evt, n ≤ st.syncTriggerBytes

/-- An event a request has room for. -/
def Strategy.Fits (st : Strategy V) (evt : EventDataPoint V) : Prop :=
  ∃ n ∈ st.marshal evt, n ≤ st.syncTriggerBytes

/-- `json.Marshal` takes the event. -/
def Strategy.Encodes (st : Strategy V) (evt : EventDataPoint V) : Prop :=
  (st.marshal evt).isSome = true

/-- The sync holds an event that it has to put back. -/
def Sync.inHand : Sync V → Nat
  | .putBack _ _ _ => 1
  | _ => 0

def System.inHand (sys : System V) : Nat := (sys.syncs.map Sync.inHand).sum

/-- A send leaves the slots free that the syncs in progress put their events back to. -/
def LeavesSlot (sys : System V) : Call V → Prop
  | .offer _ _ | .resend _ =>
    sys.work.buffer.buf.length < sys.work.buffer.cap →
      sys.work.buffer.buf.length + sys.inHand < sys.work.buffer.cap
  | _ => True

/-- A sync begins with a backlog within the limits, and takes no event from the buffer with which its
batch, the backlog counted, exceeds `syncTriggerBytes`. -/
def CountsBacklog (st : Strategy V) (sys : System V) : Sync V → Prop
  | .begun =>
    sys.work.failedEvents.items = [] ∨ st.Limited sys.work.failedEvents.items
  | .receive events size =>
    ∀ evt ∈ sys.work.buffer.buf.head?, ∀ n ∈ st.marshal evt, size + n ≤ st.syncTriggerBytes →
      st.bytes events + n ≤ st.syncTriggerBytes
  | _ => True

def Steady (st : Strategy V) (sys : System V) (a : Action V) : Prop :=
  Admitted st.Small LeavesSlot (CountsBacklog st) sys a

/-! ## A sync by itself -/

variable {st : Strategy V} {reply : Reply}

def Work.setBuf (w : Work V) (buf : List (EventDataPoint V)) : Work V :=
  { w with buffer := { w.buffer with buf := buf } }

/-- What the collection loop makes of the batch and the buffer, by itself. -/
structure Collected (st : Strategy V) (reply : Reply) (w : Work V) (events buf : List (EventDataPoint V))
    (size : Nat) (events' buf' : List (EventDataPoint V)) (size' : Nat) : Prop where
  completes : ∀ w', Completes st reply (w.setBuf buf') (.collected events' size') w' →
    Completes st reply (w.setBuf buf) (.loop events size) w'
  perm : (events' ++ buf').Perm (events ++ buf)
  mem : ∀ e ∈ buf', e ∈ buf
  length : buf'.length ≤ buf.length

variable {events buf rest : List (EventDataPoint V)} {size n size' : Nat} {w w' : Work V}
    {e evt : EventDataPoint V} {phase : Sync V} {sys : System V}

theorem loop_stops (h : ¬(events.length < st.syncTriggerSize ∧ 0 < buf.length)) :
    Collected st reply w events buf size events buf size where
  completes w' hcompletes := by
    refine .goes ?_ hcompletes
    exact if_neg h
  perm := .refl _
  mem _ he := he
  length := Nat.le_refl _

/-- The loop goes to its receive, which takes the head of the buffer out. -/
theorem loop_receives (reply : Reply) (w : Work V) (rest : List (EventDataPoint V)) (size : Nat)
    (hsize : events.length < st.syncTriggerSize) (hn : st.marshal e = some n) :
    (∀ {w' : Work V}, Completes st reply (w.setBuf (e :: rest)) (.receive events size) w' →
      Completes st reply (w.setBuf (e :: rest)) (.loop events size) w') ∧
    syncStep st reply (w.setBuf (e :: rest)) (.receive events size)
      = some (w.setBuf rest,
          if st.syncTriggerBytes < size + n then .goes (.putBack events size e)
          else .goes (.loop (events ++ [e]) (size + n))) := by
  refine ⟨fun h => .goes ?_ h, ?_⟩
  · unfold syncStep
    exact if_pos ⟨hsize, Nat.succ_pos _⟩
  · unfold syncStep
    simp only [Work.setBuf, Chan.tryRecv, hn]
    split
    next => rfl
    next => rfl

/-- The event that does not fit is put back: its slot is free. -/
theorem loop_putsBack (hsize : events.length < st.syncTriggerSize) (hn : st.marshal e = some n)
    (hover : st.syncTriggerBytes < size + n) (hcap : (e :: rest).length ≤ w.buffer.cap) :
    Collected st reply w events (e :: rest) size events (rest ++ [e]) size where
  completes w' hcompletes := by
    obtain ⟨hloop, hreceive⟩ := loop_receives reply w rest size hsize hn
    rw [if_pos hover] at hreceive
    refine hloop (.goes hreceive (.goes ?_ hcompletes))
    have hroom : rest.length < w.buffer.cap := Nat.lt_of_succ_le hcap
    simp [syncStep, Work.setBuf, Chan.trySend, hroom]
  perm := (List.perm_append_singleton e rest).append_left events
  mem _ he := (List.perm_append_singleton e rest).subset he
  length := by simp

/-- The event that fits joins the batch. -/
theorem Collected.takes {events' buf' : List (EventDataPoint V)}
    (hsize : events.length < st.syncTriggerSize) (hn : st.marshal e = some n)
    (hfits : size + n ≤ st.syncTriggerBytes)
    (h : Collected st reply w (events ++ [e]) rest (size + n) events' buf' size') :
    Collected st reply w events (e :: rest) size events' buf' size' where
  completes w' hcompletes := by
    obtain ⟨hloop, hreceive⟩ := loop_receives reply w rest size hsize hn
    rw [if_neg (Nat.not_lt.mpr hfits)] at hreceive
    exact hloop (.goes hreceive (h.completes w' hcompletes))
  perm := by simpa using h.perm
  mem e' he' := List.mem_cons_of_mem _ (h.mem e' he')
  length := Nat.le_succ_of_le h.length

/-- The collection loop by itself gets to its end. -/
theorem loop_collects (reply : Reply) (hcap : buf.length ≤ w.buffer.cap)
    (hfits : ∀ e ∈ buf, st.Fits e) (events : List (EventDataPoint V)) (size : Nat) :
    ∃ events' buf' size', Collected st reply w events buf size events' buf' size' := by
  induction buf generalizing events size with
  | nil => exact ⟨_, _, _, loop_stops fun h => absurd h.2 (Nat.lt_irrefl 0)⟩
  | cons e rest ih =>
    obtain ⟨n, hn, -⟩ := hfits e List.mem_cons_self
    by_cases hsize : events.length < st.syncTriggerSize
    · by_cases hover : st.syncTriggerBytes < size + n
      · exact ⟨_, _, _, loop_putsBack hsize hn hover hcap⟩
      · obtain ⟨events', buf', size', h⟩ := ih (Nat.le_of_succ_le hcap)
          (fun e' he' => hfits e' (List.mem_cons_of_mem _ he')) (events ++ [e]) (size + n)
        exact ⟨_, _, _, h.takes hsize hn (Nat.not_lt.mp hover)⟩
    · exact ⟨_, _, _, loop_stops fun h => hsize h.1⟩

/-- From an empty batch it takes the head of the buffer. -/
theorem loop_takes_head (reply : Reply) (hne : buf ≠ []) (hcap : buf.length ≤ w.buffer.cap)
    (hfits : ∀ e ∈ buf, st.Fits e) (hsize : 0 < st.syncTriggerSize) :
    ∃ events' buf' size', Collected st reply w [] buf 0 events' buf' size' ∧
      buf'.length < buf.length := by
  obtain ⟨e, rest, rfl⟩ := List.exists_cons_of_ne_nil hne
  obtain ⟨n, hn, hsmall⟩ := hfits e List.mem_cons_self
  obtain ⟨events', buf', size', h⟩ := loop_collects reply (Nat.le_of_succ_le hcap)
    (fun e' he' => hfits e' (List.mem_cons_of_mem _ he')) ([] ++ [e]) (0 + n)
  exact ⟨_, _, _, h.takes hsize hn (by omega), Nat.lt_succ_of_le h.length⟩

/-- After the collection the batch is sent, where it is not empty, and the server accepts it. -/
theorem collected_completes (haccepts : reply.result = .accepted)
    (hencodes : ∀ e ∈ events, st.Encodes e) :
    Completes st reply w (.collected events size)
      { w with currentSize := w.currentSize - size, delivered := w.delivered ++ events } := by
  cases events with
  | nil =>
    have hstep : syncStep st reply w (.collected [] size)
        = some ({ w with currentSize := w.currentSize - size, delivered := w.delivered ++ [] },
            .returns false) := by simp [syncStep]
    exact .returns hstep
  | cons e rest =>
    have hsend : st.sendEvents (e :: rest) reply = .accepted := by
      rw [Strategy.sendEvents, if_pos (List.all_eq_true.mpr hencodes), haccepts]
    have hsending : syncStep st reply { w with currentSize := w.currentSize - size }
        (.sending (e :: rest) 0)
        = some ({ w with
            currentSize := w.currentSize - size, delivered := w.delivered ++ (e :: rest) },
            .returns false) := by simp [syncStep, hsend]
    have hcollected : syncStep st reply w (.collected (e :: rest) size)
        = some ({ w with currentSize := w.currentSize - size }, .goes (.sending (e :: rest) 0)) := rfl
    exact .goes hcollected (.returns hsending)

theorem Strategy.Fits.encodes (h : st.Fits e) : st.Encodes e := by
  obtain ⟨n, hn, -⟩ := h
  exact Option.isSome_of_mem hn

/-- What a sync by itself does, given how its collection ends: it sends the backlog and some of the
buffer. -/
structure SentAlone (st : Strategy V) (reply : Reply) (w w' : Work V)
    (sent kept : List (EventDataPoint V)) : Prop where
  completes : Completes st reply w .begun w'
  backlog : w'.failedEvents.items = []
  buffer : w'.buffer = { w.buffer with buf := kept }
  delivered : w'.delivered = w.delivered ++ sent
  perm : (sent ++ kept).Perm (w.failedEvents.items ++ w.buffer.buf)
  mem : ∀ e ∈ kept, e ∈ w.buffer.buf

theorem Collected.sentAlone {sent kept : List (EventDataPoint V)}
    (h : Collected st reply { w with failedEvents := { w.failedEvents with items := [] } }
      w.failedEvents.items w.buffer.buf 0 sent kept size')
    (haccepts : reply.result = .accepted) (hfits : ∀ e ∈ w.buffer.buf, st.Fits e)
    (hencodes : ∀ e ∈ w.failedEvents.items, st.Encodes e) :
    ∃ w', SentAlone st reply w w' sent kept := by
  have hbatch : ∀ e ∈ sent, st.Encodes e := by
    intro e he
    have hmem := h.perm.subset (List.mem_append_left kept he)
    rcases List.mem_append.mp hmem with hmem | hmem
    · exact hencodes e hmem
    · exact (hfits e hmem).encodes
  have hbegun : syncStep st reply w .begun
      = some ({ w with failedEvents := { w.failedEvents with items := [] } },
          .goes (.loop w.failedEvents.items 0)) := rfl
  exact ⟨_, .goes hbegun (h.completes _ (collected_completes haccepts hbatch)), rfl, rfl, rfl, h.perm,
    h.mem⟩

/-- A sync by itself: it returns, and where no backlog is in the way it makes the buffer shorter. -/
theorem sync_alone (hsize : 0 < st.syncTriggerSize) (haccepts : reply.result = .accepted)
    (hcap : w.buffer.buf.length ≤ w.buffer.cap) (hfits : ∀ e ∈ w.buffer.buf, st.Fits e)
    (hencodes : ∀ e ∈ w.failedEvents.items, st.Encodes e) :
    ∃ w' sent kept, SentAlone st reply w w' sent kept ∧ kept.length ≤ w.buffer.buf.length ∧
      (w.failedEvents.items = [] → w.buffer.buf ≠ [] → kept.length < w.buffer.buf.length) := by
  by_cases hhead : w.failedEvents.items = [] ∧ w.buffer.buf ≠ []
  · obtain ⟨sent, kept, size', hcollected, hlt⟩ : ∃ sent kept size',
        Collected st reply { w with failedEvents := { w.failedEvents with items := [] } }
          w.failedEvents.items w.buffer.buf 0 sent kept size' ∧
        kept.length < w.buffer.buf.length := by
      rw [hhead.1]
      exact loop_takes_head reply hhead.2 hcap hfits hsize
    obtain ⟨w', h⟩ := hcollected.sentAlone haccepts hfits hencodes
    exact ⟨w', sent, kept, h, Nat.le_of_lt hlt, fun _ _ => hlt⟩
  · obtain ⟨sent, kept, size', hcollected⟩ := loop_collects reply
      (w := { w with failedEvents := { w.failedEvents with items := [] } }) hcap hfits
      w.failedEvents.items 0
    obtain ⟨w', h⟩ := hcollected.sentAlone haccepts hfits hencodes
    exact ⟨w', sent, kept, h, hcollected.length, fun h₁ h₂ => absurd ⟨h₁, h₂⟩ hhead⟩

/-- The first sync takes the whole backlog; from then on each takes the head of the buffer at
least. -/
theorem syncs_deliver (hsize : 0 < st.syncTriggerSize) (haccepts : reply.result = .accepted)
    (k : Nat) (hk : w.failedEvents.items.length + w.buffer.buf.length ≤ k)
    (hcap : w.buffer.buf.length ≤ w.buffer.cap) (hfits : ∀ e ∈ w.buffer.buf, st.Fits e)
    (hencodes : ∀ e ∈ w.failedEvents.items, st.Encodes e) :
    ∃ n w', Syncs st reply n w w' ∧ w'.buffer.buf = [] ∧
      w'.delivered.Perm (w.delivered ++ (w.failedEvents.items ++ w.buffer.buf)) := by
  induction k generalizing w with
  | zero =>
    have hempty : w.failedEvents.items ++ w.buffer.buf = [] :=
      List.length_eq_zero_iff.mp (by rw [List.length_append]; omega)
    exact ⟨0, w, rfl, (List.append_eq_nil_iff.mp hempty).2, by simp [hempty]⟩
  | succ k ih =>
    by_cases hempty : w.failedEvents.items ++ w.buffer.buf = []
    · exact ⟨0, w, rfl, (List.append_eq_nil_iff.mp hempty).2, by simp [hempty]⟩
    obtain ⟨w₁, sent, kept, h, hle, hlt⟩ := sync_alone hsize haccepts hcap hfits hencodes
    have hbuf : w₁.buffer.buf = kept := by rw [h.buffer]
    have hshorter : w₁.failedEvents.items.length + w₁.buffer.buf.length ≤ k := by
      rw [h.backlog, hbuf, List.length_nil, Nat.zero_add]
      by_cases hbacklog : w.failedEvents.items = []
      · rw [hbacklog, List.nil_append] at hempty
        have := hlt hbacklog hempty
        omega
      · have := List.length_pos_iff.mpr hbacklog
        omega
    obtain ⟨n, w', hsyncs, hdone, hperm⟩ := ih hshorter
      (by rw [h.buffer]; exact Nat.le_trans hle hcap) (fun e he => hfits e (h.mem e (hbuf ▸ he)))
      (by rw [h.backlog]; nofun)
    refine ⟨n + 1, w', ⟨w₁, h.completes, hsyncs⟩, hdone, hperm.trans ?_⟩
    rw [h.backlog, hbuf, h.delivered, List.nil_append, List.append_assoc]
    exact h.perm.append_left w.delivered

/-! ## What every step keeps -/

/-- A batch within the limits. -/
structure Batch (st : Strategy V) (events : List (EventDataPoint V)) : Prop where
  size : events.length ≤ st.syncTriggerSize
  bytes : st.bytes events ≤ st.syncTriggerBytes ∨ events.length ≤ 1
  encodes : ∀ e ∈ events, st.Encodes e

theorem Batch.limited (h : Batch st events) : st.Limited events := by
  rcases h.bytes with hbytes | hone
  · exact .inl ⟨h.size, hbytes⟩
  cases events with
  | nil => exact .inl ⟨Nat.zero_le _, Nat.zero_le _⟩
  | cons e rest => exact .inr (Nat.le_antisymm hone (Nat.succ_pos _))

/-- The event of a call fits. -/
def Call.Fine (st : Strategy V) : Call V → Prop
  | .offer evt _ | .evict evt | .resend evt => st.Fits evt
  | _ => True

/-- The batch of a sync, and the event in its hand. -/
def Sync.Fine (st : Strategy V) : Sync V → Prop
  | .begun => True
  | .loop events _ | .collected events _ | .sending events _ => Batch st events
  | .receive events _ => Batch st events ∧ events.length < st.syncTriggerSize
  | .putBack events _ evt => Batch st events ∧ st.Fits evt
  | .refused events | .undelivered events => ∀ e ∈ events, st.Encodes e

/-- What is in the buffer and in the backlog. -/
structure Stocked (st : Strategy V) (w : Work V) : Prop where
  buffer : ∀ e ∈ w.buffer.buf, st.Fits e
  backlog : ∀ e ∈ w.failedEvents.items, st.Encodes e

structure Inv (st : Strategy V) (sys : System V) : Prop where
  stocked : Stocked st sys.work
  calls : ∀ c ∈ sys.calls, c.Fine st
  syncs : ∀ phase ∈ sys.syncs, phase.Fine st
  /-- There is a free slot for every event in hand. -/
  slots : sys.work.buffer.buf.length + sys.inHand ≤ sys.work.buffer.cap

theorem Stocked.sends (hw : Stocked st w) {buffer : Chan (EventDataPoint V)} (hfits : st.Fits evt)
    (h : w.buffer.trySend evt = some buffer) : Stocked st { w with buffer := buffer } := by
  obtain ⟨-, rfl⟩ := Chan.trySend_some h
  refine ⟨fun e he => ?_, hw.backlog⟩
  rcases List.mem_append.mp he with he | he
  · exact hw.buffer e he
  · rwa [List.mem_singleton.mp he]

/-- A step of a call: the buffer does not grow, or a send takes a slot of it. -/
theorem callStep_fine {c : Call V} {next : Option (Call V)} (hw : Stocked st w) (hc : c.Fine st)
    (h : callStep st w c = (w', next)) :
    Stocked st w' ∧ (∀ c' ∈ next, c'.Fine st) ∧ w'.buffer.cap = w.buffer.cap ∧
      (w'.buffer.buf.length ≤ w.buffer.buf.length ∨
        w.buffer.buf.length < w.buffer.cap ∧ w'.buffer.buf.length = w.buffer.buf.length + 1 ∧
          ((∃ evt size, c = .offer evt size) ∨ ∃ evt, c = .resend evt)) := by
  have hsent : ∀ {evt buffer}, st.Fits evt → w.buffer.trySend evt = some buffer →
      Stocked st { w with buffer := buffer } ∧ buffer.cap = w.buffer.cap ∧
        w.buffer.buf.length < w.buffer.cap ∧ buffer.buf.length = w.buffer.buf.length + 1 := by
    intro evt buffer hfits hsend
    obtain ⟨hroom, rfl⟩ := Chan.trySend_some hsend
    exact ⟨hw.sends hfits hsend, rfl, hroom, by simp⟩
  unfold callStep at h
  split at h
  case h_1 evt size =>
    split at h
    next buffer hsend =>
      cases h
      obtain ⟨hstocked, hcap, hroom, hlength⟩ := hsent hc hsend
      refine ⟨hstocked, fun c' hc' => ?_, hcap, .inr ⟨hroom, hlength, .inl ⟨_, _, rfl⟩⟩⟩
      cases hc'
      trivial
    next =>
      cases h
      refine ⟨hw, fun c' hc' => ?_, rfl, .inl (Nat.le_refl _)⟩
      cases hc'
      exact hc
  case h_2 evt =>
    split at h
    next oldest buffer hrecv =>
      cases h
      obtain ⟨hbuf, hcap⟩ := Chan.tryRecv_some hrecv
      refine ⟨⟨fun e he => hw.buffer e ?_, hw.backlog⟩, fun c' hc' => ?_, hcap, .inl ?_⟩
      · rw [hbuf]
        exact List.mem_cons_of_mem _ he
      · cases hc'
        exact hc
      · rw [hbuf]
        exact Nat.le_succ _
    next =>
      cases h
      exact ⟨hw, nofun, rfl, .inl (Nat.le_refl _)⟩
  case h_3 evt =>
    split at h
    next buffer hsend =>
      cases h
      obtain ⟨hstocked, hcap, hroom, hlength⟩ := hsent hc hsend
      exact ⟨hstocked, nofun, hcap, .inr ⟨hroom, hlength, .inr ⟨_, rfl⟩⟩⟩
    next =>
      cases h
      exact ⟨hw, nofun, rfl, .inl (Nat.le_refl _)⟩
  case h_4 size =>
    cases h
    refine ⟨⟨hw.buffer, hw.backlog⟩, fun c' hc' => ?_, rfl, .inl (Nat.le_refl _)⟩
    cases hc'
    trivial
  case h_5 newSize =>
    split at h
    next =>
      cases h
      refine ⟨hw, fun c' hc' => ?_, rfl, .inl (Nat.le_refl _)⟩
      cases hc'
      trivial
    next =>
      cases h
      exact ⟨hw, nofun, rfl, .inl (Nat.le_refl _)⟩
  case h_6 =>
    cases h
    exact ⟨hw, nofun, rfl, .inl (Nat.le_refl _)⟩

theorem abortSync_encodes {b : Bounded (EventDataPoint V)} {c : DropCounters}
    (hevents : ∀ e ∈ events, st.Encodes e) (hb : ∀ e ∈ b.items, st.Encodes e) :
    ∀ e ∈ (b.abortSync events c).1.items, st.Encodes e := by
  intro e he
  obtain ⟨shed, kept, htrims⟩ := Bounded.trimToCap_trims { b with items := events ++ b.items } c
  rw [Bounded.abortSync, htrims.queue] at he
  have hmem : e ∈ events ++ b.items := by
    rw [show events ++ b.items = shed ++ kept from htrims.items]
    exact List.mem_append_right _ he
  rcases List.mem_append.mp hmem with hmem | hmem
  · exact hevents e hmem
  · exact hb e hmem

/-- The backlog a sync begins with is a batch. -/
theorem Batch.of_backlog {items : List (EventDataPoint V)} (hsize : 0 < st.syncTriggerSize)
    (hencodes : ∀ e ∈ items, st.Encodes e) (h : items = [] ∨ st.Limited items) : Batch st items := by
  rcases h with rfl | ⟨hlength, hbytes⟩ | hone
  · exact ⟨Nat.zero_le _, .inl (Nat.zero_le _), nofun⟩
  · exact ⟨hlength, .inl hbytes, hencodes⟩
  · exact ⟨by omega, .inr (by omega), hencodes⟩

/-- The batch takes an event that fits it. -/
theorem Batch.concat (h : Batch st events) (hsize : events.length < st.syncTriggerSize)
    (hn : st.marshal evt = some n) (hbytes : st.bytes events + n ≤ st.syncTriggerBytes) :
    Batch st (events ++ [evt]) where
  size := by
    rw [List.length_append]
    exact hsize
  bytes := by
    refine .inl ?_
    rw [Strategy.bytes_append, Strategy.bytes_cons, sizeOf_eq hn]
    exact hbytes
  encodes e he := by
    rcases List.mem_append.mp he with he | he
    · exact h.encodes e he
    · rw [List.mem_singleton.mp he]
      exact Option.isSome_of_mem hn

/-- What a step of a sync leaves: `next` is fine, and the slots for the events in hand stay. -/
structure SyncKept (st : Strategy V) (w : Work V) (phase : Sync V) (w' : Work V) (next : Next V) :
    Prop where
  stocked : Stocked st w'
  fine : ∀ phase' ∈ next.phases, phase'.Fine st
  cap : w'.buffer.cap = w.buffer.cap
  slots : w'.buffer.buf.length + (next.phases.map Sync.inHand).sum
    ≤ w.buffer.buf.length + phase.inHand

/-- A step that leaves the buffer and the backlog alone. -/
theorem SyncKept.of_same {phase' : Sync V} (hw : Stocked st w) (hbuffer : w'.buffer = w.buffer)
    (hbacklog : w'.failedEvents = w.failedEvents) (hfine : phase'.Fine st)
    (hhand : phase'.inHand = 0) :
    SyncKept st w phase w' (.goes phase') where
  stocked := ⟨hbuffer ▸ hw.buffer, hbacklog ▸ hw.backlog⟩
  fine p hp := by
    rw [List.mem_singleton.mp hp]
    exact hfine
  cap := by rw [hbuffer]
  slots := by
    rw [hbuffer]
    simp [Next.phases, hhand]

theorem SyncKept.of_return {failed : Bool} (hbuffer : w'.buffer = w.buffer) (hw : Stocked st w') :
    SyncKept st w phase w' (.returns failed) where
  stocked := hw
  fine := nofun
  cap := by rw [hbuffer]
  slots := by
    rw [hbuffer]
    simp [Next.phases]

theorem syncStep_kept {reply : Reply} {next : Next V} (hsize : 0 < st.syncTriggerSize)
    (hw : Stocked st sys.work) (hphase : phase.Fine st) (hok : CountsBacklog st sys phase)
    (h : syncStep st reply sys.work phase = some (w', next)) :
    SyncKept st sys.work phase w' next := by
  cases phase with
  | begun =>
    cases h
    refine ⟨⟨hw.buffer, nofun⟩, fun p hp => ?_, rfl, Nat.le_refl _⟩
    rw [List.mem_singleton.mp hp]
    exact Batch.of_backlog hsize hw.backlog hok
  | loop events size =>
    unfold syncStep at h
    dsimp only at h
    split at h
    next hloop =>
      cases h
      exact .of_same hw rfl rfl ⟨hphase, hloop.1⟩ rfl
    next =>
      cases h
      exact .of_same hw rfl rfl hphase rfl
  | receive events size =>
    obtain ⟨hbatch, hlt⟩ := hphase
    unfold syncStep at h
    dsimp only at h
    split at h
    next =>
      cases h
      exact .of_same hw rfl rfl hbatch rfl
    next evt buffer hrecv =>
      obtain ⟨hbuf, hcap⟩ := Chan.tryRecv_some hrecv
      have hfits : st.Fits evt := hw.buffer evt (by rw [hbuf]; exact List.mem_cons_self)
      have hstocked : Stocked st { sys.work with buffer := buffer } :=
        ⟨fun e he => hw.buffer e (by rw [hbuf]; exact List.mem_cons_of_mem _ he), hw.backlog⟩
      have hlength : sys.work.buffer.buf.length = buffer.buf.length + 1 := by rw [hbuf]; rfl
      have ⟨n, hn, _⟩ := hfits
      split at h
      next hnone => exact absurd (hnone.symm.trans hn) nofun
      next n' hn' =>
        obtain rfl : n = n' := Option.some.inj (Eq.trans (Eq.symm hn) hn')
        split at h
        next =>
          cases h
          refine ⟨hstocked, fun p hp => ?_, hcap, ?_⟩
          · rw [List.mem_singleton.mp hp]
            exact ⟨hbatch, hfits⟩
          · rw [hlength]
            exact Nat.le_refl _
        next hunder =>
          cases h
          refine ⟨hstocked, fun p hp => ?_, hcap, ?_⟩
          · rw [List.mem_singleton.mp hp]
            have hbytes := hok evt (by rw [hbuf]; rfl) n hn (Nat.not_lt.mp hunder)
            exact hbatch.concat hlt hn' hbytes
          · rw [hlength]
            exact Nat.le_succ _
  | putBack events size evt =>
    unfold syncStep at h
    dsimp only at h
    split at h
    next => cases h
    next buffer hsend =>
      have hstocked := hw.sends hphase.2 hsend
      obtain ⟨-, rfl⟩ := Chan.trySend_some hsend
      cases h
      refine ⟨hstocked, fun p hp => ?_, rfl, ?_⟩
      · rw [List.mem_singleton.mp hp]
        exact hphase.1
      · rw [List.length_append]
        exact Nat.le_refl _
  | collected events size =>
    unfold syncStep at h
    dsimp only at h
    split at h
    next =>
      cases h
      exact .of_return rfl ⟨hw.buffer, hw.backlog⟩
    next =>
      cases h
      exact .of_same hw rfl rfl hphase rfl
  | sending events attempt =>
    unfold syncStep at h
    dsimp only at h
    split at h
    next =>
      cases h
      exact .of_return rfl ⟨hw.buffer, hw.backlog⟩
    next =>
      cases h
      exact .of_same hw rfl rfl hphase.encodes rfl
    next =>
      split at h
      next =>
        cases h
        exact .of_same hw rfl rfl hphase.encodes rfl
      next =>
        cases h
        exact .of_same hw rfl rfl hphase rfl
  | refused events =>
    cases h
    exact .of_return rfl ⟨hw.buffer, hw.backlog⟩
  | undelivered events =>
    cases h
    exact .of_return rfl ⟨hw.buffer, abortSync_encodes hphase hw.backlog⟩

section

variable {sys sys' : System V}
  (syncs : sys'.syncs = sys.syncs ∨ sys'.syncs = .begun :: sys.syncs)

include syncs

/-- A sync that begins has no event in hand. -/
theorem inHand_begins : sys'.inHand = sys.inHand := by
  unfold System.inHand
  rcases syncs with syncs | syncs
  · rw [syncs]
  · rw [syncs, List.map_cons, List.sum_cons]
    exact Nat.zero_add _

theorem Inv.begins (h : Inv st sys) : ∀ p ∈ sys'.syncs, p.Fine st := by
  intro p hp
  rcases syncs with syncs | syncs
  · exact h.syncs p (syncs ▸ hp)
  · rw [syncs, List.mem_cons] at hp
    rcases hp with rfl | hp
    · trivial
    · exact h.syncs p hp

end

theorem Inv.moves (hsize : 0 < st.syncTriggerSize) {sys' : System V} (h : Inv st sys)
    (hmoves : Moves st st.Small LeavesSlot (CountsBacklog st) sys sys') : Inv st sys' := by
  have hslots := h.slots
  unfold System.inHand at hslots
  cases hmoves with
  | stays work calls syncs =>
    refine ⟨work ▸ h.stocked, calls ▸ h.calls, h.begins syncs, ?_⟩
    rw [work, inHand_begins syncs]
    exact h.slots
  | offers evt size admitted marshal work calls syncs =>
    refine ⟨work ▸ h.stocked, fun c hc => ?_, syncs ▸ h.syncs, ?_⟩
    · rw [calls, List.mem_append, List.mem_singleton] at hc
      rcases hc with hc | rfl
      · exact h.calls c hc
      · exact ⟨size, marshal, admitted size marshal⟩
    · unfold System.inHand
      rwa [work, syncs]
  | triggers before after was work calls syncs =>
    have hcalls := forall_mem_replaced (m := []) h.calls was nofun
    rw [List.append_nil, ← calls] at hcalls
    refine ⟨work ▸ h.stocked, hcalls, h.begins syncs, ?_⟩
    rw [work, inHand_begins syncs]
    exact h.slots
  | calls before after c next admitted was step calls syncs =>
    have hc : c.Fine st :=
      h.calls c (by rw [was]; exact List.mem_append_right _ List.mem_cons_self)
    obtain ⟨hstocked, hnext, hcap, hgrows⟩ := callStep_fine h.stocked hc step
    have hcalls := forall_mem_replaced h.calls was fun c' hc' => hnext c' (Option.mem_toList.mp hc')
    refine ⟨hstocked, calls ▸ hcalls, syncs ▸ h.syncs, ?_⟩
    unfold System.inHand
    rw [hcap, syncs]
    rcases hgrows with hle | ⟨hroom, hlength, hsend⟩
    · omega
    · -- a send: the admitted ones leave a slot for every event in hand
      have hleaves : sys.work.buffer.buf.length + sys.inHand < sys.work.buffer.cap := by
        rcases hsend with ⟨evt, size, rfl⟩ | ⟨evt, rfl⟩
        · exact admitted hroom
        · exact admitted hroom
      unfold System.inHand at hleaves
      omega
  | syncs before after phase reply next admitted was step syncs calls =>
    have hphase : phase.Fine st :=
      h.syncs phase (by rw [was]; exact List.mem_append_right _ List.mem_cons_self)
    have hkept := syncStep_kept hsize h.stocked hphase admitted step
    refine ⟨hkept.stocked, calls ▸ h.calls, syncs ▸ forall_mem_replaced h.syncs was hkept.fine, ?_⟩
    have hkeptSlots := hkept.slots
    unfold System.inHand
    rw [hkept.cap, syncs]
    rw [was] at hslots
    simp only [List.map_append, List.map_cons, List.sum_append, List.sum_cons] at hslots ⊢
    omega

/-- Only an event to be put back can be waited for, and only on a full buffer. -/
theorem syncStep_waits {reply : Reply} (h : syncStep st reply w phase = none) :
    phase.inHand = 1 ∧ w.buffer.cap ≤ w.buffer.buf.length := by
  cases phase with
  | putBack events size evt =>
    unfold syncStep Chan.trySend at h
    dsimp only at h
    refine ⟨rfl, Nat.not_lt.mp fun hroom => ?_⟩
    rw [if_pos hroom] at h
    cases h
  | begun => cases h
  | loop events size | collected events size =>
    unfold syncStep at h
    dsimp only at h
    split at h <;> cases h
  | receive events size =>
    unfold syncStep at h
    dsimp only at h
    split at h
    next => cases h
    next =>
      split at h
      next => cases h
      next => split at h <;> cases h
  | sending events attempt =>
    unfold syncStep at h
    dsimp only at h
    split at h
    next => cases h
    next => cases h
    next => split at h <;> cases h
  | refused events => cases h
  | undelivered events => cases h

theorem Inv.progresses (hsize : 0 < st.syncTriggerSize) (h : Inv st sys) :
    Progresses st sys where
  moves phase hphase reply hwaits := by
    obtain ⟨hhand, hfull⟩ := syncStep_waits hwaits
    obtain ⟨before, after, hsyncs⟩ := List.append_of_mem hphase
    have hslots := h.slots
    unfold System.inHand at hslots
    rw [hsyncs, List.map_append, List.map_cons, List.sum_append, List.sum_cons] at hslots
    omega
  limited events attempt hsending := (h.syncs _ hsending).limited
  delivers _ reply haccepts := by
    have hcap := Nat.le_trans (Nat.le_add_right _ _) h.slots
    exact syncs_deliver hsize haccepts _ (Nat.le_refl _) hcap h.stocked.buffer h.stocked.backlog

/-- A strategy with events in its buffer and in its backlog, and nothing in progress. -/
def holding (st : Strategy V) (buffer backlog : List (EventDataPoint V)) (currentSize : Int)
    (counters : DropCounters) : System V :=
  { start st counters with
    work := ⟨⟨buffer, st.queueSize⟩, currentSize, ⟨"event", defaultMaxItems, backlog⟩, counters, []⟩ }

/-- **An event sync neither blocks nor stalls**, from every buffer and backlog and whatever the
producers do, in every run whose steps are `Steady`. -/
theorem sync_progresses (hsize : 0 < st.syncTriggerSize) {buffer backlog : List (EventDataPoint V)}
    {currentSize : Int} {counters : DropCounters} {as : List (Action V)} {sys : System V}
    (hcap : buffer.length ≤ st.queueSize) (hfits : ∀ e ∈ buffer, st.Fits e)
    (hencodes : ∀ e ∈ backlog, st.Encodes e)
    (hok : Admits (System.step st) (Steady st) (holding st buffer backlog currentSize counters) as)
    (hrun : runSchedule (System.step st) (holding st buffer backlog currentSize counters) as
      = some sys) : Progresses st sys := by
  have hstart : Inv st (holding st buffer backlog currentSize counters) :=
    ⟨⟨hfits, hencodes⟩, nofun, nofun, hcap⟩
  have hinv : Inv st sys :=
    runSchedule_inv (fun _ _ _ h hok hstep => h.moves hsize (step_moves hok hstep)) as hstart hok hrun
  exact hinv.progresses hsize

/-! ## A run that is steady and one that is not -/

instance (events : List (EventDataPoint V)) : Decidable (st.Limited events) :=
  inferInstanceAs (Decidable (_ ∨ _))

instance (evt : EventDataPoint V) : Decidable (st.Small evt) :=
  inferInstanceAs (Decidable (∀ n ∈ st.marshal evt, n ≤ st.syncTriggerBytes))

instance (sys : System V) : (c : Call V) → Decidable (LeavesSlot sys c)
  | .offer _ _ | .resend _ => inferInstanceAs (Decidable (_ → _))
  | .evict _ | .weigh _ | .check _ | .trigger => isTrue trivial

instance (sys : System V) : (phase : Sync V) → Decidable (CountsBacklog st sys phase)
  | .begun =>
    if h : sys.work.failedEvents.items.isEmpty then isTrue (.inl (List.isEmpty_iff.mp h))
    else decidable_of_iff (st.Limited sys.work.failedEvents.items)
      ⟨.inr, fun h' => h'.resolve_left fun hnil => h (List.isEmpty_iff.mpr hnil)⟩
  | .receive events size => inferInstanceAs (Decidable (∀ evt ∈ sys.work.buffer.buf.head?,
      ∀ n ∈ st.marshal evt, size + n ≤ st.syncTriggerBytes →
        st.bytes events + n ≤ st.syncTriggerBytes))
  | .loop _ _ | .putBack _ _ _ | .collected _ _ | .sending _ _ | .refused _ | .undelivered _ =>
    isTrue trivial

instance (sys : System V) (a : Action V) : Decidable (Steady st sys a) :=
  inferInstanceAs (Decidable (Admitted _ _ _ _ _))

end

/-- Two events that no request has room for together, the sync they trigger up to the point where it
holds the second, and what the producers do then. -/
def overLimit (producers : List (Action Nat)) : List (Action Nat) :=
  [.enqueue (loginEvent 300000), .call 0, .call 0, .call 0,
    .enqueue (loginEvent 300000), .call 0, .call 0, .call 0, .call 0] ++
    List.replicate 5 (.sync (.status 200)) ++ producers

/-- With room for two events, the producers may send one more. -/
theorem sync_progresses_overLimit :
    ∃ sys, runSchedule (System.step (withQueue 2)) (holding (withQueue 2) [] [] 0 ∅)
        (overLimit [.enqueue (loginEvent 1), .call 0]) = some sys ∧
      sys.work.buffer.buf = [loginEvent 1] ∧ Progresses (withQueue 2) sys := by
  have hok : Admits (System.step (withQueue 2)) (Steady (withQueue 2))
      (holding (withQueue 2) [] [] 0 ∅) (overLimit [.enqueue (loginEvent 1), .call 0]) := by
    decide +kernel
  have hcap : ([] : List (EventDataPoint Nat)).length ≤ (withQueue 2).queueSize := Nat.zero_le 2
  have hnone : ∀ p : EventDataPoint Nat → Prop, ∀ e ∈ [], p e := fun _ _ h => nomatch h
  exact ⟨_, rfl, rfl, sync_progresses (by decide) hcap (hnone _) (hnone _) hok rfl⟩

/-- **The put-back waits**: the producers have sent two more, and the sync waits on the full buffer. -/
theorem putBack_blocks :
    ¬∀ (st : Strategy Nat) (buffer backlog : List (EventDataPoint Nat)) (currentSize : Int)
      (counters : DropCounters) (as : List (Action Nat)) (sys : System Nat),
      0 < st.syncTriggerSize → buffer.length ≤ st.queueSize →
      runSchedule (System.step st) (holding st buffer backlog currentSize counters) as = some sys →
        Progresses st sys := by
  intro h
  have hprogresses := h (withQueue 2) [] [] 0 ∅
    (overLimit [.enqueue (loginEvent 1), .call 0, .enqueue (loginEvent 2), .call 1]) _
    (by decide) (Nat.zero_le 2) rfl
  exact hprogresses.moves _ (List.mem_singleton.mpr rfl) (.status 200) rfl

end SenhubAgent.DataStore.EventOutput

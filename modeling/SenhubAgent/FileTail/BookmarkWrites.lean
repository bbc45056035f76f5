import SenhubAgent.Lib.Latest
import SenhubAgent.Lib.Schedule

/-!
# Concurrent writes of a bookmark file

Two probes keep their read positions in a JSON file: `filetail` one entry per log file, the
Windows event log probe one per channel. Both change the map under a lock and write the file
outside it, by a temp file and a rename:

- `filetail`: `Set` records the entry and copies the map in one critical section;
- `eventLog`: `set` records the entry, and `persist` copies the map in a critical section of
  its own.

A call is a party of its own and each critical section, each rename is one action, so a
schedule is an interleaving of any number of calls. The map is what has been recorded so far
(`mem_eq`); the file is what had been recorded when the call that renamed last took its copy
(`disk_eq`). The two agree exactly when nothing recorded after that copy changed the map
(`bookmarks_agree_iff`).

Mirroring notes:
- The file is the map its JSON text decodes to; a missing file reads as the empty map, as
  when the store is opened.
- A temp file is the call's own (`os.CreateTemp`), so writing it is not an action. A call
  that fails there or at the rename removes it and leaves the bookmark file alone.
- `persist` with an empty path does nothing; there is then no bookmark file to speak of.
-/

namespace SenhubAgent.FileTail

open SenhubAgent.Lib

/-- Which of the two stores. -/
inductive Store where
  | filetail | eventLog
deriving DecidableEq

/-- Where a call stands. -/
inductive CallPhase (K V : Type) where
  | ready
  /-- `set` has returned and `persist` has not locked yet -/
  | recorded
  /-- the copy is taken and the lock released -/
  | holding (snapshot : AssocMap K V)
  | returned
  | failed

/-- The actions of call `i`. -/
inductive Act where
  /-- the critical section that records the entry -/
  | record (i : Nat)
  /-- the critical section of `persist` -/
  | snapshot (i : Nat)
  | rename (i : Nat)
  /-- an error between the copy and the rename -/
  | fail (i : Nat)
deriving DecidableEq

structure Bookmarks (K V : Type) where
  mem : AssocMap K V
  disk : AssocMap K V
  phase : List (CallPhase K V)

section

variable {K V : Type} [DecidableEq K]

/-- The store as it was opened, with all calls still to come. -/
def opened (calls : List (K × V)) (m : AssocMap K V) : Bookmarks K V :=
  { mem := m, disk := m, phase := calls.map fun _ => .ready }

def bookmarkStep (store : Store) (calls : List (K × V)) (s : Bookmarks K V) :
    Act → Option (Bookmarks K V)
  | .record i =>
    match calls[i]?, s.phase[i]? with
    | some (file, entry), some .ready =>
      let mem := s.mem.insert file entry
      match store with
      | .filetail => some { s with mem := mem, phase := s.phase.set i (.holding mem) }
      | .eventLog => some { s with mem := mem, phase := s.phase.set i .recorded }
    | _, _ => none
  | .snapshot i =>
    match s.phase[i]? with
    | some .recorded => some { s with phase := s.phase.set i (.holding s.mem) }
    | _ => none
  | .rename i =>
    match s.phase[i]? with
    | some (.holding snapshot) =>
      some { s with disk := snapshot, phase := s.phase.set i .returned }
    | _ => none
  | .fail i =>
    match s.phase[i]? with
    | some (.holding _) => some { s with phase := s.phase.set i .failed }
    | _ => none

/-! ## What a schedule records -/

/-- The action in which call `i` takes its copy. -/
def copies : Store → Nat → Act
  | .filetail, i => .record i
  | .eventLog, i => .snapshot i

/-- The schedule up to and with the first action `a`. -/
def upTo (a : Act) : List Act → List Act
  | [] => []
  | b :: acts => if b = a then [b] else b :: upTo a acts

/-- What the schedule does after the first action `a`. -/
def after (a : Act) : List Act → List Act
  | [] => []
  | b :: acts => if b = a then acts else after a acts

/-- The call that renames last. -/
def lastRename : List Act → Option Nat
  | [] => none
  | .rename i :: acts => (lastRename acts).or (some i)
  | _ :: acts => lastRename acts

/-- The entries a schedule records, in order. -/
def writes (calls : List (K × V)) (acts : List Act) : List (K × V) :=
  acts.filterMap fun
    | .record i => calls[i]?
    | _ => none

/-- The actions up to the copy of the call that renames last, and those after it. Where no
call renames, all come after. -/
def splitAtCopy (store : Store) (acts : List Act) : List Act × List Act :=
  match lastRename acts with
  | none => ([], acts)
  | some i => (upTo (copies store i) acts, after (copies store i) acts)

/-- What is recorded after the copy that is renamed last ends at the values the map held
when that copy was taken. -/
def Settled (store : Store) (calls : List (K × V)) (m : AssocMap K V) (acts : List Act) : Prop :=
  ∀ k v, latest k (writes calls (splitAtCopy store acts).2) = some v →
    (insertAll m (writes calls (splitAtCopy store acts).1)).lookup k = some v

omit [DecidableEq K] in
theorem writes_append (calls : List (K × V)) (acts acts' : List Act) :
    writes calls (acts ++ acts') = writes calls acts ++ writes calls acts' := by
  simp [writes]

end

variable {a : Act} {acts : List Act}

theorem upTo_append_of_mem (h : a ∈ acts) (more : List Act) :
    upTo a (acts ++ more) = upTo a acts := by
  induction acts with
  | nil => cases h
  | cons b acts ih =>
    by_cases hb : b = a
    · simp [upTo, hb]
    · have hmem : a ∈ acts := (List.mem_cons.mp h).resolve_left (Ne.symm hb)
      simp [upTo, hb, ih hmem]

theorem upTo_snoc (h : a ∉ acts) : upTo a (acts ++ [a]) = acts ++ [a] := by
  induction acts with
  | nil => simp [upTo]
  | cons b acts ih =>
    obtain ⟨hb, hacts⟩ := not_or.mp (fun hor => h (List.mem_cons.mpr hor))
    simp [upTo, Ne.symm hb, ih hacts]

theorem upTo_append_after (h : a ∈ acts) : upTo a acts ++ after a acts = acts := by
  induction acts with
  | nil => cases h
  | cons b acts ih =>
    by_cases hb : b = a
    · simp [upTo, after, hb]
    · have hmem : a ∈ acts := (List.mem_cons.mp h).resolve_left (Ne.symm hb)
      simp [upTo, after, hb, ih hmem]

theorem lastRename_rename (acts : List Act) (i : Nat) : lastRename (acts ++ [.rename i]) = some i := by
  induction acts with
  | nil => rfl
  | cons b acts ih => cases b <;> simp [lastRename, ih]

theorem lastRename_snoc (acts : List Act) (h : ∀ i, a ≠ .rename i) :
    lastRename (acts ++ [a]) = lastRename acts := by
  induction acts with
  | nil =>
    cases a with
    | rename i => exact absurd rfl (h i)
    | _ => rfl
  | cons b acts ih => cases b <;> simp [lastRename, ih]

section

variable {K V : Type} [DecidableEq K] {store : Store} {calls : List (K × V)} {m : AssocMap K V}

/-! ## What the store holds after a schedule -/

/-- `snapshot` is what had been recorded when call `i` took its copy. -/
def Copied (store : Store) (calls : List (K × V)) (m : AssocMap K V) (acts : List Act) (i : Nat)
    (snapshot : AssocMap K V) : Prop :=
  copies store i ∈ acts ∧ snapshot = insertAll m (writes calls (upTo (copies store i) acts))

variable {i : Nat} {p : CallPhase K V} {s' : Bookmarks K V}

theorem Copied.snoc {snapshot : AssocMap K V} (h : Copied store calls m acts i snapshot) (a : Act) :
    Copied store calls m (acts ++ [a]) i snapshot := by
  refine ⟨List.mem_append_left _ h.1, ?_⟩
  rw [upTo_append_of_mem h.1]
  exact h.2

theorem Copied.now (h : copies store i ∉ acts) :
    Copied store calls m (acts ++ [copies store i]) i
      (insertAll m (writes calls (acts ++ [copies store i]))) := by
  refine ⟨by simp, ?_⟩
  rw [upTo_snoc h]

/-- What the phase of call `i` says of the schedule so far. -/
def PhaseOk (store : Store) (calls : List (K × V)) (m : AssocMap K V) (acts : List Act) (i : Nat) :
    CallPhase K V → Prop
  | .ready => copies store i ∉ acts
  | .recorded => store = .eventLog ∧ copies store i ∉ acts
  | .holding snapshot => Copied store calls m acts i snapshot
  | .returned | .failed => True

/-- What the file holds after a schedule. -/
def DiskOk (store : Store) (calls : List (K × V)) (m : AssocMap K V) (acts : List Act)
    (disk : AssocMap K V) : Prop :=
  match lastRename acts with
  | none => disk = m
  | some i => Copied store calls m acts i disk

/-- What a state owes to the schedule that led to it. -/
structure History (store : Store) (calls : List (K × V)) (m : AssocMap K V) (acts : List Act)
    (s : Bookmarks K V) : Prop where
  mem : s.mem = insertAll m (writes calls acts)
  phase : ∀ i p, s.phase[i]? = some p → PhaseOk store calls m acts i p
  disk : DiskOk store calls m acts s.disk

theorem PhaseOk.snoc (h : PhaseOk store calls m acts i p) (ha : copies store i ≠ a) :
    PhaseOk store calls m (acts ++ [a]) i p := by
  have hnot : copies store i ∉ acts → copies store i ∉ acts ++ [a] := by
    intro hacts hmem
    rcases List.mem_append.mp hmem with hold | hnew
    · exact hacts hold
    · exact ha (List.mem_singleton.mp hnew)
  cases p with
  | ready => exact hnot h
  | recorded => exact ⟨h.1, hnot h.2⟩
  | holding snapshot => exact Copied.snoc h a
  | returned | failed => trivial

theorem DiskOk.snoc {disk : AssocMap K V} (h : DiskOk store calls m acts disk)
    (ha : ∀ i, a ≠ .rename i) : DiskOk store calls m (acts ++ [a]) disk := by
  unfold DiskOk at h ⊢
  rw [lastRename_snoc acts ha]
  cases hlast : lastRename acts with
  | none => rwa [hlast] at h
  | some i =>
    rw [hlast] at h
    exact Copied.snoc h a

theorem copies_ne (store : Store) {j : Nat} (h : j ≠ i) : copies store j ≠ copies store i := by
  cases store <;> simp [copies, h]

/-- An action of call `i` leaves the other calls where they are. -/
theorem phase_set {s : Bookmarks K V} (h : History store calls m acts s)
    (hother : ∀ j, j ≠ i → copies store j ≠ a) (hp : PhaseOk store calls m (acts ++ [a]) i p)
    (j : Nat) (q : CallPhase K V) (hq : (s.phase.set i p)[j]? = some q) :
    PhaseOk store calls m (acts ++ [a]) j q := by
  by_cases hj : j = i
  · subst hj
    obtain ⟨hlt, hget⟩ := List.getElem?_eq_some_iff.mp hq
    rw [List.getElem_set_self] at hget
    exact hget ▸ hp
  · rw [List.getElem?_set_ne (Ne.symm hj)] at hq
    exact (h.phase j q hq).snoc (hother j hj)

omit [DecidableEq K] in
theorem writes_snoc_of_ne (ha : ∀ i, a ≠ .record i) :
    writes calls (acts ++ [a]) = writes calls acts := by
  cases a with
  | record i => exact absurd rfl (ha i)
  | _ => simp [writes]

theorem History.record {s : Bookmarks K V} (h : History store calls m acts s)
    (hs : bookmarkStep store calls s (.record i) = some s') :
    History store calls m (acts ++ [.record i]) s' := by
  simp only [bookmarkStep] at hs
  split at hs
  next file entry hcall hphase =>
    have hmem : AList.insert file entry s.mem = insertAll m (writes calls (acts ++ [.record i])) := by
      rw [writes_append, insertAll_append, ← h.mem]
      simp [writes, insertAll, hcall]
    have hready : copies store i ∉ acts := h.phase i _ hphase
    have hdisk : DiskOk store calls m (acts ++ [.record i]) s.disk :=
      h.disk.snoc fun j => Act.noConfusion
    cases store with
    | filetail =>
      cases hs
      refine ⟨hmem, phase_set h (fun j hj => copies_ne .filetail hj) ?_, hdisk⟩
      rw [hmem]
      exact Copied.now hready
    | eventLog =>
      cases hs
      have hne : ∀ j, copies .eventLog j ≠ .record i := fun j => Act.noConfusion
      have hp : PhaseOk .eventLog calls m acts i (.recorded : CallPhase K V) := ⟨rfl, hready⟩
      exact ⟨hmem, phase_set h (fun j _ => hne j) (hp.snoc (hne i)), hdisk⟩
  next => cases hs

theorem History.snapshot {s : Bookmarks K V} (h : History store calls m acts s)
    (hs : bookmarkStep store calls s (.snapshot i) = some s') :
    History store calls m (acts ++ [.snapshot i]) s' := by
  simp only [bookmarkStep] at hs
  split at hs
  next hphase =>
    cases hs
    obtain ⟨rfl, hnot⟩ := h.phase i _ hphase
    have hmem : s.mem = insertAll m (writes calls (acts ++ [.snapshot i])) := by
      rw [writes_snoc_of_ne (fun j => Act.noConfusion)]
      exact h.mem
    refine ⟨hmem, phase_set h (fun j hj => copies_ne .eventLog hj) ?_,
      h.disk.snoc fun j => Act.noConfusion⟩
    rw [hmem]
    exact Copied.now hnot
  next => cases hs

/-- A call that ends leaves the map and takes its copy along. -/
theorem History.ends {s : Bookmarks K V} (h : History store calls m acts s)
    (hs : bookmarkStep store calls s a = some s') (ha : (∃ i, a = .rename i) ∨ ∃ i, a = .fail i) :
    History store calls m (acts ++ [a]) s' := by
  have hrecord : ∀ i, a ≠ .record i := by
    rcases ha with ⟨j, rfl⟩ | ⟨j, rfl⟩ <;> exact fun i => Act.noConfusion
  have hcopies : ∀ j, copies store j ≠ a := by
    intro j
    cases store <;> rcases ha with ⟨i, rfl⟩ | ⟨i, rfl⟩ <;> exact Act.noConfusion
  have hmem : s.mem = insertAll m (writes calls (acts ++ [a])) := by
    rw [writes_snoc_of_ne hrecord]
    exact h.mem
  rcases ha with ⟨i, rfl⟩ | ⟨i, rfl⟩
  all_goals
    simp only [bookmarkStep] at hs
    split at hs
  next snapshot hphase =>
    cases hs
    refine ⟨hmem, phase_set h (fun j _ => hcopies j) trivial, ?_⟩
    unfold DiskOk
    rw [lastRename_rename]
    have hcopy : Copied store calls m acts i snapshot := h.phase i _ hphase
    exact hcopy.snoc _
  next => cases hs
  next snapshot hphase =>
    cases hs
    exact ⟨hmem, phase_set h (fun j _ => hcopies j) trivial, h.disk.snoc fun j => Act.noConfusion⟩
  next => cases hs

theorem History.step {s : Bookmarks K V} (h : History store calls m acts s)
    (hs : bookmarkStep store calls s a = some s') : History store calls m (acts ++ [a]) s' := by
  cases a with
  | record i => exact h.record hs
  | snapshot i => exact h.snapshot hs
  | rename i => exact h.ends hs (.inl ⟨i, rfl⟩)
  | fail i => exact h.ends hs (.inr ⟨i, rfl⟩)

theorem History.opened : History store calls m [] (opened calls m) := by
  refine ⟨rfl, fun i p hp => ?_, rfl⟩
  obtain ⟨hlt, hget⟩ := List.getElem?_eq_some_iff.mp hp
  have hready : p = .ready := by
    rw [← hget]
    exact List.getElem_map _
  subst hready
  exact List.not_mem_nil

/-- What every schedule leaves in the map and in the file. -/
theorem History.run : ∀ (acts done : List Act) {s s' : Bookmarks K V}, History store calls m done s →
    runSchedule (bookmarkStep store calls) s acts = some s' →
    History store calls m (done ++ acts) s' := by
  intro acts
  induction acts with
  | nil =>
    intro done s s' h hrun
    cases hrun
    rwa [List.append_nil]
  | cons a acts ih =>
    intro done s s' h hrun
    obtain ⟨t, ht, hrest⟩ := runSchedule_cons hrun
    have hnext := ih (done ++ [a]) (h.step ht) hrest
    rwa [List.append_assoc] at hnext

variable {acts : List Act} {s : Bookmarks K V}

theorem disk_eq (h : History store calls m acts s) :
    s.disk = insertAll m (writes calls (splitAtCopy store acts).1) := by
  have hdisk := h.disk
  unfold DiskOk at hdisk
  unfold splitAtCopy
  cases hlast : lastRename acts with
  | none => rwa [hlast] at hdisk
  | some i =>
    rw [hlast] at hdisk
    exact hdisk.2

theorem mem_eq (h : History store calls m acts s) :
    s.mem = insertAll s.disk (writes calls (splitAtCopy store acts).2) := by
  rw [h.mem, disk_eq h, ← insertAll_append, ← writes_append]
  have hdisk := h.disk
  unfold DiskOk at hdisk
  unfold splitAtCopy
  cases hlast : lastRename acts with
  | none => rfl
  | some i =>
    rw [hlast] at hdisk
    show _ = insertAll m (writes calls (upTo (copies store i) acts ++ after (copies store i) acts))
    rw [upTo_append_after hdisk.1]

/-- **Whatever the interleaving**, the file agrees with the map exactly when what was recorded
after the copy that was renamed last left every entry at the value it had in that copy. -/
theorem bookmarks_agree_iff (store : Store) (calls : List (K × V)) (m : AssocMap K V)
    (acts : List Act) (s : Bookmarks K V)
    (hrun : runSchedule (bookmarkStep store calls) (opened calls m) acts = some s) :
    (∀ k, s.disk.lookup k = s.mem.lookup k) ↔ Settled store calls m acts := by
  have h := History.run acts [] History.opened hrun
  rw [List.nil_append] at h
  rw [mem_eq h, disk_eq h]
  constructor
  · intro hagree k v hv
    rw [hagree k, lookup_insertAll, hv, Option.some_or]
  · intro hsettled k
    rw [lookup_insertAll k (writes calls (splitAtCopy store acts).2)]
    cases hlatest : latest k (writes calls (splitAtCopy store acts).2) with
    | none => rfl
    | some v => rw [hsettled k v hlatest, Option.some_or]

end

/-- Two calls that overlap and rename in the order of their copies. -/
theorem bookmarks_agree_in_order :
    ∃ s, runSchedule (bookmarkStep .filetail [("a.log", 10), ("b.log", 20)])
        (opened [("a.log", 10), ("b.log", 20)] ∅)
        [.record 0, .record 1, .rename 0, .rename 1] = some s ∧
      s.phase = [.returned, .returned] ∧ ∀ k, s.disk.lookup k = s.mem.lookup k := by
  refine ⟨_, rfl, rfl, (bookmarks_agree_iff .filetail [("a.log", 10), ("b.log", 20)] ∅
    [.record 0, .record 1, .rename 0, .rename 1] _ rfl).mpr ?_⟩
  intro k v hv
  exact absurd hv (by simp [splitAtCopy, lastRename, copies, after, writes, latest])

/-- Renamed the other way round, the older copy stays: the file has no entry for the second
call, although both have returned. So it goes in either store. -/
theorem older_copy_stays :
    (∃ s, runSchedule (bookmarkStep .filetail [("a.log", 10), ("b.log", 20)])
        (opened [("a.log", 10), ("b.log", 20)] ∅)
        [.record 0, .record 1, .rename 1, .rename 0] = some s ∧
      s.phase = [.returned, .returned] ∧
      s.mem.lookup "b.log" = some 20 ∧ s.disk.lookup "b.log" = none) ∧
    ∃ s, runSchedule (bookmarkStep .eventLog [("System", "<B1/>"), ("Security", "<B2/>")])
        (opened [("System", "<B1/>"), ("Security", "<B2/>")] ∅)
        [.record 0, .snapshot 0, .record 1, .snapshot 1, .rename 1, .rename 0] = some s ∧
      s.phase = [.returned, .returned] ∧
      s.mem.lookup "Security" = some "<B2/>" ∧ s.disk.lookup "Security" = none :=
  ⟨⟨_, rfl, rfl, by decide, by decide⟩, ⟨_, rfl, rfl, by decide, by decide⟩⟩

end SenhubAgent.FileTail

import SenhubAgent.Lib.Schedule
import SenhubAgent.Otlp.LogsQueue

/-!
# Queue accounting under every interleaving

`enqueue` and `sweepAged` hold the queue's lock from start to end. `drainAcked`
does not: it lists the files, then for each one reads it, sends it and removes or
rewrites it, with the lock taken only inside `listLocked`, `removeFile` and
`rewriteFile`. `queueStep` is that system: one action per locked section and one
per unlocked phase, in any order a schedule likes. One drain runs at a time
(`logsReplayer.running`).

The counters are deltas over what each operation believes it changed, so the
question is whether the belief is right. It is wrong in two places:

- `rewriteFile` subtracts the records of the batch it read earlier, although an
  eviction or a sweep that took the file in between subtracted them already;
- `removeFile` on a file `json.Unmarshal` gave up on half-way subtracts the
  records decoded so far, which were never counted.

`queueRun_balanced` is the account everywhere else, in every reached state.
-/

namespace SenhubAgent.Otlp

open SenhubAgent.Lib

/-! ## The interleaved queue -/

/-- How `drainAcked` reads the error of `send`. -/
inductive SendResult where
  | acked
  | discarded
  | remainder (remaining : List PersistedLogRecord)
  | failed

/-- Where the drain is. -/
inductive DrainPC where
  | idle
  | reading (name : String) (rest : List String)
  | sending (name : String) (batch : LogBatch) (rest : List String)
  | removing (name : String) (rest : List String)
  | rewriting (name : String) (old : LogBatch) (remaining : List PersistedLogRecord)

/-- The head of the loop over the listed files. -/
def DrainPC.next : List String → DrainPC
  | [] => .idle
  | name :: rest => .reading name rest

structure QueueState where
  q : LogsQueue
  pc : DrainPC

inductive QueueAction where
  | enqueue (records : List PersistedLogRecord) (now wall : Instant)
  | sweep (now : Instant)
  | list
  | read
  | send (result : SendResult)
  | remove
  | rewrite

/-- The drain's next place once `send` returned. -/
def afterSend (name : String) (b : LogBatch) (rest : List String) : SendResult → DrainPC
  | .acked => .removing name rest
  | .discarded => .removing name rest
  | .remainder remaining =>
    if remaining.isEmpty then .removing name [] else .rewriting name b remaining
  | .failed => .idle

/-- The drain's next place once it read a file. -/
def afterRead (d : Disk) (name : String) (rest : List String) : DrainPC :=
  match readBatchFile d name with
  | (b, none) => .sending name b rest
  | (_, some .notExist) => DrainPC.next rest
  | (_, some _) => .removing name rest

/-- The records `IncrementOTLPLogsReplayed` is told of. -/
def LogsQueue.countReplayed (q : LogsQueue) (b : LogBatch) : SendResult → LogsQueue
  | .acked => q.tally fun c => { c with replayed := c.replayed + b.records.length }
  | _ => q

section Step

variable (encodedLen : LogBatch → Nat)

def queueStep (s : QueueState) : QueueAction → Option QueueState
  | .enqueue records now wall => some { s with q := s.q.enqueue encodedLen records now wall }
  | .sweep now => some { s with q := s.q.sweepAged now }
  | .list =>
    match s.pc with
    | .idle => some { s with pc := DrainPC.next (listLocked s.q.disk) }
    | _ => none
  | .read =>
    match s.pc with
    | .reading name rest => some { s with pc := afterRead s.q.disk name rest }
    | _ => none
  | .send result =>
    match s.pc with
    | .sending name b rest =>
      some { q := s.q.countReplayed b result, pc := afterSend name b rest result }
    | _ => none
  | .remove =>
    match s.pc with
    | .removing name rest => some { q := s.q.removeFile name, pc := DrainPC.next rest }
    | _ => none
  | .rewrite =>
    match s.pc with
    | .rewriting name old remaining =>
      some { q := s.q.rewriteFile encodedLen name old remaining, pc := .idle }
    | _ => none

end Step

/-- The queue as `newLogsQueue` leaves it, before any step. -/
def QueueState.start (maxBytes maxAge : Int) (dir : Disk) (clock : Instant) : QueueState :=
  ⟨newLogsQueue maxBytes maxAge dir clock, .idle⟩

/-- The counters agree with the disk. -/
structure LogsQueue.Balanced (q : LogsQueue) : Prop where
  recs : q.records = total (fun _ f => f.readable) q.disk
  size : q.sizeBytes = total (fun _ f => f.size) q.disk

/-- The step leaves the account right: a rewrite finds its file on disk, a
removal does not find half-decoded records, and the sequence does not wrap. -/
def undisturbed (s : QueueState) : QueueAction → Bool
  | .enqueue records _ _ => records.isEmpty || decide (s.q.seq + 1 < 2 ^ 64)
  | .remove =>
    match s.pc with
    | .removing name _ =>
      match s.q.disk.lookup name with
      | some ⟨_, .undecodable b⟩ => b.records.isEmpty
      | _ => true
    | _ => true
  | .rewrite =>
    match s.pc with
    | .rewriting name _ _ => (s.q.disk.lookup name).isSome
    | _ => true
  | _ => true

/-! ## What each operation does to the account -/

/-- Files only left, and no sequence number was used. -/
structure Shrinks (q q' : LogsQueue) : Prop where
  seq : q'.seq = q.seq
  file : ∀ {name f}, q'.disk.lookup name = some f → q.disk.lookup name = some f

theorem Shrinks.refl (q : LogsQueue) : Shrinks q q := ⟨rfl, fun h => h⟩

theorem Shrinks.trans {a b c : LogsQueue} (h₁ : Shrinks a b) (h₂ : Shrinks b c) : Shrinks a c :=
  ⟨h₂.seq.trans h₁.seq, fun h => h₁.file (h₂.file h)⟩

variable {q q' : LogsQueue} {f : BatchFile} {name : String} {b : LogBatch} {pc : DrainPC}

theorem Shrinks.tally (h : Shrinks q q') (c : QueueCounters → QueueCounters) :
    Shrinks q (q'.tally c) := ⟨h.seq, h.file⟩

theorem LogsQueue.Balanced.tally (h : q.Balanced) (c : QueueCounters → QueueCounters) :
    (q.tally c).Balanced := ⟨h.recs, h.size⟩

theorem unlink_shrinks (q : LogsQueue) (name : String) (f : BatchFile) (n : Nat) :
    Shrinks q (q.unlink name f n) :=
  ⟨rfl, fun h => lookup_of_erase h⟩

theorem unlink_balanced (hq : q.Balanced) (hf : q.disk.lookup name = some f) :
    (q.unlink name f f.readable).Balanced := by
  have hrecs := total_erase (fun _ (f : BatchFile) => f.readable) hf
  have hsize := total_erase (fun _ (f : BatchFile) => f.size) hf
  constructor
  · simp only [LogsQueue.unlink, hq.recs]
    omega
  · simp only [LogsQueue.unlink, hq.size]
    omega

/-- A balanced queue is not touched by the clamps at zero. -/
theorem LogsQueue.Balanced.clamp (hq : q.Balanced) :
    max q.records 0 = q.records ∧ max q.sizeBytes 0 = q.sizeBytes := by
  have hrecs := hq.recs
  have hsize := hq.size
  omega

theorem evictLoop_spec :
    ∀ (names : List String) (q : LogsQueue), q.Balanced →
      (evictLoop names q).Balanced ∧ Shrinks q (evictLoop names q) := by
  intro names
  induction names with
  | nil => intro q hq; exact ⟨hq, Shrinks.refl q⟩
  | cons name rest ih =>
    intro q hq
    unfold evictLoop
    split
    next => exact ⟨hq, Shrinks.refl q⟩
    next =>
      split
      next => exact ih q hq
      next f hf =>
        have hleft := unlink_balanced hq hf
        obtain ⟨hbal, hshr⟩ := ih _ (hleft.tally _)
        exact ⟨hbal, ((unlink_shrinks q name f f.readable).tally _).trans hshr⟩

theorem evictLocked_spec (hq : q.Balanced) : q.evictLocked.Balanced ∧ Shrinks q q.evictLocked := by
  unfold LogsQueue.evictLocked
  split
  next => exact ⟨hq, Shrinks.refl q⟩
  next =>
    obtain ⟨hbal, hshr⟩ := evictLoop_spec (listLocked q.disk) q hq
    obtain ⟨hrecs, hsize⟩ := hbal.clamp
    simp only [hrecs, hsize]
    exact ⟨hbal, hshr⟩

theorem readable_of_read (h : f.read = (b, none)) : f.readable = b.records.length := by
  unfold BatchFile.readable
  rw [h]

theorem sweepLoop_spec (cutoff : Instant) :
    ∀ (names : List String) (q : LogsQueue) (n : Nat), q.Balanced →
      (sweepLoop cutoff names q n).1.Balanced ∧ Shrinks q (sweepLoop cutoff names q n).1 := by
  intro names
  induction names with
  | nil => intro q n hq; exact ⟨hq, Shrinks.refl q⟩
  | cons name rest ih =>
    intro q n hq
    unfold sweepLoop
    split
    next => exact ih q n hq
    next f hf =>
      split
      next => exact ih q n hq
      next b hread =>
        split
        next =>
          have hleft := unlink_balanced hq hf
          rw [readable_of_read hread] at hleft
          obtain ⟨hbal, hshr⟩ := ih _ (n + 1) (hleft.tally _)
          exact ⟨hbal, ((unlink_shrinks q name f b.records.length).tally _).trans hshr⟩
        next => exact ih q n hq

theorem sweepAged_spec (hq : q.Balanced) (now : Instant) :
    (q.sweepAged now).Balanced ∧ Shrinks q (q.sweepAged now) := by
  unfold LogsQueue.sweepAged
  split
  next => exact ⟨hq, Shrinks.refl q⟩
  next =>
    obtain ⟨hbal, hshr⟩ := sweepLoop_spec (now - q.maxAge) (listLocked q.disk) q 0 hq
    obtain ⟨hrecs, hsize⟩ := hbal.clamp
    simp only
    split
    next => exact ⟨hbal, hshr⟩
    next => exact ⟨⟨hrecs.trans hbal.recs, hsize.trans hbal.size⟩, ⟨hshr.seq, hshr.file⟩⟩

/-- A removal is right unless it reads records no one counted. -/
theorem removeFile_spec (hq : q.Balanced)
    (hread : ∀ f, q.disk.lookup name = some f → f.read.1.records.length = f.readable) :
    (q.removeFile name).Balanced ∧ Shrinks q (q.removeFile name) := by
  unfold LogsQueue.removeFile
  split
  next => exact ⟨hq, Shrinks.refl q⟩
  next f hf =>
    rw [hread f hf]
    have hleft := unlink_balanced hq hf
    have hshr := unlink_shrinks q name f f.readable
    obtain ⟨hrecs, hsize⟩ := hleft.clamp
    exact ⟨⟨hrecs.trans hleft.recs, hsize.trans hleft.size⟩, ⟨hshr.seq, hshr.file⟩⟩

/-! ## Names are never used twice -/

/-- The name belongs to no sequence number still to come. -/
def Used (q : LogsQueue) (name : String) : Prop := ∀ n, scanSeq name = some n → n ≤ q.seq

theorem Used.ne_next (h : Used q name) (hseq : q.seq + 1 < 2 ^ 64) :
    name ≠ fileName (q.seq + 1) := by
  intro heq
  have hle := h (q.seq + 1) (by rw [heq]; exact scanSeq_fileName hseq)
  omega

theorem Used.mono (h : Used q name) (hseq : q.seq ≤ q'.seq) :
    Used q' name := fun n hn => Nat.le_trans (h n hn) hseq

/-- What the drain remembers of a file is still true of it, if it is there. -/
structure Remembers (q : LogsQueue) (name : String) (b : LogBatch) : Prop where
  used : Used q name
  same : ∀ f, q.disk.lookup name = some f → f.read = (b, none)

/-- Only a drain between reading a file and settling it remembers anything. -/
def DrainPC.Remembers (q : LogsQueue) : DrainPC → Prop
  | .sending name b _ => Otlp.Remembers q name b
  | .rewriting name b _ => Otlp.Remembers q name b
  | _ => True

/-- The run invariant. -/
structure QueueState.Inv (s : QueueState) : Prop where
  balanced : s.q.Balanced
  names : ∀ {name f}, s.q.disk.lookup name = some f → Used s.q name
  remembers : s.pc.Remembers s.q

theorem Remembers.shrinks (h : Remembers q name b) (hshr : Shrinks q q') : Remembers q' name b :=
  ⟨h.used.mono (by rw [hshr.seq]), fun f hf => h.same f (hshr.file hf)⟩

theorem DrainPC.Remembers.shrinks (h : pc.Remembers q) (hshr : Shrinks q q') : pc.Remembers q' := by
  cases pc with
  | sending name b rest | rewriting name b remaining => exact Otlp.Remembers.shrinks h hshr
  | idle => trivial
  | reading name rest => trivial
  | removing name rest => trivial

theorem next_remembers (q : LogsQueue) (names : List String) :
    (DrainPC.next names).Remembers q := by
  cases names with
  | nil => trivial
  | cons name rest => trivial

/-- Removing files keeps the invariant, wherever the drain is. -/
theorem QueueState.Inv.shrinks (h : QueueState.Inv ⟨q, pc⟩) (hq : q'.Balanced ∧ Shrinks q q') :
    QueueState.Inv ⟨q', pc⟩ where
  balanced := hq.1
  names := fun hf => (h.names (hq.2.file hf)).mono (by rw [hq.2.seq])
  remembers := h.remembers.shrinks hq.2

/-- The drain moving to a place where it remembers nothing. -/
theorem QueueState.Inv.move {pc' : DrainPC} (h : QueueState.Inv ⟨q, pc⟩) (hpc : pc'.Remembers q) :
    QueueState.Inv ⟨q, pc'⟩ :=
  ⟨h.balanced, h.names, hpc⟩

/-! ## One step -/

section Step

variable (encodedLen : LogBatch → Nat)

theorem readable_encode (now : Instant) (records : List PersistedLogRecord) :
    (encode encodedLen ⟨logsQueueFileVersion, now, records⟩).readable = records.length := rfl

/-- A new file comes under a name no file has, and nothing the drain remembers. -/
theorem append_inv (h : QueueState.Inv ⟨q, pc⟩) (records : List PersistedLogRecord)
    (now wall : Instant) (hseq : q.seq + 1 < 2 ^ 64) :
    QueueState.Inv ⟨q.append encodedLen records now wall, pc⟩ := by
  have hmod : (q.seq + 1) % 2 ^ 64 = q.seq + 1 := Nat.mod_eq_of_lt hseq
  have hdisk : (q.append encodedLen records now wall).disk = q.disk.insert (fileName (q.seq + 1))
      (encode encodedLen ⟨logsQueueFileVersion, now, records⟩) := by
    simp only [LogsQueue.append, hmod]
  have hnext : (q.append encodedLen records now wall).seq = q.seq + 1 := hmod
  -- no file has the next name, so the insertion replaces nothing
  have hfresh : q.disk.erase (fileName (q.seq + 1)) = q.disk := by
    refine erase_of_absent fun hin => ?_
    obtain ⟨f, hf⟩ := exists_lookup hin
    exact (h.names hf).ne_next hseq rfl
  have hother : ∀ {name f}, Used q name →
      (q.append encodedLen records now wall).disk.lookup name = some f →
      q.disk.lookup name = some f := by
    intro name f hused hf
    rwa [hdisk, AList.lookup_insert_ne (hused.ne_next hseq)] at hf
  have hbal : q.Balanced := h.balanced
  refine ⟨⟨?_, ?_⟩, ?_, ?_⟩
  · rw [hdisk, total_insert, hfresh, readable_encode]
    simp only [LogsQueue.append, hbal.recs]
    omega
  · rw [hdisk, total_insert, hfresh]
    simp only [LogsQueue.append, hbal.size]
    omega
  · intro name f hf
    by_cases hname : name = fileName (q.seq + 1)
    · intro n hn
      rw [hname, scanSeq_fileName hseq] at hn
      simp only [hnext, ← Option.some.inj hn, Nat.le_refl]
    · simp only [hdisk, AList.lookup_insert_ne hname] at hf
      exact (h.names hf).mono (by simp [hnext])
  · have hkeep : ∀ {name b}, Remembers q name b →
        Remembers (q.append encodedLen records now wall) name b := fun hr =>
      ⟨hr.used.mono (by simp [hnext]), fun f hf => hr.same f (hother hr.used hf)⟩
    have hrem := h.remembers
    cases pc with
    | sending name b rest => exact hkeep hrem
    | rewriting name b remaining => exact hkeep hrem
    | idle => trivial
    | reading name rest => trivial
    | removing name rest => trivial

theorem enqueue_inv (h : QueueState.Inv ⟨q, pc⟩) (records : List PersistedLogRecord)
    (now wall : Instant) (hseq : records.isEmpty = true ∨ q.seq + 1 < 2 ^ 64) :
    QueueState.Inv ⟨q.enqueue encodedLen records now wall, pc⟩ := by
  unfold LogsQueue.enqueue
  split
  next => exact h
  next hne =>
    have happ := append_inv encodedLen h records now wall (hseq.resolve_left hne)
    exact happ.shrinks (evictLocked_spec happ.balanced)

/-- Reading a file makes the drain remember what is there. -/
theorem read_inv (h : QueueState.Inv ⟨q, pc⟩) (name : String) (rest : List String) :
    QueueState.Inv ⟨q, afterRead q.disk name rest⟩ := by
  refine h.move ?_
  unfold afterRead
  split
  next b hread =>
    refine ⟨?_, fun f hf => by simpa only [readBatchFile, hf] using hread⟩
    unfold readBatchFile at hread
    split at hread
    next => cases hread
    next f hf => exact h.names hf
  next => exact next_remembers q rest
  next => trivial

theorem send_inv {rest : List String} (h : QueueState.Inv ⟨q, .sending name b rest⟩)
    (result : SendResult) :
    QueueState.Inv ⟨q.countReplayed b result, afterSend name b rest result⟩ := by
  cases result with
  | acked =>
    have hq := h.shrinks ⟨h.balanced.tally fun c =>
      { c with replayed := c.replayed + b.records.length }, (Shrinks.refl q).tally _⟩
    exact ⟨hq.balanced, hq.names, trivial⟩
  | discarded => exact h.move trivial
  | failed => exact h.move trivial
  | remainder remaining =>
    refine h.move ?_
    simp only [afterSend]
    split
    next => trivial
    next => exact h.remembers

theorem remove_inv (h : QueueState.Inv ⟨q, pc⟩) (rest : List String)
    (hdec : ∀ size b, q.disk.lookup name = some ⟨size, .undecodable b⟩ → b.records = []) :
    QueueState.Inv ⟨q.removeFile name, DrainPC.next rest⟩ := by
  refine (h.shrinks (removeFile_spec h.balanced fun f hf => ?_)).move (next_remembers _ rest)
  rcases f with ⟨size, content⟩
  cases content with
  -- `removeFile` takes off what was decoded before the error; by `hdec` that is nothing
  | undecodable b => simp [BatchFile.read, BatchFile.readable, hdec size b hf]
  | batch b =>
    unfold BatchFile.readable BatchFile.read
    simp only
    split
    next => rfl
    next => rfl

/-- A rewrite that finds its file replaces exactly the records it read. -/
theorem rewrite_inv {old : LogBatch} {remaining : List PersistedLogRecord}
    (h : QueueState.Inv ⟨q, .rewriting name old remaining⟩)
    (hthere : (q.disk.lookup name).isSome = true) :
    QueueState.Inv ⟨q.rewriteFile encodedLen name old remaining, .idle⟩ := by
  obtain ⟨f, hf⟩ := Option.isSome_iff_exists.mp hthere
  -- the file is still the one the drain read, so its delta is exact
  have hold : f.readable = old.records.length := readable_of_read (h.remembers.same f hf)
  have hrecs := total_erase (fun _ (f : BatchFile) => f.readable) hf
  have hsize := total_erase (fun _ (f : BatchFile) => f.size) hf
  have hbal : q.Balanced := h.balanced
  have hbrecs := hbal.recs
  have hbsize := hbal.size
  refine ⟨⟨?_, ?_⟩, ?_, trivial⟩
  · simp only [LogsQueue.rewriteFile, total_insert, readable_encode]
    omega
  · simp only [LogsQueue.rewriteFile, total_insert, hf]
    omega
  · intro name' f' hf'
    by_cases hname : name' = name
    · exact hname ▸ h.remembers.used
    · simp only [LogsQueue.rewriteFile, AList.lookup_insert_ne hname] at hf'
      exact h.names hf'

/-- **Every undisturbed step keeps the account.** -/
theorem queueStep_inv (s : QueueState) (a : QueueAction) (s' : QueueState) (h : s.Inv)
    (hok : undisturbed s a = true) (hstep : queueStep encodedLen s a = some s') : s'.Inv := by
  rcases s with ⟨q, pc⟩
  cases a with
  | enqueue records now wall =>
    cases hstep
    exact enqueue_inv encodedLen h records now wall (by simpa [undisturbed] using hok)
  | sweep now =>
    cases hstep
    exact h.shrinks (sweepAged_spec h.balanced now)
  | list =>
    cases pc <;> cases hstep
    exact h.move (next_remembers q _)
  | read =>
    cases pc <;> cases hstep
    exact read_inv h _ _
  | send result =>
    cases pc <;> cases hstep
    exact send_inv h result
  | remove =>
    cases pc <;> cases hstep
    refine remove_inv h _ fun size b hf => ?_
    simpa [undisturbed, hf] using hok
  | rewrite =>
    cases pc <;> cases hstep
    exact rewrite_inv encodedLen h (by simpa [undisturbed] using hok)

end Step

/-! ## Whole runs -/

/-- The loop of `recover` adds up the entries, and its sequence covers them. -/
theorem recoverLoop_spec :
    ∀ (entries : List (Sigma fun _ : String => BatchFile)) (size recs seq : Nat),
      (recoverLoop entries (size, recs, seq)).1 = size + (entries.map fun e => e.2.size).sum ∧
      (recoverLoop entries (size, recs, seq)).2.1
        = recs + (entries.map fun e => e.2.readable).sum ∧
      seq ≤ (recoverLoop entries (size, recs, seq)).2.2 ∧
      ∀ e ∈ entries, ∀ n, scanSeq e.1 = some n →
        n ≤ (recoverLoop entries (size, recs, seq)).2.2 := by
  intro entries
  induction entries with
  | nil => intro size recs seq; simp [recoverLoop]
  | cons e rest ih =>
    intro size recs seq
    rcases e with ⟨name, f⟩
    simp only [recoverLoop]
    obtain ⟨hsize, hrecs, hle, hcover⟩ :=
      ih (size + f.size) (recs + f.readable) (higherSeq name seq)
    simp only [List.map_cons, List.sum_cons]
    refine ⟨by rw [hsize]; omega, by rw [hrecs]; omega, Nat.le_trans ?_ hle, fun e he n hn => ?_⟩
    · unfold higherSeq
      split
      next => exact Nat.le_max_right ..
      next => exact Nat.le_refl _
    · rcases List.mem_cons.mp he with rfl | hin
      · refine Nat.le_trans ?_ hle
        simp only [higherSeq, hn]
        exact Nat.le_max_left ..
      · exact hcover e hin n hn

theorem start_inv (maxBytes maxAge : Int) (dir : Disk) (clock : Instant) :
    (QueueState.start maxBytes maxAge dir clock).Inv := by
  obtain ⟨hsize, hrecs, _, hcover⟩ := recoverLoop_spec dir.entries 0 0 0
  refine ⟨⟨?_, ?_⟩, fun {name f} hf n hn => ?_, trivial⟩
  · exact congrArg Int.ofNat (hrecs.trans (Nat.zero_add _))
  · exact congrArg Int.ofNat (hsize.trans (Nat.zero_add _))
  · exact hcover ⟨name, f⟩ (AList.mem_lookup_iff.mp hf) n hn

/-- **Queue accounting.** In every run from any directory, under any
interleaving, as long as no rewrite finds its file gone, no removal finds
half-decoded records and the sequence does not wrap: the counters are the
totals on disk. -/
theorem queueRun_balanced (encodedLen : LogBatch → Nat) (maxBytes maxAge : Int) (dir : Disk)
    (clock : Instant) (actions : List QueueAction) (s : QueueState)
    (hok : Admits (queueStep encodedLen) (fun s a => undisturbed s a = true)
      (QueueState.start maxBytes maxAge dir clock) actions)
    (hrun : runSchedule (queueStep encodedLen) (QueueState.start maxBytes maxAge dir clock) actions
      = some s) :
    s.q.records = total (fun _ f => f.readable) s.q.disk ∧
    s.q.sizeBytes = total (fun _ f => f.size) s.q.disk := by
  have hinv := runSchedule_inv (queueStep_inv encodedLen) actions
    (start_inv maxBytes maxAge dir clock) hok hrun
  exact ⟨hinv.balanced.recs, hinv.balanced.size⟩

/-- An event log of the runs below. -/
def sampleRecord (ts : Int64) : PersistedLogRecord where
  timestampUnixNano := ts
  observedTimestampUnixNano := ts
  severityNumber := 9
  severityText := "INFO"
  body := "service started"
  attributes := []
  distinct := List.nodup_nil

def sampleLen (b : LogBatch) : Nat := 60 + 80 * b.records.length

/-- A batch of two is queued, one of its records is delivered, a batch of one is
queued before the remainder is written back. -/
def steadyReplay : List QueueAction :=
  [.enqueue [sampleRecord 1, sampleRecord 2] 100 100, .list, .read,
    .send (.remainder [sampleRecord 2]), .enqueue [sampleRecord 3] 110 110, .rewrite]

theorem queueRun_balanced_steadyReplay :
    ∃ s, runSchedule (queueStep sampleLen) (QueueState.start 0 10 ∅ 0) steadyReplay = some s ∧
      s.q.records = total (fun _ f => f.readable) s.q.disk ∧
      s.q.sizeBytes = total (fun _ f => f.size) s.q.disk := by
  obtain ⟨s, hs⟩ := Option.isSome_iff_exists.mp
    (by decide : (runSchedule (queueStep sampleLen) (QueueState.start 0 10 ∅ 0)
      steadyReplay).isSome = true)
  exact ⟨s, hs, queueRun_balanced sampleLen 0 10 ∅ 0 steadyReplay s (by decide) hs⟩

/-- The same batch, swept for its age while it was being sent. -/
def sweptReplay : List QueueAction :=
  [.enqueue [sampleRecord 1, sampleRecord 2] 100 100, .list, .read, .sweep 200,
    .send (.remainder [sampleRecord 2]), .rewrite]

/-- The record is on disk and the queue says it is empty: the sweep took both
records off the count, and the rewrite took them off again. -/
theorem sweptReplay_drifts :
    ∃ s, runSchedule (queueStep sampleLen) (QueueState.start 0 10 ∅ 0) sweptReplay = some s ∧
      s.pc = .idle ∧ s.q.records = 0 ∧ total (fun _ f => f.readable) s.q.disk = 1 :=
  ⟨_, rfl, rfl, by decide, by decide⟩

end SenhubAgent.Otlp

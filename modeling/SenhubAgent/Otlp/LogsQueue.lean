import Mathlib.Data.List.Sort
import Mathlib.Data.List.TakeWhile
import SenhubAgent.Lib.AssocMap
import SenhubAgent.Otlp.ExportError
import SenhubAgent.Otlp.LogRecord

/-!
# The on-disk logs queue

`logsQueue` keeps one JSON file per failed batch and three counters beside the
directory: the file sequence, the bytes and the records on disk. This file models
every operation that touches them (`recover`, `enqueue` with `evictLocked`,
`sweepAged`, `removeFile`, `rewriteFile`), each as one function on the queue: the
source runs each under `mu`. `QueueAccount` interleaves them.

Mirroring notes:
- The directory is a map from `.json` file names to files; other entries are
  never looked at. File operations succeed, except on a file that is not there.
- A file is its size and what `json.Unmarshal` makes of it. A type mismatch is
  reported *after* the fields around it were decoded, so an undecodable file
  comes with the batch decoded so far, which `removeFile` reads.
- `encodedLen` is the length of `json.Marshal`; a batch written is the batch
  read back.
- `int64` and `int` counters are unbounded; the sequence is `uint64` and wraps.
- Clock readings are arguments.
-/

namespace SenhubAgent.Otlp

open SenhubAgent.Lib

/-! ## Batch files -/

/-- `logBatch`. -/
structure LogBatch where
  version : Int
  savedAt : Instant
  records : List PersistedLogRecord
  deriving DecidableEq

def logsQueueFileVersion : Int := 1

/-- The zero `logBatch`. -/
def LogBatch.zero : LogBatch := ⟨0, zeroTime, []⟩

/-- What `json.Unmarshal` makes of a file. -/
inductive Content where
  | batch (b : LogBatch)
  | undecodable (decoded : LogBatch)
  deriving DecidableEq

structure BatchFile where
  size : Nat
  content : Content
  deriving DecidableEq

inductive ReadErr where
  | notExist
  | unmarshal
  | newerVersion (version : Int)
  deriving DecidableEq

/-- The part of `readBatchFile` after `os.ReadFile`. -/
def BatchFile.read (f : BatchFile) : LogBatch × Option ReadErr :=
  match f.content with
  | .undecodable b => (b, some .unmarshal)
  | .batch b =>
    if b.version > logsQueueFileVersion then (LogBatch.zero, some (.newerVersion b.version))
    else (b, none)

/-- The files of the queue directory, by name. -/
abbrev Disk := AssocMap String BatchFile

def readBatchFile (d : Disk) (name : String) : LogBatch × Option ReadErr :=
  match d.lookup name with
  | none => (LogBatch.zero, some .notExist)
  | some f => f.read

/-- `listLocked`: the names in lexical order. -/
def listLocked (d : Disk) : List String := d.keys.insertionSort (· ≤ ·)

/-- The records a readable file holds; nothing in an unreadable one counts. -/
def BatchFile.readable (f : BatchFile) : Nat :=
  match f.read with
  | (b, none) => b.records.length
  | (_, some _) => 0

/-! ## File names -/

/-- `fmt.Sprintf("%020d", n)`. -/
def pad20 (n : Nat) : List Char :=
  List.replicate (20 - (Nat.toDigits 10 n).length) '0' ++ Nat.toDigits 10 n

/-- `fmt.Sprintf("log-%020d.json", seq)`. -/
def fileName (seq : Nat) : String := String.ofList ("log-".toList ++ pad20 seq ++ ".json".toList)

/-- Go's `fmt` space characters. -/
def isScanSpace (c : Char) : Bool :=
  let n := c.toNat
  decide ((9 ≤ n ∧ n ≤ 13) ∨ n = 0x20 ∨ n = 0x85 ∨ n = 0xa0 ∨ n = 0x1680 ∨
    (0x2000 ≤ n ∧ n ≤ 0x200a) ∨ n = 0x2028 ∨ n = 0x2029 ∨ n = 0x202f ∨ n = 0x205f ∨ n = 0x3000)

/-- `SkipSpace` under `Sscanf`, where a newline is an error. -/
def skipSpace : List Char → Option (List Char)
  | [] => some []
  | c :: cs =>
    if c = '\n' then none
    else if isScanSpace c then skipSpace cs
    else some (c :: cs)

/-- `fmt.Sscanf(name, "log-%020d.json", &s)`: at most twenty digits, a `uint64`. -/
def scanSeq (name : String) : Option Nat := do
  let rest ← stripPrefix "log-".toList name.toList
  let rest ← skipSpace rest
  let digits := (rest.take 20).takeWhile Char.isDigit
  if digits.isEmpty then none
  else
    let n := Nat.ofDigitChars 10 digits 0
    if n ≥ 2 ^ 64 then none
    else
      let _ ← stripPrefix ".json".toList (rest.drop digits.length)
      some n

/-! ## The queue -/

/-- The process-wide counters the queue feeds. -/
structure QueueCounters where
  queued : Nat := 0
  replayed : Nat := 0
  droppedByAge : Nat := 0
  queueFull : Nat := 0
  deriving DecidableEq

/-- `logsQueue`, with the directory it owns. -/
structure LogsQueue where
  maxBytes : Int
  maxAge : Int
  seq : Nat
  sizeBytes : Int
  records : Int
  oldestAt : Instant
  disk : Disk
  counters : QueueCounters := {}

/-- A file leaves the disk, and the counters with it. -/
def LogsQueue.unlink (q : LogsQueue) (name : String) (f : BatchFile) (records : Nat) : LogsQueue :=
  { q with
    disk := q.disk.erase name
    sizeBytes := q.sizeBytes - f.size
    records := q.records - records }

/-- The process-wide counters are told. -/
def LogsQueue.tally (q : LogsQueue) (f : QueueCounters → QueueCounters) : LogsQueue :=
  { q with counters := f q.counters }

def defaultLogsQueueMaxBytes : Int := 128 * 2 ^ 20

/-- The higher of a file's sequence number, if its name has one, and the highest
so far. -/
def higherSeq (name : String) (maxSeq : Nat) : Nat :=
  match scanSeq name with
  | some s => max s maxSeq
  | none => maxSeq

/-- The loop of `recover`: bytes, records and highest sequence so far. -/
def recoverLoop : List (Sigma fun _ : String => BatchFile) → Nat × Nat × Nat → Nat × Nat × Nat
  | [], acc => acc
  | ⟨name, f⟩ :: rest, (total, recs, maxSeq) =>
    recoverLoop rest (total + f.size, recs + f.readable, higherSeq name maxSeq)

/-- `newLogsQueue` and `setMaxAge` without its sweep: `recover` counts what a
previous run left in the directory. -/
def newLogsQueue (maxBytes maxAge : Int) (dir : Disk) (clock : Instant) : LogsQueue :=
  let (total, recs, maxSeq) := recoverLoop dir.entries (0, 0, 0)
  { maxBytes := if maxBytes ≤ 0 then defaultLogsQueueMaxBytes else maxBytes
    maxAge := maxAge
    seq := maxSeq
    sizeBytes := total
    records := recs
    oldestAt := if recs > 0 then clock else zeroTime
    disk := dir }

/-- The loop of `evictLocked`, oldest file first. -/
def evictLoop : List String → LogsQueue → LogsQueue
  | [], q => q
  | name :: rest, q =>
    if q.sizeBytes ≤ q.maxBytes then q
    else
      match q.disk.lookup name with
      | none => evictLoop rest q
      | some f =>
        evictLoop rest ((q.unlink name f f.readable).tally
          fun c => { c with queueFull := c.queueFull + f.readable })

def LogsQueue.evictLocked (q : LogsQueue) : LogsQueue :=
  if q.sizeBytes ≤ q.maxBytes then q
  else
    let q := evictLoop (listLocked q.disk) q
    { q with sizeBytes := max q.sizeBytes 0, records := max q.records 0 }

/-- The loop of `sweepAged`, with the count of files dropped. -/
def sweepLoop (cutoff : Instant) : List String → LogsQueue → Nat → LogsQueue × Nat
  | [], q, n => (q, n)
  | name :: rest, q, n =>
    match q.disk.lookup name with
    | none => sweepLoop cutoff rest q n
    | some f =>
      match f.read with
      -- a file that cannot be read has no age
      | (_, some _) => sweepLoop cutoff rest q n
      | (b, none) =>
        if b.savedAt < cutoff then
          sweepLoop cutoff rest ((q.unlink name f b.records.length).tally
            fun c => { c with droppedByAge := c.droppedByAge + b.records.length }) (n + 1)
        else sweepLoop cutoff rest q n

def LogsQueue.sweepAged (q : LogsQueue) (now : Instant) : LogsQueue :=
  if q.maxAge ≤ 0 then q
  else
    let (q, droppedFiles) := sweepLoop (now - q.maxAge) (listLocked q.disk) q 0
    if droppedFiles = 0 then q
    else
      { q with
        sizeBytes := max q.sizeBytes 0
        records := max q.records 0
        oldestAt := if q.records ≤ 0 then zeroTime else q.oldestAt }

def LogsQueue.removeFile (q : LogsQueue) (name : String) : LogsQueue :=
  match q.disk.lookup name with
  | none => q
  | some f =>
    -- the error of `readBatchFile` is ignored, what it decoded is not
    let q := q.unlink name f f.read.1.records.length
    let records := max q.records 0
    { q with
      sizeBytes := max q.sizeBytes 0
      records := records
      oldestAt := if records = 0 then zeroTime else q.oldestAt }

section Encode

variable (encodedLen : LogBatch → Nat)

/-- The file `os.WriteFile` and `os.Rename` leave. -/
def encode (b : LogBatch) : BatchFile := ⟨encodedLen b, .batch b⟩

/-- The first half of `enqueue`: a new file, under the next sequence number, and
what it adds to the counters. -/
def LogsQueue.append (q : LogsQueue) (records : List PersistedLogRecord) (now wall : Instant) :
    LogsQueue :=
  let seq := (q.seq + 1) % 2 ^ 64
  let file := encode encodedLen ⟨logsQueueFileVersion, now, records⟩
  { q with
    seq := seq
    disk := q.disk.insert (fileName seq) file
    sizeBytes := q.sizeBytes + file.size
    records := q.records + records.length
    oldestAt := if q.oldestAt = zeroTime then wall else q.oldestAt
    counters := { q.counters with queued := q.counters.queued + records.length } }

/-- `enqueue`; `now` is the queue's clock, `wall` the wall clock. -/
def LogsQueue.enqueue (q : LogsQueue) (records : List PersistedLogRecord) (now wall : Instant) :
    LogsQueue :=
  if records.isEmpty then q else (q.append encodedLen records now wall).evictLocked

/-- `rewriteFile`: the batch keeps its name and its `SavedAt`. -/
def LogsQueue.rewriteFile (q : LogsQueue) (name : String) (old : LogBatch)
    (remaining : List PersistedLogRecord) : LogsQueue :=
  let oldSize := match q.disk.lookup name with
    | some f => f.size
    | none => 0
  let file := encode encodedLen ⟨logsQueueFileVersion, old.savedAt, remaining⟩
  -- the delta is against the batch read before the send, whatever is on disk now
  let records := max (q.records + (remaining.length - old.records.length)) 0
  { q with
    disk := q.disk.insert name file
    sizeBytes := q.sizeBytes + (file.size - oldSize)
    records := records
    oldestAt := if records = 0 then zeroTime else q.oldestAt }

end Encode

/-! ## Names round-trip -/

theorem pad20_length {n : Nat} (h : n < 2 ^ 64) : (pad20 n).length = 20 := by
  have hlen : (Nat.toDigits 10 n).length ≤ 20 :=
    (Nat.length_toDigits_le_iff (by decide) (by decide)).mpr (Nat.lt_of_lt_of_le h (by decide))
  unfold pad20
  rw [List.length_append, List.length_replicate]
  omega

theorem pad20_digits (n : Nat) : ∀ c ∈ pad20 n, c.isDigit = true := by
  intro c hc
  rcases List.mem_append.mp hc with hzero | hdigit
  · rw [List.eq_of_mem_replicate hzero]
    decide
  · exact Nat.isDigit_of_mem_toDigits (by decide) (by decide) hdigit

theorem pad20_value (n : Nat) : Nat.ofDigitChars 10 (pad20 n) 0 = n := by
  unfold pad20
  rw [Nat.ofDigitChars_append, Nat.ofDigitChars_replicate_zero]
  simp

theorem skipSpace_digit {c : Char} {cs : List Char} (h : c.isDigit = true) :
    skipSpace (c :: cs) = some (c :: cs) := by
  have hrange : 48 ≤ c.toNat ∧ c.toNat ≤ 57 := by
    simp only [Char.isDigit, Bool.and_eq_true, decide_eq_true_eq, ge_iff_le,
      UInt32.le_iff_toNat_le] at h
    exact h
  have hnl : c ≠ '\n' := by
    rintro rfl
    exact absurd h (by decide)
  have hspace : isScanSpace c = false := decide_eq_false (by omega)
  simp [skipSpace, hnl, hspace]

/-- The name of a sequence number scans back to it. -/
theorem scanSeq_fileName {n : Nat} (h : n < 2 ^ 64) : scanSeq (fileName n) = some n := by
  have hlen := pad20_length h
  obtain ⟨c, cs, hcons⟩ : ∃ c cs, pad20 n = c :: cs := by
    cases hp : pad20 n with
    | nil => rw [hp] at hlen; cases hlen
    | cons c cs => exact ⟨c, cs, rfl⟩
  have hskip : skipSpace (pad20 n ++ ".json".toList) = some (pad20 n ++ ".json".toList) := by
    rw [hcons]
    exact skipSpace_digit (pad20_digits n c (by rw [hcons]; exact List.mem_cons_self ..))
  have hdigits : ((pad20 n ++ ".json".toList).take 20).takeWhile Char.isDigit = pad20 n := by
    rw [List.take_append_of_le_length (by omega), ← hlen, List.take_length]
    exact List.takeWhile_eq_self_iff.mpr (pad20_digits n)
  have hne : (pad20 n).isEmpty = false := by rw [hcons]; rfl
  have hname : (fileName n).toList = "log-".toList ++ (pad20 n ++ ".json".toList) := by
    rw [← List.append_assoc]
    exact String.toList_ofList
  unfold scanSeq
  rw [hname, stripPrefix_append]
  simp only [Option.bind_eq_bind, Option.bind_some, hskip, hdigits, hne, pad20_value,
    List.drop_left, Bool.false_eq_true, if_false, ge_iff_le]
  rw [if_neg (by omega)]
  rfl

end SenhubAgent.Otlp

import SenhubAgent.Lib.Lines
import SenhubAgent.Lib.Schedule
import SenhubAgent.LogParse.Multiline

/-!
# The filetail consume loop

`consume` reads one tailed file: it folds the lines the library hands over into
records, publishes them, and keeps in `ts.committed` the offset a restart may resume
at. Lines reach the assembler from three sides: the library's channel, the old file
drained through the probe's own handle when the library is about to leave it, and
rotated files still polled in their grace. Three branches reset the offset: the
library reopened the file, a line came with a smaller offset, and the start itself.

The loop is a step function on `Tail`; an event is one turn of the `select`. The ghosts
say what the lines were: `fed` holds every line given to the assembler with the file it
came from and the offset after it, `published` every record handed to `publish`. A file
is named by the number of restarts at a first byte so far (`gen`).

What is assumed of the library is in the guards of `step`: a line ends after the line
before it (it has at least a newline) unless the file shrank, and between announcing
that it leaves a file and reopening it hands over no line (`draining`).

Mirroring notes:
- When timers and tickers fire, and what can be read from a file, is up to the events.
- Bookmark writes succeed; the fingerprint beside the offset is left out, as are the
  stall detection's `offset`, `opened` and `headFP`.
- Parsing and publishing a record is `publish`; the loop hands it the record's text.
-/

namespace SenhubAgent.FileTail

open SenhubAgent.Lib SenhubAgent.LogParse

/-- A physical line: the file, the text and the offset after it. -/
structure Line where
  gen : Nat
  text : Bytes
  ends : Int

/-- `strings.TrimSuffix(text, "\r")`. -/
def trimCR (text : Bytes) : Bytes := if text.getLast? = some 13 then text.dropLast else text

/-- What the assembler is given of a line. -/
def Line.body (l : Line) : Bytes := trimCR l.text

/-- A rotated file whose end is still being read. -/
structure RetiredFile where
  gen : Nat
  offset : Int

structure Tail where
  asm : Assembler
  lastOffset : Int
  /-- the offset after the last line whose record has been published -/
  committed : Int
  /-- the file the drain handle is open on -/
  handle : Option Nat
  retired : List RetiredFile
  /-- `idleC` is not nil -/
  idleArmed : Bool
  dirty : Bool
  superseded : Bool
  /-- the offset last persisted for the file -/
  bookmark : Int
  closed : Bool
  draining : Bool
  gen : Nat
  fed : List Line
  published : List Bytes

/-- `startTail` has resolved the start offset and bookmarked it. -/
def Tail.start (cfg : MultilineConfig) (maxBytesPerLine : Int) (startOffset : Int) : Tail where
  asm := newAssembler cfg maxBytesPerLine
  lastOffset := startOffset
  committed := startOffset
  handle := some 0
  retired := []
  idleArmed := false
  dirty := false
  superseded := false
  bookmark := startOffset
  closed := false
  draining := false
  gen := 0
  fed := []
  published := []

/-- What one look at a retired file reads, and whether its grace is over. -/
structure Look where
  rest : Bytes
  release : Bool

inductive Event where
  /-- a line from the library; `flushDue` when the flush interval has passed -/
  | line (text : Bytes) (offset : Int) (flushDue : Bool)
  /-- a nil line or one with an error -/
  | noLine
  /-- the library is about to leave the file; `rest` can be read through the handle -/
  | draining (rest : Bytes)
  /-- the library reads the file from its start; `opened` when a handle on it could be
  opened, `inPlace` when it is the file read before, truncated -/
  | reopened (opened inPlace : Bool)
  | pollRetired (looks : List Look)
  | idle
  | ticker
  /-- another tail takes over the bookmark -/
  | supersede
  /-- the channel is closed -/
  | close

namespace Tail

def persist (s : Tail) : Tail :=
  if s.superseded then s else { s with bookmark := s.committed }

def armIdle (s : Tail) : Tail :=
  if s.asm.cfg.flushTimeout ≤ 0 then s else { s with idleArmed := s.asm.isPending }

/-- Give one line to the assembler and publish what it completes; the number of records. -/
def feed (s : Tail) (l : Line) : Tail × Nat :=
  let r := s.asm.append l.body
  (armIdle { s with asm := r.2, published := s.published ++ r.1, fed := s.fed ++ [l] }, r.1.length)

def feedAll (s : Tail) (ls : List Line) : Tail := ls.foldl (fun s l => (s.feed l).1) s

/-- Publish the record in progress. -/
def flushOut (s : Tail) : Tail :=
  { s with asm := s.asm.flush.2, published := s.published ++ s.asm.flush.1 }

/-- The tail now reads a file from its first byte. -/
def restarted (s : Tail) : Tail :=
  persist { s.flushOut with lastOffset := 0, committed := 0, gen := s.gen + 1 }

/-- A handle on the file that was truncated is on the new content. -/
def followHandle (s : Tail) : Option Nat :=
  if s.handle = some s.gen then some (s.gen + 1) else s.handle

/-- The complete lines of a file from an offset, as `drainFrom` returns them. -/
def drainFrom (gen : Nat) (offset : Int) (rest : Bytes) : List Line :=
  (linesFrom newline offset rest).map fun l => ⟨gen, l.1, l.2⟩

/-- `pollRetired`: one look at each retired file, in order. -/
def pollRetired (s : Tail) : List RetiredFile → List Look → Tail × List RetiredFile
  | r :: rs, look :: looks =>
    let s := s.feedAll (drainFrom r.gen r.offset look.rest)
    let rest := pollRetired s rs looks
    let r := { r with offset := readTo newline r.offset look.rest }
    (rest.1, if look.release then rest.2 else r :: rest.2)
  | rs, _ => (s, rs)

/-- The library resets its own offset on a size shrink without a reopen event: a line
with a smaller offset is the first of the truncated file. -/
def noteShrink (s : Tail) (offset : Int) : Tail :=
  if 0 ≤ offset ∧ offset < s.lastOffset then { s.restarted with handle := s.followHandle } else s

/-- Move the committed offset after a line that emitted `emitted` records, `before` being
the offset before it. -/
def commitLine (s : Tail) (before : Int) (emitted : Nat) : Tail :=
  if !s.asm.isPending then { s with committed := s.lastOffset }
  -- this line opened the record now held
  else if 0 < emitted then { s with committed := before }
  else s

/-- The turn of the loop for a line without an error. -/
def takeLine (s : Tail) (text : Bytes) (offset : Int) (flushDue : Bool) : Tail :=
  let s := s.noteShrink offset
  let r := feed { s with lastOffset := offset, dirty := true } ⟨s.gen, text, offset⟩
  let s := r.1.commitLine s.lastOffset r.2
  if flushDue then { s.persist with dirty := false } else s

/-- The event can happen. -/
def Enabled (s : Tail) : Event → Prop
  | .line _ offset _ => s.draining = false ∧ 0 < offset ∧ offset ≠ s.lastOffset
  | .draining _ => s.draining = false
  | .reopened _ inPlace => inPlace = true → s.draining = false
  | .pollRetired looks => looks.length = s.retired.length
  | .idle => s.idleArmed = true
  | _ => True

instance : ∀ (s : Tail) (e : Event), Decidable (s.Enabled e)
  | s, .line _ offset _ =>
    inferInstanceAs (Decidable (s.draining = false ∧ 0 < offset ∧ offset ≠ s.lastOffset))
  | s, .draining _ => inferInstanceAs (Decidable (s.draining = false))
  | s, .reopened _ inPlace => inferInstanceAs (Decidable (inPlace = true → s.draining = false))
  | s, .pollRetired looks => inferInstanceAs (Decidable (looks.length = s.retired.length))
  | s, .idle => inferInstanceAs (Decidable (s.idleArmed = true))
  | _, .noLine | _, .ticker | _, .supersede | _, .close => inferInstanceAs (Decidable True)

/-- The library is about to leave the file: what the writer appended since the last read
is read through the handle, which is then kept for a grace. -/
def drainHandle (s : Tail) (rest : Bytes) : Tail :=
  match s.handle with
  | none => { s with draining := true }
  | some gen =>
    { s.feedAll (drainFrom gen s.lastOffset rest) with
      draining := true
      retired := s.retired ++ [⟨gen, readTo newline s.lastOffset rest⟩]
      handle := none }

/-- The periodic flush. -/
def tick (s : Tail) : Tail := if s.dirty then { s.persist with dirty := false } else s

/-- The channel is closed: the rest of `consume`. -/
def finish (s : Tail) : Tail :=
  { (if s.asm.flush.1 ≠ [] then { s.flushOut with committed := s.lastOffset }
      else s.flushOut).persist with closed := true }

def act (s : Tail) : Event → Tail
  | .line text offset flushDue => s.takeLine text offset flushDue
  | .noLine => s
  | .draining rest => s.drainHandle rest
  | .reopened opened inPlace =>
    { s.restarted with
      handle := if opened then some (s.gen + 1) else if inPlace then s.followHandle else s.handle
      draining := false
      dirty := false }
  | .pollRetired looks =>
    { (s.pollRetired s.retired looks).1 with retired := (s.pollRetired s.retired looks).2 }
  | .idle => { s.flushOut with idleArmed := false, committed := s.lastOffset, dirty := true }
  | .ticker => s.tick
  | .supersede => { s with superseded := true }
  | .close => s.finish

def step (s : Tail) (e : Event) : Option Tail :=
  if s.closed = true ∨ ¬ s.Enabled e then none else some (s.act e)

end Tail

end SenhubAgent.FileTail

import SenhubAgent.LogParse.Multiline

/-!
# Chunks of a container's log line

The runtime splits a long line into partial chunks (tag `P`) that a full one (tag `F`) ends.
`Assembler.Add` buffers the partial chunks of a stream and gives the whole message when the
full chunk comes; `Flush` gives up the runs still open.

The ghost `lines` of an entry says which physical lines of which file it was made of.

Mirroring notes:
- A stream is `stdout` or `stderr`: `ParseLine` rejects any other.
- `time.Parse` and `json.Unmarshal` are parameters.
- `partialRun.length` is the length of its buffer.
-/

namespace SenhubAgent.PodLogs

open SenhubAgent.Lib (Bytes)

inductive Stream where
  | stdout
  | stderr
deriving DecidableEq

/-- A physical line: the file and the offset after it. -/
structure Line where
  inode : Nat
  stop : Int
deriving DecidableEq

structure Entry where
  time : Int
  stream : Stream
  isPartial : Bool
  message : Bytes
  truncated : Bool
  lines : List Line

/-! ## Parsing -/

/-- What the standard library decodes. -/
structure Formats where
  /-- `time.Parse(time.RFC3339Nano, _)` -/
  parseTime : Bytes → Option Int
  /-- `json.Unmarshal` into the fields log, stream and time -/
  decodeJson : Bytes → Option (Option Bytes × Option Bytes × Option Bytes)

/-! ## Reassembly -/

structure PartialRun where
  firstTime : Int
  buf : Bytes
  truncated : Bool
  lines : List Line

def defaultMaxBytes : Int := 262144

structure Assembler where
  maxBytes : Int
  runs : Stream → Option PartialRun

def PartialRun.append (r : PartialRun) (msg : Bytes) (max : Int) : PartialRun :=
  if max ≤ r.buf.length then
    if msg ≠ [] then { r with truncated := true } else r
  else if max - r.buf.length < msg.length then
    { r with buf := r.buf ++ msg.take (max - r.buf.length).toNat, truncated := true }
  else { r with buf := r.buf ++ msg }

/-- The chunk, and the line it stood on. -/
def PartialRun.take (r : PartialRun) (e : Entry) (max : Int) : PartialRun :=
  { r.append e.message max with lines := r.lines ++ e.lines }

def truncateEntry (e : Entry) (max : Int) : Entry :=
  if (e.message.length : Int) ≤ max then e
  else { e with message := e.message.take max.toNat, truncated := true }

namespace Assembler

def new (maxBytes : Int) : Assembler := ⟨maxBytes, fun _ => none⟩

def max (a : Assembler) : Int := if a.maxBytes ≤ 0 then defaultMaxBytes else a.maxBytes

def setRun (a : Assembler) (s : Stream) (r : Option PartialRun) : Assembler :=
  { a with runs := fun t => if t = s then r else a.runs t }

/-- Feed one chunk; a full one gives the message it ends. -/
def add (a : Assembler) (e : Entry) : Option Entry × Assembler :=
  if e.isPartial then
    let r := (a.runs e.stream).getD ⟨e.time, [], false, []⟩
    (none, a.setRun e.stream (some (r.take e a.max)))
  else
    match a.runs e.stream with
    | some r =>
      let r := r.take e a.max
      (some (truncateEntry ⟨r.firstTime, e.stream, false, r.buf, r.truncated, r.lines⟩ a.max),
        a.setRun e.stream none)
    | none => (some (truncateEntry e a.max), a)

/-- The runs still open, as partial entries. -/
def flush (a : Assembler) : List Entry × Assembler :=
  ([Stream.stderr, Stream.stdout].filterMap fun s => (a.runs s).map fun r =>
      truncateEntry ⟨r.firstTime, s, true, r.buf, r.truncated, r.lines⟩ a.max,
    new a.maxBytes)

end Assembler

theorem truncateEntry_stream (e : Entry) (max : Int) : (truncateEntry e max).stream = e.stream := by
  unfold truncateEntry
  split <;> rfl

end SenhubAgent.PodLogs

import SenhubAgent.KubernetesLogs.Fold

/-!
# A followed pod log file

What the kubernetes_logs probe keeps of a file it follows: where it reads on, the chunks of the
line it is putting together, and one multiline fold per stream. A whole message goes through the
fold of its stream (`foldEntry`); `flushFolds` ends the records in progress.

The ghost `began` is the offset the file was first followed from.

Mirroring notes:
- The filter's glob patterns are a test on the parsed reference.
- A message's attributes are what the parser gives. Counters and the log are left out.
- Go ranges over the folds in no fixed order; here `stderr` is first. The two share nothing.
-/

namespace SenhubAgent.PodLogs

abbrev Path := List Char

structure PodRef where
  podNamespace : Path
  pod : Path
  uid : Path
  container : Path
  restartCount : Nat
  rotated : Bool
deriving DecidableEq

/-- The container a reference names. -/
structure ContainerKey where
  podNamespace : Path
  pod : Path
  uid : Path
  container : Path
deriving DecidableEq

structure FileState where
  path : Path
  ref : PodRef
  size : Nat
  modTime : Int
  inode : Nat
deriving DecidableEq

/-- What the probe follows: the filter, and the agent's own pod, which it leaves out. -/
structure Follow where
  allows : PodRef → Bool
  self : Option ContainerKey

end SenhubAgent.PodLogs

namespace SenhubAgent.KubernetesLogs

open SenhubAgent.PodLogs
open SenhubAgent.Lib (Bytes)
open SenhubAgent.LogParse (MultilineConfig)

/-! ## Configuration and state -/

structure Config where
  follow : Follow
  fromBeginning : Bool
  maxLineBytes : Int
  multiline : MultilineConfig
  formats : Formats
  /-- `logparse.ParseLine`: the attributes parsed, none when the message is rejected -/
  parser : Bytes → Int → Option (List (Bytes × Bytes))

structure LiveFile where
  path : Path
  ref : PodRef
  inode : Nat
  offset : Int
  assembler : PodLogs.Assembler
  /-- one multiline fold per stream -/
  folds : Stream → Option Fold
  idle : Bool
  began : Int

/-! ## One file -/

namespace LiveFile

variable (cfg : Config)

def setFold (st : LiveFile) (s : Stream) (f : Fold) : LiveFile :=
  { st with folds := fun t => if t = s then some f else st.folds t }

def foldEntry (st : LiveFile) (e : Entry) : LiveFile × List Entry :=
  let f := (st.folds e.stream).getD (Fold.new cfg.multiline cfg.maxLineBytes e)
  (st.setFold e.stream (f.add e).2, (f.add e).1)

/-- The record in progress of one stream. -/
def flushFold (st : LiveFile) (s : Stream) : LiveFile × List Entry :=
  match st.folds s with
  | none => (st, [])
  | some f => (st.setFold s f.flush.2, f.flush.1)

def flushFolds (st : LiveFile) : LiveFile × List Entry :=
  let r := st.flushFold .stderr
  let r' := r.1.flushFold .stdout
  (r'.1, r.2 ++ r'.2)

def new (f : FileState) (offset began : Int) : LiveFile where
  path := f.path
  ref := f.ref
  inode := f.inode
  offset := offset
  assembler := PodLogs.Assembler.new cfg.maxLineBytes
  folds := fun _ => none
  idle := false
  began := began

end LiveFile

end SenhubAgent.KubernetesLogs

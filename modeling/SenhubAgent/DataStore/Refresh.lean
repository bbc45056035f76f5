import SenhubAgent.Lib.AssocMap
import SenhubAgent.Lib.Schedule

/-!
# Configuration refreshes of the data store

`OnConfigRefreshed` brings the set of running strategies in line with the storage list. Each
block goes through `retrieveOrCreate`: the running strategy of that name is kept, updated in
place or replaced; the replacement is built and validated before the running one is touched.
Blocks that repeat a name keep the first instance, and what the refresh leaves out is shut
down.

Strategies are positions in `heap`, so that one that was shut down or forgotten is still
there to be looked at. What constructors, validation, live updates and `Start` answer is part
of the input: a block calls each at most once, so it comes with its answers.

Mirroring notes:
- `GenerateStrategyId` is a parameter; nothing is asked of it.
- A factory makes strategies of the name it is registered under (`strategyreg/register.go`),
  so a new strategy has the name of its block.
- `newStrategies` is a list in the order of insertion. The source ranges over the map when it
  builds the active set, whose order nothing below depends on.
- `Shutdown` may return an error; that is logged and changes nothing. `replacedThisRefresh`
  only chooses a log line.
-/

namespace SenhubAgent.DataStore

open SenhubAgent.Lib

/-- One block of the storage list. -/
structure StorageConfig (P : Type) where
  name : String
  params : P

structure Strategy (P : Type) where
  name : String
  /-- what it was last built or updated with -/
  config : P
  /-- `GetStrategyParams` -/
  reported : P
  /-- it implements `LiveUpdatable` -/
  updatable : Bool
  /-- `Start` returned without an error -/
  started : Bool := false
  /-- `Shutdown` was called -/
  stopped : Bool := false
deriving DecidableEq

/-! ## Failures an operator sees -/

inductive FailureReason where
  | unknownType
  | create
  | invalidConfig
  | start
deriving DecidableEq

structure StrategyFailure where
  reason : FailureReason
  detail : String
deriving DecidableEq

abbrev Failures := AssocMap String StrategyFailure

def recordStrategyFailure (m : Failures) (name : String) (f : StrategyFailure) : Failures :=
  m.insert (if name = "" then "unknown" else name) f

def clearStrategyFailure (m : Failures) (name : String) : Failures := m.erase name

def pruneStrategyFailures (m : Failures) (configured : List String) : Failures :=
  eraseWhere (fun name _ => !configured.contains name) m.keys m

/-! ## The store -/

structure Store (P : Type) where
  heap : List (Strategy P) := []
  /-- the snapshot probes read -/
  active : List Nat := []
  failures : Failures := ∅

/-- What a factory answers; `unknown` when none is registered. -/
inductive Factory (P : Type) where
  | unknown
  | error (err : String)
  | nothing
  | made (updatable : Bool) (reported : P)

/-- What a live update answers, and what it leaves behind. -/
inductive Update (P : Type) where
  | applied (reported : P)
  | failed (config reported : P)

structure Answers (P : Type) where
  update : Update P
  factory : Factory P
  /-- the error of `ValidateConfigParams` -/
  validate : Option String
  /-- the error of `Start` -/
  start : Option String

/-- A block with what the calls it causes answer. -/
structure Block (P : Type) extends StorageConfig P where
  answers : Answers P

variable {P I : Type}

def buildStrategy (b : Block P) : Except StrategyFailure (Strategy P) :=
  match b.answers.factory with
  | .unknown => .error ⟨.unknownType, "no strategy of this type is compiled into this build"⟩
  | .error err => .error ⟨.invalidConfig, err⟩
  | .nothing => .error ⟨.create, "strategy constructor returned nothing"⟩
  | .made updatable reported =>
    match b.answers.validate with
    | some err => .error ⟨.invalidConfig, err⟩
    | none => .ok { name := b.name, config := b.params, reported := reported, updatable := updatable }

namespace Store

def touch (st : Store P) (i : Nat) (f : Strategy P → Strategy P) : Store P :=
  { st with heap := st.heap.modify i f }

def shutdown (st : Store P) (i : Nat) : Store P :=
  st.touch i fun s => { s with stopped := true }

def allocate (st : Store P) (s : Strategy P) : Store P :=
  { st with heap := st.heap ++ [s] }

/-- The running strategy of a name. -/
def live (st : Store P) (name : String) : Option Nat :=
  st.active.find? fun i => (st.heap[i]?).any fun s => s.name == name

/-- `retrieveOrCreate` from where it builds; `replaced` is the strategy it could not keep. -/
def create (st : Store P) (replaced : Option Nat) (b : Block P) : Option Nat × Store P :=
  match buildStrategy b with
  | .error f =>
    (replaced, { st with failures := recordStrategyFailure st.failures b.name f })
  | .ok s =>
    let st := match replaced with
      | some i => st.shutdown i
      | none => st
    match b.answers.start with
    | some err =>
      (none, { st.allocate s with
        failures := recordStrategyFailure st.failures b.name ⟨.start, err⟩ })
    | none =>
      (some st.heap.length, { st.allocate { s with started := true } with
        failures := clearStrategyFailure st.failures b.name })

variable [DecidableEq I] (strategyId : String → P → I)

def retrieveOrCreate (st : Store P) (b : Block P) : Option Nat × Store P :=
  match st.live b.name with
  | none => st.create none b
  | some i =>
    match st.heap[i]? with
    | none => st.create none b
    | some s =>
      if strategyId s.name s.reported = strategyId b.name b.params then (some i, st)
      else if s.updatable then
        match b.answers.update with
        | .applied reported =>
          (some i, st.touch i fun s => { s with config := b.params, reported := reported })
        | .failed config reported =>
          (st.touch i fun s => { s with config := config, reported := reported }).create (some i) b
      else st.create (some i) b

end Store

/-- A refresh under way: the store and `newStrategies`. -/
structure Refresh (P : Type) where
  store : Store P
  new : List (String × Nat) := []

variable [DecidableEq I] (strategyId : String → P → I)

/-- What a refresh makes of a strategy it got: the first of a name is kept. -/
def Refresh.take (r : Refresh P) (i : Nat) : Refresh P :=
  match r.store.heap[i]? with
  | none => r
  | some s =>
    match r.new.lookup s.name with
    | some kept => if kept ≠ i then { r with store := r.store.shutdown i } else r
    | none => { r with new := r.new ++ [(s.name, i)] }

/-- One turn of the loop over the storage list. -/
def Refresh.block (r : Refresh P) (b : Block P) : Refresh P :=
  match r.store.retrieveOrCreate strategyId b with
  | (none, st) => { r with store := st }
  | (some i, st) => Refresh.take { r with store := st } i

/-- Shut down what was active and is not any more. -/
def Refresh.finish (r : Refresh P) : Store P :=
  let kept := r.new.map Prod.snd
  let dropped := r.store.active.filter fun i => !kept.contains i
  { dropped.foldl Store.shutdown r.store with active := kept }

/-- The refresh before its first block. -/
def Refresh.start (st : Store P) (blocks : List (Block P)) : Refresh P :=
  { store := { st with
      failures := pruneStrategyFailures st.failures (blocks.map fun b => b.name) } }

def onConfigRefreshed (st : Store P) (blocks : List (Block P)) : Store P :=
  (blocks.foldl (Refresh.block strategyId) (Refresh.start st blocks)).finish

end SenhubAgent.DataStore

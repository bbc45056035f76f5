import Mathlib.Data.List.Sort
import Mathlib.Data.String.Basic
import SenhubAgent.Lib.AssocMap
import SenhubAgent.Time

/-!
# Entities, their events and their renderings

The neutral model of `model.go`, and the strings `tracker.go` renders from it: the
identity key of an entity (`entityKey`), and the hash of the content of a state
(`stateHash`), by which the tracker recognises an unchanged heartbeat.

Mirroring notes:
- A Go map holds each key once and has no order, so its value is the list of its
  pairs in key order (`AttrMap`). Two maps are equal when these lists are.
- Values are the flat scalars the model allows. How `%v` prints a `float64` is the
  parameter `formatFloat`.
- `Event.Entity` is always set: `deleteFor` reads through it.
- `sort.Strings` orders by bytes, which for UTF-8 is the order by characters.
-/

namespace SenhubAgent.Entities

open SenhubAgent.Lib

inductive Scalar where
  | string (s : String)
  | int (n : Int)
  | float (f : Float)
  | bool (b : Bool)

/-- A `map[string]any`. -/
structure AttrMap where
  pairs : List (String × Scalar)
  ordered : (pairs.map Prod.fst).Pairwise (· < ·)

def AttrMap.empty : AttrMap := ⟨[], List.Pairwise.nil⟩

/-- The map with one key. -/
def AttrMap.single (k : String) (v : Scalar) : AttrMap := ⟨[(k, v)], List.pairwise_singleton _ _⟩

structure Relationship where
  type : String
  targetType : String
  targetID : AttrMap
  attributes : AttrMap

structure Entity where
  type : String
  id : AttrMap
  attributes : AttrMap
  relationships : List Relationship
  scope : String
  observedAt : Instant

inductive Kind where
  | entityState | entityDelete
  deriving DecidableEq, Repr

structure Event where
  kind : Kind
  entity : Entity
  time : Instant
  interval : Duration
  deleteReason : String

/-- The state events a snapshot is made of. -/
abbrev StateEvent := { ev : Event // ev.kind = .entityState }

/-! ## Renderings -/

section Render

variable (formatFloat : Float → String)

def scalarString : Scalar → String
  | .string s => s
  | .int n => toString n
  | .float f => formatFloat f
  | .bool b => toString b

/-- `k=v` of one pair. -/
def pairString (p : String × Scalar) : String := p.1 ++ "=" ++ scalarString formatFloat p.2

/-- Renders a map as a stable, sorted string. -/
def canonicalID (id : AttrMap) : String :=
  String.intercalate "\x00" (id.pairs.map (pairString formatFloat))

def entityKey (typ : String) (id : AttrMap) : String :=
  "E\x00" ++ typ ++ "\x00" ++ canonicalID formatFloat id

def eventKey (ev : Event) : String := entityKey formatFloat ev.entity.type ev.entity.id

/-- One relationship of the hash: its type and its target. -/
def relString (r : Relationship) : String :=
  r.type ++ "\x02" ++ r.targetType ++ "\x02" ++ canonicalID formatFloat r.targetID

def stateHash (ev : Event) : String :=
  let rels := (ev.entity.relationships.map (relString formatFloat)).insertionSort (· ≤ ·)
  canonicalID formatFloat ev.entity.attributes ++ "\x01" ++ String.intercalate "\x01" rels
    ++ "\x01" ++ durationString ev.interval

end Render

/-- The delete that retires the entity of a state: its identity and scope only. -/
def deleteFor (ev : Event) : Event where
  kind := .entityDelete
  entity := ⟨ev.entity.type, ev.entity.id, .empty, [], ev.entity.scope, zeroTime⟩
  time := zeroTime
  interval := 0
  deleteReason := ""

/-- A delete is filed under the key of the state it retires. -/
theorem eventKey_deleteFor (formatFloat : Float → String) (ev : Event) :
    eventKey formatFloat (deleteFor ev) = eventKey formatFloat ev := rfl

def reasonTerminated : String := "terminated"

end SenhubAgent.Entities

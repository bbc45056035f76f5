import SenhubAgent.Entities.Tracker
import SenhubAgent.Lib.SortedMap

/-!
# Observations

What a source reports in a cycle, and how the copies of one entity that several sources report are
merged into one (`source.go`, `merge.go`).

Mirroring notes:
- `Entity.Cadence` is not read by the tracker, so it stands beside the entity here.
- The hooks that report conflicts and merged copies only count and log, and are left out.
- `out.Attributes` and `scopeOf` of the merge have the same keys, so they are one map.
-/

namespace SenhubAgent.Entities

open SenhubAgent.Lib

/-- A directed edge between two identities. -/
structure Relation where
  type : String
  fromType : String
  fromID : AttrMap
  toType : String
  toID : AttrMap
  attributes : AttrMap

/-- An entity with the interval at which its source re-reads it. -/
structure Observed extends Entity where
  cadence : Duration

structure Observation where
  entities : List Observed
  relations : List Relation

def AttrMap.get? (m : AttrMap) (k : String) : Option Scalar := SortedMap.get? k m.pairs

theorem keyed_iff_ordered {α : Type} {ps : List (String × α)} :
    SortedMap.Keyed ps ↔ (ps.map Prod.fst).Pairwise (· < ·) := List.pairwise_map.symm

section Snapshot

variable (formatFloat : Float → String)

def Observed.key (e : Observed) : String := entityKey formatFloat e.type e.id

def Observation.keys (o : Observation) : List String := o.entities.map (Observed.key formatFloat)

/-! ## Merging the copies of an entity -/

/-- `reflect.DeepEqual` of two scalars. -/
def Scalar.deepEqual : Scalar → Scalar → Bool
  | .string a, .string b => a == b
  | .int a, .int b => a == b
  | .float a, .float b => a == b
  | .bool a, .bool b => a == b
  | _, _ => false

/-- The attributes gathered so far, each with the scope it was first taken from. -/
abbrev Gathered := List (String × (Scalar × String))

/-- One attribute of one copy: a conflict keeps the value of the scope that sorts first,
within a scope the value whose rendering sorts first. -/
def mergeAttribute (scope : String) (out : Gathered) (attr : String × Scalar) : Gathered :=
  match SortedMap.get? attr.1 out with
  | none => SortedMap.insert attr.1 (attr.2, scope) out
  | some (kept, keptScope) =>
    if kept.deepEqual attr.2 then out
    else if scope = keptScope ∧
        scalarString formatFloat attr.2 < scalarString formatFloat kept then
      SortedMap.insert attr.1 (attr.2, keptScope) out
    else out

def mergeAttributes (copies : List Observed) : Gathered :=
  copies.foldl (fun out c => c.attributes.pairs.foldl (mergeAttribute formatFloat c.scope) out) []

theorem keyed_mergeAttribute {scope : String} {out : Gathered} (h : SortedMap.Keyed out)
    (attr : String × Scalar) : SortedMap.Keyed (mergeAttribute formatFloat scope out attr) := by
  unfold mergeAttribute
  split
  next => exact h.insert _ _
  next =>
    split
    next => exact h
    next =>
      split
      next => exact h.insert _ _
      next => exact h

theorem keyed_mergeAttributes (copies : List Observed) :
    SortedMap.Keyed (mergeAttributes formatFloat copies) := by
  refine List.foldlRecOn copies _ SortedMap.keyed_nil fun out h c _ => ?_
  exact List.foldlRecOn c.attributes.pairs _ h fun out h attr _ => keyed_mergeAttribute _ h attr

/-- A zero time means observed now and wins; otherwise the newest. -/
def newestObservedAt (copies : List Observed) : Instant :=
  if copies.any fun c => c.observedAt = zeroTime then zeroTime
  else copies.foldl (fun newest c =>
    if newest = zeroTime ∨ newest < c.observedAt then c.observedAt else newest) zeroTime

def maxCadence (copies : List Observed) : Duration :=
  copies.foldl (fun m c => if m < c.cadence then c.cadence else m) 0

/-- The one entity for several copies of a key; `c` is the copy whose scope sorts first. -/
def mergeCopies (c : Observed) (copies : List Observed) : Observed where
  type := c.type
  id := c.id
  attributes := ⟨(mergeAttributes formatFloat copies).map fun p => (p.1, p.2.1), by
    have h := keyed_iff_ordered.mp (keyed_mergeAttributes formatFloat copies)
    rwa [List.map_map]⟩
  relationships := []
  scope := c.scope
  observedAt := newestObservedAt copies
  cadence := maxCadence copies

/-- `sort.SliceStable` of the copies by scope. -/
def byScope (copies : List Observed) : List Observed :=
  copies.insertionSort fun a b => a.scope ≤ b.scope

/-- What stands for the copies of one key. -/
def mergeGroup (copies : List Observed) : Option Observed :=
  match copies with
  | [c] => some c
  | copies => (byScope copies).head?.map fun c => mergeCopies formatFloat c (byScope copies)

def Observation.mergeDuplicates (o : Observation) : Observation :=
  -- the keys in the order they first occur
  let order := (o.keys formatFloat).eraseDups
  if order.length = o.entities.length then o
  else
    { o with
      entities := order.filterMap fun k =>
        mergeGroup formatFloat (o.entities.filter fun e => e.key formatFloat = k) }

/-! ## Keys -/

variable {formatFloat}

theorem byScope_mem {copies : List Observed} {c : Observed} : c ∈ byScope copies ↔ c ∈ copies :=
  List.mem_insertionSort _

/-- The entity that stands for the copies of a key has that key, and there is one as
soon as there is a copy. -/
theorem mergeGroup_key {k : String} {copies : List Observed} (hne : copies ≠ [])
    (hkey : ∀ c ∈ copies, c.key formatFloat = k) :
    ∃ e, mergeGroup formatFloat copies = some e ∧ e.key formatFloat = k := by
  unfold mergeGroup
  split
  next c => exact ⟨c, rfl, hkey c List.mem_cons_self⟩
  next =>
    cases hsorted : byScope copies with
    | nil =>
      obtain ⟨c, hc⟩ := List.exists_mem_of_ne_nil _ hne
      have hmem := byScope_mem.mpr hc
      rw [hsorted] at hmem
      cases hmem
    | cons c cs =>
      refine ⟨_, rfl, ?_⟩
      exact hkey c (byScope_mem.mp (hsorted ▸ List.mem_cons_self))

end Snapshot

end SenhubAgent.Entities

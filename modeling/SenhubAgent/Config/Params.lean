import SenhubAgent.Lib.SortedMap
import Mathlib.Data.String.Basic

/-!
# Parameter trees

The `params` of a probe or of an output, as the agent holds them once a YAML file
has been decoded: a `map[string]interface{}` whose values are scalars, lists and
further mappings. The YAML decoder gives inner mappings as
`map[interface{}]interface{}`; the file readers turn those into string-keyed ones,
and the console's own walk still knows them, so the model has both.

A Go map has no order. Here a mapping is the list of its entries in increasing
order of keys, which makes equality of trees the equality of the maps. `Params`
carries that as its invariant.
-/

namespace SenhubAgent.Config

open Lib.SortedMap (Keyed)

/-- The scalars of a document other than null and text. A float is its bits. -/
inductive Scalar where
  | bool (b : Bool)
  | int (n : Int)
  | float (bits : UInt64)
deriving DecidableEq, Repr

/-- A key of a `map[interface{}]interface{}`. -/
inductive AnyKey where
  | str (s : String)
  | scalar (s : Scalar)
  | null
deriving DecidableEq, Repr

/-- An `interface{}` of a decoded document. -/
inductive Value where
  | null
  | str (s : String)
  | scalar (s : Scalar)
  | list (items : List Value)
  | map (entries : List (String × Value))
  | anyMap (entries : List (AnyKey × Value))
deriving Repr

abbrev Entries := List (String × Value)

/-- The mapping a value is, empty for any other value. -/
def blockOf : Option Value → Entries
  | some (.map es) => es
  | _ => []

def itemsOf : Option Value → List Value
  | some (.list items) => items
  | _ => []

/-- A step from a value to one inside it. -/
inductive Step where
  | key (k : String)
  /-- a key of a `map[interface{}]interface{}` -/
  | anyKey (k : AnyKey)
  | index (i : Nat)
deriving DecidableEq, Repr

/-! ## Equality is decidable -/

mutual
def Value.decEq : (a b : Value) → Decidable (a = b)
  | .null, b => by cases b <;> first | exact isTrue rfl | exact isFalse nofun
  | .str s, b => by
    cases b
    case str t => exact decidable_of_iff (s = t) (by simp)
    all_goals exact isFalse nofun
  | .scalar s, b => by
    cases b
    case scalar t => exact decidable_of_iff (s = t) (by simp)
    all_goals exact isFalse nofun
  | .list s, b => by
    cases b
    case list t =>
      have := decEqItems s t
      exact decidable_of_iff (s = t) (by simp)
    all_goals exact isFalse nofun
  | .map s, b => by
    cases b
    case map t =>
      have := decEqEntries s t
      exact decidable_of_iff (s = t) (by simp)
    all_goals exact isFalse nofun
  | .anyMap s, b => by
    cases b
    case anyMap t =>
      have := decEqAnyEntries s t
      exact decidable_of_iff (s = t) (by simp)
    all_goals exact isFalse nofun
termination_by structural a => a

def decEqItems : (a b : List Value) → Decidable (a = b)
  | [], [] => isTrue rfl
  | [], _ :: _ => isFalse nofun
  | _ :: _, [] => isFalse nofun
  | a :: as, b :: bs =>
    have := a.decEq b
    have := decEqItems as bs
    decidable_of_iff (a = b ∧ as = bs) (by simp)
termination_by structural a => a

def decEqEntries : (a b : Entries) → Decidable (a = b)
  | [], [] => isTrue rfl
  | [], _ :: _ => isFalse nofun
  | _ :: _, [] => isFalse nofun
  | (k, a) :: as, (l, b) :: bs =>
    have := a.decEq b
    have := decEqEntries as bs
    decidable_of_iff (k = l ∧ a = b ∧ as = bs) (by simp [and_assoc])
termination_by structural a => a

def decEqAnyEntries : (a b : List (AnyKey × Value)) → Decidable (a = b)
  | [], [] => isTrue rfl
  | [], _ :: _ => isFalse nofun
  | _ :: _, [] => isFalse nofun
  | (k, a) :: as, (l, b) :: bs =>
    have := a.decEq b
    have := decEqAnyEntries as bs
    decidable_of_iff (k = l ∧ a = b ∧ as = bs) (by simp [and_assoc])
termination_by structural a => a
end

instance : DecidableEq Value := Value.decEq

/-! ## Trees of maps -/

mutual
/-- Every string-keyed mapping in the tree is a map. -/
def Value.wellKeyed : Value → Bool
  | .list items => wellKeyedItems items
  | .map es => decide (Keyed es) && wellKeyedEntries es
  | .anyMap es => wellKeyedAny es
  | .null => true
  | .str _ => true
  | .scalar _ => true

def wellKeyedItems : List Value → Bool
  | [] => true
  | v :: vs => v.wellKeyed && wellKeyedItems vs

def wellKeyedEntries : Entries → Bool
  | [] => true
  | (_, v) :: es => v.wellKeyed && wellKeyedEntries es

def wellKeyedAny : List (AnyKey × Value) → Bool
  | [] => true
  | (_, v) :: es => v.wellKeyed && wellKeyedAny es
end

/-- A `params` mapping. -/
structure Params where
  entries : Entries
  wellKeyed : (Value.map entries).wellKeyed = true
deriving DecidableEq

def noParams : Params := ⟨[], rfl⟩

mutual
/-- No null and no empty mapping stands anywhere in the tree. -/
def Value.full : Value → Bool
  | .null => false
  | .str _ => true
  | .scalar _ => true
  | .list items => fullItems items
  | .map es => !es.isEmpty && fullEntries es
  | .anyMap es => !es.isEmpty && fullAny es

def fullItems : List Value → Bool
  | [] => true
  | v :: vs => v.full && fullItems vs

def fullEntries : Entries → Bool
  | [] => true
  | (_, v) :: es => v.full && fullEntries es

def fullAny : List (AnyKey × Value) → Bool
  | [] => true
  | (_, v) :: es => v.full && fullAny es
end

/-! ## Induction over a tree -/

theorem Value.ind {motive : Value → Prop} (null : motive .null) (str : ∀ s, motive (.str s))
    (scalar : ∀ s, motive (.scalar s))
    (list : ∀ items, (∀ v ∈ items, motive v) → motive (.list items))
    (map : ∀ es : Entries, (∀ e ∈ es, motive e.2) → motive (.map es))
    (anyMap : ∀ es : List (AnyKey × Value), (∀ e ∈ es, motive e.2) → motive (.anyMap es)) :
    ∀ v, motive v :=
  @Value.rec motive (∀ v ∈ ·, motive v) (∀ e ∈ ·, motive e.2) (∀ e ∈ ·, motive e.2) (motive ·.2)
    (motive ·.2) null str scalar list map anyMap nofun
    (fun _ _ h hs => List.forall_mem_cons.mpr ⟨h, hs⟩) nofun
    (fun _ _ h hs => List.forall_mem_cons.mpr ⟨h, hs⟩) nofun
    (fun _ _ h hs => List.forall_mem_cons.mpr ⟨h, hs⟩) (fun _ _ h => h) (fun _ _ h => h)

/-- A walk along a list that asks `p` of every element. -/
theorem walk_iff {α : Type} {walk : List α → Bool} {p : α → Bool} (hnil : walk [] = true)
    (hcons : ∀ a l, walk (a :: l) = (p a && walk l)) {l : List α} :
    walk l = true ↔ ∀ a ∈ l, p a = true := by
  induction l with
  | nil => simp [hnil]
  | cons a l ih => rw [hcons, Bool.and_eq_true_iff, ih, List.forall_mem_cons]

variable {items : List Value} {es : Entries}

theorem wellKeyedItems_iff : wellKeyedItems items = true ↔ ∀ v ∈ items, v.wellKeyed = true :=
  walk_iff rfl fun _ _ => rfl

theorem wellKeyedEntries_iff : wellKeyedEntries es = true ↔ ∀ e ∈ es, e.2.wellKeyed = true :=
  walk_iff rfl fun _ _ => rfl

theorem wellKeyedAny_iff {es : List (AnyKey × Value)} :
    wellKeyedAny es = true ↔ ∀ e ∈ es, e.2.wellKeyed = true :=
  walk_iff rfl fun _ _ => rfl

theorem wellKeyed_map_iff :
    (Value.map es).wellKeyed = true ↔ Keyed es ∧ ∀ e ∈ es, e.2.wellKeyed = true := by
  rw [← wellKeyedEntries_iff, Value.wellKeyed, Bool.and_eq_true_iff, decide_eq_true_iff]

theorem fullItems_iff : fullItems items = true ↔ ∀ v ∈ items, v.full = true :=
  walk_iff rfl fun _ _ => rfl

theorem fullEntries_iff : fullEntries es = true ↔ ∀ e ∈ es, e.2.full = true :=
  walk_iff rfl fun _ _ => rfl

end SenhubAgent.Config

import SenhubAgent.Config.Params
import SenhubAgent.Config.SecretKeys

/-!
# Values a form leaves out

The console never sees a stored secret and sends nothing back for it, so a rewrite
from a form takes the missing values from the file. `keepStored` merges the stored
tree into the incoming one, `dropNilValues` then takes out the nulls by which a form
asks for a stored value to be removed.

The Go functions change `incoming` in place, one key of `existing` at a time. A step
only looks at `incoming[k]` and only writes it, so the model has it as a function
from what stands at the key to what stands there afterwards (`keepValue`, with `none`
for a key that is not set).
-/

namespace SenhubAgent.Config

open Lib.SortedMap (Keyed get? assign filterEntries)

/-- `strings.Contains(val, "${")` -/
def hasReference (val : String) : Bool := val.toList.tails.any fun rest => ['$', '{'].isPrefixOf rest

/-- Whether a value is hidden at key `k` of a mapping whose own path, with the dot, is
`parent`: the rule the console hides by. -/
def hiddenAt (secretPaths : List String) (parent : String) (inSecret : Bool) (k : String) : Bool :=
  inSecret || decide (parent ++ k ∈ secretPaths) || consoleHides k

/-- `len(m) > 0` before a mapping is stored under its key. -/
def nonEmpty (es : Entries) : Option Value := if es.isEmpty then none else some (.map es)

@[simp] theorem nonEmpty_nil : nonEmpty [] = none := rfl

@[simp] theorem nonEmpty_cons (e : String × Value) (es : Entries) :
    nonEmpty (e :: es) = some (.map (e :: es)) := rfl

mutual
/-- What stands at key `k` of `incoming` once the stored value has been merged. `path`
is the key's own path and `hidden` says whether the console hides it. -/
def keepValue (secretPaths : List String) (path : String) (hidden : Bool) :
    Value → Option Value → Option Value
  | .map val, some (.map sub) => some (.map (keepStored secretPaths (path ++ ".") hidden val sub))
  | .map val, none => nonEmpty (keepStored secretPaths (path ++ ".") hidden val [])
  | .map _, some v => some v
  | .list val, some (.list list) => some (.list (keepItems secretPaths (path ++ ".") hidden val list))
  | .list _, incoming => incoming
  | .str val, none => if hasReference val || hidden && val != "" then some (.str val) else none
  | .str _, some v => some v
  | .null, incoming => incoming
  | .scalar _, incoming => incoming
  | .anyMap _, incoming => incoming

/-- The loop over the keys of `existing`. -/
def keepStored (secretPaths : List String) (parent : String) (inSecret : Bool) :
    Entries → Entries → Entries
  | [], incoming => incoming
  | (k, v) :: existing, incoming =>
    keepStored secretPaths parent inSecret existing
      (assign k (keepValue secretPaths (parent ++ k) (hiddenAt secretPaths parent inSecret k) v
        (get? k incoming)) incoming)

/-- A list of blocks is merged item by item, in order. -/
def keepItems (secretPaths : List String) (parent : String) (hidden : Bool) :
    List Value → List Value → List Value
  | .map em :: items, .map im :: list =>
    .map (keepStored secretPaths parent hidden em im) :: keepItems secretPaths parent hidden items list
  | _ :: items, l :: list => l :: keepItems secretPaths parent hidden items list
  | _, [] => []
  | [], list => list
end

/-- Takes from the stored tree what the console hid and `incoming` does not set. -/
def keepStoredValues (existing incoming : Entries) (secretPaths : List String) : Entries :=
  keepStored secretPaths "" false existing incoming

mutual
def Value.dropNil : Value → Option Value
  | .null => none
  | .map es => nonEmpty (dropNilValues es)
  | .list items => some (.list (dropNilItems items))
  | .str s => some (.str s)
  | .scalar s => some (.scalar s)
  | .anyMap es => some (.anyMap es)

/-- Removes every null and every mapping left empty by it. -/
def dropNilValues : Entries → Entries
  | [] => []
  | (k, v) :: es =>
    match v.dropNil with
    | none => dropNilValues es
    | some w => (k, w) :: dropNilValues es

/-- A row of a list is emptied, never removed. -/
def dropNilItems : List Value → List Value
  | [] => []
  | .map es :: items => .map (dropNilValues es) :: dropNilItems items
  | v :: items => v :: dropNilItems items
end

/-! ## Key by key -/

theorem dropNilValues_eq (es : Entries) : dropNilValues es = filterEntries (fun _ v => v.dropNil) es := by
  induction es with
  | nil => rfl
  | cons e es ih =>
    obtain ⟨k, v⟩ := e
    rw [dropNilValues, filterEntries, ih]
    cases v.dropNil <;> rfl

variable (secretPaths : List String)

theorem keepValue_ne_none (path : String) (hidden : Bool) (v w : Value) :
    keepValue secretPaths path hidden v (some w) ≠ none := by
  cases v <;> cases w <;> exact Option.some_ne_none _

variable (parent : String) (inSecret : Bool)

theorem keyed_keepStored (existing : Entries) {incoming : Entries} (h : Keyed incoming) :
    Keyed (keepStored secretPaths parent inSecret existing incoming) := by
  induction existing generalizing incoming with
  | nil => exact h
  | cons e es ih => exact ih (h.assign _ _)

variable {existing : Entries} {k : String}

theorem get?_keepStored_absent (h : ∀ e ∈ existing, e.1 ≠ k) (incoming : Entries) :
    get? k (keepStored secretPaths parent inSecret existing incoming) = get? k incoming := by
  induction existing generalizing incoming with
  | nil => rfl
  | cons e es ih =>
    rw [keepStored, ih fun e he => h e (List.mem_cons_of_mem _ he)]
    exact Lib.SortedMap.get?_assign_ne (h _ List.mem_cons_self) _ _

/-- The merge at a stored key is the merge of its value. -/
theorem get?_keepStored
    (hkeyed : Keyed existing) {v : Value} (hmem : (k, v) ∈ existing) (incoming : Entries) :
    get? k (keepStored secretPaths parent inSecret existing incoming) =
      keepValue secretPaths (parent ++ k) (hiddenAt secretPaths parent inSecret k) v
        (get? k incoming) := by
  induction existing generalizing incoming with
  | nil => cases hmem
  | cons e es ih =>
    obtain ⟨hlt, hes⟩ := Lib.SortedMap.keyed_cons.mp hkeyed
    rw [keepStored]
    rcases List.mem_cons.mp hmem with heq | hin
    · cases heq
      rw [get?_keepStored_absent _ _ _ fun e he => (hlt e he).ne']
      exact Lib.SortedMap.get?_assign_self (fun w => keepValue_ne_none _ _ _ v w) incoming
    · rw [ih hes hin, Lib.SortedMap.get?_assign_ne (hlt _ hin).ne]

end SenhubAgent.Config

import SenhubAgent.Config.SecretKeys
import SenhubAgent.Config.Substitute
import SenhubAgent.Config.ProbeConfig

/-!
# Sealing the secrets of a parameter tree

`sealParams` walks a probe's parameters, writes the credentials to the secret store and leaves
`${secret:KEY}` references in their places. The store key of a text is its instance and its
place joined by dots, cleaned by `SanitizeKey`.

The walk refines a pure picture: the texts of the tree with their places (`leaves`), those the
walk seals (`seals`), and the tree with each of these replaced (`mapLeaves`). From it follows
when the sealed tree can be read back: places that join to one key must hold one value, and no
secret may stand where the walk does not go (`sealParams_reversible_iff`).

Mirroring notes:
- Go ranges over a map in any order. A mapping is a list of entries here, and the walk takes
  them as they stand, for whatever order that is.
- The secret store may be missing and may refuse a value.
-/

namespace SenhubAgent.Config

/-! ## Texts and their places -/

/-- The steps to a value, the last one first. -/
abbrev Place := List Step

def children : Value → List (Step × Value)
  | .list items => items.mapIdx fun i v => (.index i, v)
  | .map es => es.map fun e => (.key e.1, e.2)
  | .anyMap es => es.map fun e => (.anyKey e.1, e.2)
  | _ => []

/-- The value with other values inside it. -/
def rebuild : Value → List Value → Value
  | .list _, vs => .list vs
  | .map es, vs => .map (es.zipWith (fun e v => (e.1, v)) vs)
  | .anyMap es, vs => .anyMap (es.zipWith (fun e v => (e.1, v)) vs)
  | v, _ => v

theorem sizeOf_child {v : Value} {e : Step × Value} (h : e ∈ children v) : sizeOf e.2 < sizeOf v := by
  cases v with
  | list items =>
    obtain ⟨i, hi, rfl⟩ := List.mem_mapIdx.mp h
    have := List.sizeOf_get items ⟨i, hi⟩
    simp only [List.get_eq_getElem] at this
    simp
    omega
  | map es | anyMap es =>
    obtain ⟨e', he', rfl⟩ := List.mem_map.mp h
    have := List.sizeOf_lt_of_mem he'
    cases e'
    simp at this ⊢
    omega
  | _ => cases h

theorem children_induct {motive : Value → Prop} (str : ∀ s, motive (.str s))
    (node : ∀ v, (∀ s, v ≠ .str s) → (∀ e ∈ children v, motive e.2) → motive v) (v : Value) :
    motive v := by
  by_cases hv : ∃ s, v = .str s
  · obtain ⟨s, rfl⟩ := hv
    exact str s
  · exact node v (not_exists.mp hv) fun e _ => children_induct str node e.2
termination_by sizeOf v
decreasing_by exact sizeOf_child ‹_›

def leaves (p : Place) : Value → List (Place × String)
  | .str s => [(p, s)]
  | v => (children v).attach.flatMap fun e => leaves (e.1.1 :: p) e.1.2
termination_by v => sizeOf v
decreasing_by exact sizeOf_child e.2

/-- Change every text, given its place. -/
def mapLeaves (f : Place → String → String) (p : Place) : Value → Value
  | .str s => .str (f p s)
  | v => rebuild v ((children v).attach.map fun e => mapLeaves f (e.1.1 :: p) e.1.2)
termination_by v => sizeOf v
decreasing_by exact sizeOf_child e.2

section Leaves

variable {f g : Place → String → String} {p : Place} {v : Value}

variable (h : Step × Value → Value)

theorem children_rebuild (v : Value) :
    children (rebuild v ((children v).map h)) = (children v).map fun e => (e.1, h e) := by
  cases v with
  | list items => exact List.ext_getElem (by simp [children, rebuild]) fun i _ _ => by simp [children, rebuild]
  | map es | anyMap es => simp [children, rebuild, List.zipWith_map_right, List.zipWith_self]
  | _ => rfl

theorem rebuild_eq_self_iff (v : Value) :
    rebuild v ((children v).map h) = v ↔ ∀ e ∈ children v, h e = e.2 := by
  have hmap {κ : Type} {es : List (κ × Value)} {st : κ → Step} :
      es.zipWith (fun e v => (e.1, v)) ((es.map fun e => (st e.1, e.2)).map h) = es ↔
        ∀ e ∈ es.map fun e => (st e.1, e.2), h e = e.2 := by
    rw [List.map_map, List.zipWith_map_right, List.zipWith_self, List.forall_mem_map]
    conv_lhs =>
      rhs
      rw [← List.map_id es]
    rw [List.map_inj_left]
    exact forall₂_congr fun e _ => by simp [Prod.ext_iff]
  cases v with
  | list items =>
    simp only [children, rebuild, Value.list.injEq, List.mem_mapIdx]
    constructor
    · rintro heq e ⟨i, hi, rfl⟩
      have := congrArg (·[i]?) heq
      simpa [hi] using this
    · intro hall
      refine List.ext_getElem (by simp) fun i hi hi' => ?_
      simpa using hall _ ⟨i, hi', rfl⟩
  | map es => simpa only [children, rebuild, Value.map.injEq] using hmap
  | anyMap es => simpa only [children, rebuild, Value.anyMap.injEq] using hmap
  | _ => simp [children, rebuild]

theorem rebuild_rebuild (v : Value) (vs : List Value) :
    rebuild (rebuild v ((children v).map h)) vs = rebuild v vs := by
  cases v with
  | map es | anyMap es =>
    simp only [children, rebuild, List.map_map, List.zipWith_map_right, List.zipWith_self,
      List.zipWith_map_left]
  | _ => rfl

theorem leaves_eq (hv : ∀ s, v ≠ .str s) :
    leaves p v = (children v).flatMap fun e => leaves (e.1 :: p) e.2 := by
  rw [leaves.eq_2 p v hv, List.flatMap_def, List.flatMap_def]
  exact congrArg List.flatten
    (List.attach_map_val (f := fun e : Step × Value => leaves (e.1 :: p) e.2))

theorem mapLeaves_eq (hv : ∀ s, v ≠ .str s) :
    mapLeaves f p v = rebuild v ((children v).map fun e => mapLeaves f (e.1 :: p) e.2) := by
  rw [mapLeaves.eq_2 f p v hv]
  exact congrArg (rebuild v)
    (List.attach_map_val (f := fun e : Step × Value => mapLeaves f (e.1 :: p) e.2))

theorem leaves_map (p : Place) (es : Entries) :
    leaves p (.map es) = es.flatMap fun e => leaves (.key e.1 :: p) e.2 := by
  rw [leaves_eq (v := .map es) nofun, children, List.flatMap_map]

theorem mapLeaves_map (f : Place → String → String) (p : Place) (es : Entries) :
    mapLeaves f p (.map es) = .map (es.map fun e => (e.1, mapLeaves f (.key e.1 :: p) e.2)) := by
  rw [mapLeaves_eq (v := .map es) nofun, children, rebuild, List.map_map, List.zipWith_map_right, List.zipWith_self]
  rfl

theorem leaves_list (p : Place) (items : List Value) :
    leaves p (.list items) = (items.mapIdx fun i v => leaves (.index i :: p) v).flatten := by
  rw [leaves_eq (v := .list items) nofun, children, List.flatMap_def]
  exact congrArg List.flatten (List.ext_getElem (by simp) fun i _ _ => by simp)

theorem mapLeaves_list (f : Place → String → String) (p : Place) (items : List Value) :
    mapLeaves f p (.list items) = .list (items.mapIdx fun i v => mapLeaves f (.index i :: p) v) := by
  rw [mapLeaves_eq (v := .list items) nofun, children, rebuild]
  exact congrArg Value.list (List.ext_getElem (by simp) fun i _ _ => by simp)

theorem mapLeaves_ne_str (hv : ∀ s, v ≠ .str s) (s : String) : mapLeaves f p v ≠ .str s := by
  rw [mapLeaves_eq hv]
  cases v with
  | str t => exact absurd rfl (hv t)
  | _ => nofun

theorem children_mapLeaves (hv : ∀ s, v ≠ .str s) :
    children (mapLeaves f p v) = (children v).map fun e => (e.1, mapLeaves f (e.1 :: p) e.2) := by
  rw [mapLeaves_eq hv, children_rebuild]

/-- The texts of the changed tree are the changed texts. -/
theorem leaves_mapLeaves (f : Place → String → String) (p : Place) (v : Value) :
    leaves p (mapLeaves f p v) = (leaves p v).map fun l => (l.1, f l.1 l.2) := by
  induction v using children_induct generalizing p with
  | str s => simp [leaves, mapLeaves]
  | node v hv ih =>
    rw [leaves_eq (mapLeaves_ne_str hv), children_mapLeaves hv, leaves_eq hv, List.map_flatMap,
      List.flatMap_map]
    exact List.flatMap_congr fun e he => ih e he (e.1 :: p)

theorem mapLeaves_eq_self_iff (f : Place → String → String) (p : Place) (v : Value) :
    mapLeaves f p v = v ↔ ∀ l ∈ leaves p v, f l.1 l.2 = l.2 := by
  induction v using children_induct generalizing p with
  | str s => simp [leaves, mapLeaves]
  | node v hv ih =>
    rw [mapLeaves_eq hv, rebuild_eq_self_iff, leaves_eq hv]
    constructor
    · intro hall l hl
      obtain ⟨e, he, hl⟩ := List.mem_flatMap.mp hl
      exact (ih e he _).mp (hall e he) l hl
    · intro hall e he
      exact (ih e he _).mpr fun l hl => hall l (List.mem_flatMap.mpr ⟨e, he, hl⟩)

theorem mapLeaves_mapLeaves (f g : Place → String → String) (p : Place) (v : Value) :
    mapLeaves g p (mapLeaves f p v) = mapLeaves (fun p s => g p (f p s)) p v := by
  induction v using children_induct generalizing p with
  | str s => simp [mapLeaves]
  | node v hv ih =>
    rw [mapLeaves_eq (mapLeaves_ne_str hv), children_mapLeaves hv, mapLeaves_eq hv, rebuild_rebuild,
      mapLeaves_eq hv, List.map_map]
    exact congrArg (rebuild v) (List.map_congr_left fun e he => ih e he (e.1 :: p))

theorem suffix_of_mem_leaves {l : Place × String} (h : l ∈ leaves p v) : ∃ q, l.1 = q ++ p := by
  induction v using children_induct generalizing p with
  | str s =>
    rw [leaves, List.mem_singleton] at h
    exact ⟨[], h ▸ rfl⟩
  | node v hv ih =>
    rw [leaves_eq hv] at h
    obtain ⟨e, he, hl⟩ := List.mem_flatMap.mp h
    obtain ⟨q, hq⟩ := ih e he hl
    exact ⟨q ++ [e.1], by rw [hq, List.append_assoc]; rfl⟩

end Leaves

/-! ## Store keys -/

/-- What a run of the sealer is given: the secret store (whether there is one, which values it
takes), the instance it seals for and the paths its schema marks as secret. -/
structure Sealer where
  opens : Bool
  accepts : String → String → Bool
  inst : String
  secretPaths : List String
  /-- the first five bytes of SHA-256 of a name, as a number -/
  sum : String → Nat
  /-- the text of a key that is a float -/
  formatFloat : UInt64 → List Char

section Seal

variable (r : Sealer)

def isLegalKeyChar (c : Char) : Bool := c.isAlphanum || c == '_' || c == '.' || c == '-'

/-- The alphabet of base32, in lower case. -/
def base32Digits : List Char := "abcdefghijklmnopqrstuvwxyz234567".toList

/-- The base32 text of five bytes. -/
def keyHash (n : Nat) : List Char :=
  (List.range 8).map fun i => base32Digits.getD (n / 32 ^ (7 - i) % 32) 'a'

def maxKeyLen : Nat := 64

def sanitizeKey (name : String) : String :=
  let clean := name.toList.map fun c => if isLegalKeyChar c then c else '-'
  if clean = name.toList ∧ clean.length ≤ maxKeyLen then String.ofList clean
  else
    let suffix := '-' :: keyHash (r.sum name)
    String.ofList (clean.take (maxKeyLen - suffix.length) ++ suffix)

def reference (key : String) : String := "$\x7bsecret:" ++ key ++ "\x7d"

/-! ## The walk -/

inductive SealError where
  | noStore (dotted : String)
  | storing (key : String)
deriving DecidableEq, Repr

/-- What the store holds, the last value written first. -/
abbrev Store := List (String × String)

def joinPath (path : List String) : String := ".".intercalate path

def storeKey (stored : List String) : String := sanitizeKey r (r.inst ++ "." ++ joinPath stored)

/-- The branch of a text. -/
def sealText (full stored : List String) (k : String) (inSecret : Bool) (val : String) (st : Store) :
    Except SealError (String × Store) :=
  if !(inSecret || r.secretPaths.contains (joinPath full) || isSensitiveKey k) || val == "" ||
      occurs ['$', '{'] val.toList then .ok (val, st)
  else if !r.opens then .error (.noStore (joinPath full))
  else
    let key := storeKey r stored
    if r.accepts key val then .ok (reference key, (key, val) :: st) else .error (.storing key)

mutual
/-- The body of the loop over a mapping: the value of the key `k`. -/
def sealValue (full stored : List String) (k : String) (inSecret : Bool) :
    Value → Store → Except SealError (Value × Store)
  | .map m, st => do
    let (m, st) ← sealEntries full stored (inSecret || r.secretPaths.contains (joinPath full)) m st
    .ok (.map m, st)
  | .list items, st => do
    let (items, st) ← sealItems full stored (inSecret || r.secretPaths.contains (joinPath full)) 0 items st
    .ok (.list items, st)
  | .str val, st => do
    let (val, st) ← sealText r full stored k inSecret val st
    .ok (.str val, st)
  | v, st => .ok (v, st)

def sealEntries (path storePath : List String) (inSecret : Bool) :
    Entries → Store → Except SealError (Entries × Store)
  | [], st => .ok ([], st)
  | (k, v) :: m, st => do
    let (v, st) ← sealValue (path ++ [k]) (storePath ++ [k]) k inSecret v st
    let (m, st) ← sealEntries path storePath inSecret m st
    .ok ((k, v) :: m, st)

/-- The items that are mappings are walked; the others stay. -/
def sealItems (full stored : List String) (inSecret : Bool) :
    Nat → List Value → Store → Except SealError (List Value × Store)
  | _, [], st => .ok ([], st)
  | i, .map m :: items, st => do
    let (m, st) ← sealEntries full (stored ++ [toString i]) inSecret m st
    let (items, st) ← sealItems full stored inSecret (i + 1) items st
    .ok (.map m :: items, st)
  | i, item :: items, st => do
    let (items, st) ← sealItems full stored inSecret (i + 1) items st
    .ok (item :: items, st)
end

def sealParams (params : Entries) (st : Store) : Except SealError (Entries × Store) :=
  sealEntries r [] [] false params st

/-! ## Places the walk seals -/

/-- The name a step adds to a path. -/
def Step.name : Step → Option String
  | .key k => some k
  | .anyKey k => some (keyName r.formatFloat k)
  | .index _ => none

/-- The step as a part of a store key. -/
def Step.text : Step → String
  | .key k => k
  | .anyKey k => keyName r.formatFloat k
  | .index i => toString i

def pathOf (p : Place) : List String := (p.filterMap (Step.name r)).reverse

def storePathOf (p : Place) : List String := (p.map (Step.text r)).reverse

/-- The walk comes to a mapping at this place. -/
def walksTo : Place → Bool
  | [] => true
  | .key _ :: p => walksTo p
  | .index _ :: .key _ :: p => walksTo p
  | _ => false

/-- A secret path names the place or one above it. -/
def underSecretPath : Place → Bool
  | [] => false
  | st :: p => underSecretPath p || r.secretPaths.contains (joinPath (pathOf r (st :: p)))

/-- A secret path or a sensitive key names the place or one above it. -/
def isSecretPlace (p : Place) : Bool :=
  underSecretPath r p || (p.filterMap (Step.name r)).any isSensitiveKey

/-- A text at this place is sealed. -/
def seals : Place → Bool
  | .key k :: p => walksTo p && (underSecretPath r (.key k :: p) || isSensitiveKey k)
  | _ => false

def sealsText (l : Place × String) : Bool :=
  seals r l.1 && l.2 != "" && !occurs ['$', '{'] l.2.toList

def keyAt (p : Place) : String := storeKey r (storePathOf r p)

/-- What the walk leaves of a text. -/
def sealed (p : Place) (s : String) : String :=
  if sealsText r (p, s) then reference (keyAt r p) else s

/-- What the walk writes to the store. -/
def writes (ls : List (Place × String)) : Store :=
  ls.filterMap fun l =>
    if sealsText r l then some (keyAt r l.1, l.2) else none

section Walk

variable {r}

theorem writes_append (ls ls' : List (Place × String)) :
    writes r (ls ++ ls') = writes r ls ++ writes r ls' :=
  List.filterMap_append

/-- The walk need not go into the value. -/
def Untouched (r : Sealer) (p : Place) (v : Value) : Prop :=
  mapLeaves (sealed r) p v = v ∧ writes r (leaves p v) = []

variable {p : Place} {v : Value} {st st' : Store}

theorem untouched (h : ∀ l ∈ leaves p v, seals r l.1 = false) : Untouched r p v := by
  have hnot : ∀ l ∈ leaves p v, sealsText r l = false := fun l hl => by
    rw [sealsText, h l hl, Bool.false_and, Bool.false_and]
  constructor
  · refine (mapLeaves_eq_self_iff _ p v).mpr fun l hl => ?_
    rw [sealed, hnot l hl, if_neg Bool.false_ne_true]
  · refine List.filterMap_eq_nil_iff.mpr fun l hl => ?_
    rw [hnot l hl, if_neg Bool.false_ne_true]

/-- The walk never comes back from a step it does not take. -/
theorem not_walksTo {st : Step} (hp : walksTo (st :: p) = false) (hkey : ∀ k, st ≠ .key k) :
    (q : Place) → walksTo (q ++ st :: p) = false
  | [] => hp
  | .key _ :: q => not_walksTo hp hkey q
  | .anyKey _ :: _ => rfl
  | [.index _] => by
    cases st with
    | key k => exact absurd rfl (hkey k)
    | _ => rfl
  | .index _ :: .key _ :: q => not_walksTo hp hkey q
  | .index _ :: .anyKey _ :: _ => rfl
  | .index _ :: .index _ :: _ => rfl

theorem not_seals {st : Step} (hp : walksTo (st :: p) = false) (hkey : ∀ k, st ≠ .key k)
    (q : Place) : seals r (q ++ st :: p) = false := by
  cases q with
  | nil =>
    cases st with
    | key k => exact absurd rfl (hkey k)
    | _ => rfl
  | cons st' q =>
    cases st' with
    | key k => rw [List.cons_append, seals, not_walksTo hp hkey q, Bool.false_and]
    | _ => rfl

/-- A value whose parts the walk does not go into. -/
theorem untouched_inside (hv : ∀ s, v ≠ .str s)
    (h : ∀ e ∈ children v, walksTo (e.1 :: p) = false ∧ ∀ k, e.1 ≠ .key k) : Untouched r p v := by
  refine untouched fun l hl => ?_
  rw [leaves_eq hv] at hl
  obtain ⟨e, he, hl⟩ := List.mem_flatMap.mp hl
  obtain ⟨q, hq⟩ := suffix_of_mem_leaves hl
  rw [hq]
  exact not_seals (h e he).1 (h e he).2 q

theorem untouched_anyMap (p : Place) (es : List (AnyKey × Value)) : Untouched r p (.anyMap es) := by
  refine untouched_inside nofun fun e he => ?_
  obtain ⟨e', -, rfl⟩ := List.mem_map.mp he
  exact ⟨rfl, nofun⟩

/-- An item that is not a mapping. -/
theorem untouched_item {i : Nat} (hv : ∀ es, v ≠ .map es) : Untouched r (.index i :: p) v := by
  cases v with
  | map es => exact absurd rfl (hv es)
  | anyMap es => exact untouched_anyMap _ es
  | str s =>
    refine untouched fun l hl => ?_
    rw [leaves, List.mem_singleton] at hl
    rw [hl]
    rfl
  | list items =>
    refine untouched_inside nofun fun e he => ?_
    obtain ⟨j, hj, rfl⟩ := List.mem_mapIdx.mp he
    exact ⟨rfl, nofun⟩
  | null | scalar _ => exact untouched_inside nofun nofun

theorem sealText_ok {k val val' : String} (hp : walksTo p = true)
    (h : sealText r (pathOf r (.key k :: p)) (storePathOf r (.key k :: p)) k (underSecretPath r p) val st =
      .ok (val', st')) :
    val' = sealed r (.key k :: p) val ∧ st' = (writes r [(.key k :: p, val)]).reverse ++ st := by
  have htest : sealsText r (.key k :: p, val) =
      !(!(underSecretPath r p || r.secretPaths.contains (joinPath (pathOf r (.key k :: p))) ||
          isSensitiveKey k) || val == "" || occurs ['$', '{'] val.toList) := by
    rw [sealsText, seals, hp, Bool.true_and, underSecretPath, bne, Bool.not_or, Bool.not_or,
      Bool.not_not]
  unfold sealText at h
  rw [sealed, writes, List.filterMap_cons, htest]
  split at h
  next hskip =>
    rw [hskip]
    obtain ⟨rfl, rfl⟩ := Prod.mk.inj (Except.ok.inj h)
    exact ⟨rfl, rfl⟩
  next hgo =>
    rw [Bool.eq_false_of_not_eq_true hgo]
    split at h
    · cases h
    · dsimp only at h
      split at h
      · obtain ⟨rfl, rfl⟩ := Prod.mk.inj (Except.ok.inj h)
        exact ⟨rfl, rfl⟩
      · cases h

/-- A value the walk leaves. -/
theorem stays_ok {v' : Value} (h : (v, st) = (v', st')) (hv : Untouched r p v) :
    v' = mapLeaves (sealed r) p v ∧ st' = (writes r (leaves p v)).reverse ++ st := by
  obtain ⟨rfl, rfl⟩ := Prod.mk.inj h
  rw [hv.1, hv.2]
  exact ⟨rfl, rfl⟩

theorem flatten_writes {xs : List (Place × String)} {ys : List (List (Place × String))} :
    (writes r (xs :: ys).flatten).reverse ++ st =
      (writes r ys.flatten).reverse ++ ((writes r xs).reverse ++ st) := by
  rw [List.flatten_cons, writes_append, List.reverse_append, List.append_assoc]

/-- The items of a list have the list's own path. -/
theorem underSecretPath_index (i : Nat) (st : Step) (p : Place) :
    underSecretPath r (.index i :: st :: p) = underSecretPath r (st :: p) := by
  have hpath : pathOf r (.index i :: st :: p) = pathOf r (st :: p) := rfl
  rw [underSecretPath, hpath, underSecretPath, Bool.or_assoc, Bool.or_self]

theorem shift (i j : Nat) : j + 1 + i = j + (i + 1) := by omega

/-- An item the walk leaves, and the items after it. -/
theorem keeps_ok {i : Nat} {item : Value} {items items' : List Value}
    {rest : Except SealError (List Value × Store)}
    (hitem : Untouched r (.index i :: p) item)
    (h : (do let (items, st) ← rest; .ok (item :: items, st)) = Except.ok (items', st'))
    (ih : ∀ {items' : List Value} {st' : Store}, rest = .ok (items', st') →
      items' = (items.mapIdx fun j v => mapLeaves (sealed r) (.index (j + (i + 1)) :: p) v) ∧
        st' = (writes r (items.mapIdx fun j v => leaves (.index (j + (i + 1)) :: p) v).flatten).reverse ++ st) :
    items' = ((item :: items).mapIdx fun j v => mapLeaves (sealed r) (.index (j + i) :: p) v) ∧
      st' = (writes r
        ((item :: items).mapIdx fun j v => leaves (.index (j + i) :: p) v).flatten).reverse ++ st := by
  obtain ⟨⟨items₁, st₁⟩, hrest, h⟩ := bind_ok h
  obtain ⟨rfl, rfl⟩ := Prod.mk.inj (Except.ok.inj h)
  obtain ⟨rfl, rfl⟩ := ih hrest
  simp only [List.mapIdx_cons, flatten_writes, Nat.zero_add, shift i, hitem.1, hitem.2,
    List.reverse_nil, List.nil_append, and_self]

mutual
theorem sealValue_ok {k : String} {p : Place} (hp : walksTo p = true) : (v : Value) →
    ∀ {v' : Value} {st st' : Store},
      sealValue r (pathOf r (.key k :: p)) (storePathOf r (.key k :: p)) k (underSecretPath r p) v st =
        .ok (v', st') →
      v' = mapLeaves (sealed r) (.key k :: p) v ∧ st' = (writes r (leaves (.key k :: p) v)).reverse ++ st
  | .map m, v', st, st', h => by
    obtain ⟨⟨m', st''⟩, hm, h⟩ := bind_ok h
    obtain ⟨rfl, rfl⟩ := Prod.mk.inj (Except.ok.inj h)
    obtain ⟨rfl, rfl⟩ := sealEntries_ok (p := .key k :: p) hp m hm
    rw [mapLeaves_map, leaves_map]
    exact ⟨rfl, rfl⟩
  | .list items, v', st, st', h => by
    obtain ⟨⟨items', st''⟩, hitems, h⟩ := bind_ok h
    obtain ⟨rfl, rfl⟩ := Prod.mk.inj (Except.ok.inj h)
    obtain ⟨rfl, rfl⟩ := sealItems_ok hp 0 items hitems
    simp only [Nat.add_zero, mapLeaves_list, leaves_list, and_self]
  | .str val, v', st, st', h => by
    obtain ⟨⟨val', st''⟩, hval, h⟩ := bind_ok h
    obtain ⟨rfl, rfl⟩ := Prod.mk.inj (Except.ok.inj h)
    obtain ⟨rfl, rfl⟩ := sealText_ok hp hval
    rw [mapLeaves, leaves]
    exact ⟨rfl, rfl⟩
  | .anyMap es, v', st, st', h => stays_ok (Except.ok.inj h) (untouched_anyMap _ es)
  | .null, v', st, st', h | .scalar _, v', st, st', h =>
    stays_ok (Except.ok.inj h) (untouched_inside nofun nofun)

theorem sealEntries_ok {p : Place} (hp : walksTo p = true) : (m : Entries) →
    ∀ {m' : Entries} {st st' : Store},
      sealEntries r (pathOf r p) (storePathOf r p) (underSecretPath r p) m st = .ok (m', st') →
      m' = (m.map fun e => (e.1, mapLeaves (sealed r) (.key e.1 :: p) e.2)) ∧
        st' = (writes r (m.flatMap fun e => leaves (.key e.1 :: p) e.2)).reverse ++ st
  | [], m', st, st', h => by
    obtain ⟨rfl, rfl⟩ := Prod.mk.inj (Except.ok.inj h)
    exact ⟨rfl, rfl⟩
  | (k, v) :: m, m', st, st', h => by
    obtain ⟨⟨v', st₁⟩, hv, h⟩ := bind_ok h
    obtain ⟨⟨m₁, st₂⟩, hm, h⟩ := bind_ok h
    obtain ⟨rfl, rfl⟩ := Prod.mk.inj (Except.ok.inj h)
    have hpath : pathOf r p ++ [k] = pathOf r (.key k :: p) := by
      simp [pathOf, Step.name]
    have hstore : storePathOf r p ++ [k] = storePathOf r (.key k :: p) := by
      simp [storePathOf, Step.text]
    rw [hpath, hstore] at hv
    obtain ⟨rfl, rfl⟩ := sealValue_ok hp v hv
    obtain ⟨rfl, rfl⟩ := sealEntries_ok hp m hm
    rw [List.flatMap_cons, writes_append, List.reverse_append, List.append_assoc]
    exact ⟨rfl, rfl⟩

theorem sealItems_ok {k : String} {p : Place} (hp : walksTo p = true) (i : Nat) :
    (items : List Value) → ∀ {items' : List Value} {st st' : Store},
      sealItems r (pathOf r (.key k :: p)) (storePathOf r (.key k :: p))
        (underSecretPath r (.key k :: p)) i items st = .ok (items', st') →
      items' = (items.mapIdx fun j v => mapLeaves (sealed r) (.index (j + i) :: .key k :: p) v) ∧
        st' = (writes r
          (items.mapIdx fun j v => leaves (.index (j + i) :: .key k :: p) v).flatten).reverse ++ st
  | [], items', st, st', h => by
    obtain ⟨rfl, rfl⟩ := Prod.mk.inj (Except.ok.inj h)
    exact ⟨rfl, rfl⟩
  | .map m :: items, items', st, st', h => by
    obtain ⟨⟨m', st₁⟩, hm, h⟩ := bind_ok h
    obtain ⟨⟨items₁, st₂⟩, hitems, h⟩ := bind_ok h
    obtain ⟨rfl, rfl⟩ := Prod.mk.inj (Except.ok.inj h)
    have hstore : storePathOf r (.key k :: p) ++ [toString i] =
        storePathOf r (.index i :: .key k :: p) := by
      simp [storePathOf, Step.text]
    rw [hstore, ← underSecretPath_index i] at hm
    obtain ⟨rfl, rfl⟩ := sealEntries_ok (p := .index i :: .key k :: p) hp m hm
    obtain ⟨rfl, rfl⟩ := sealItems_ok hp (i + 1) items hitems
    simp only [List.mapIdx_cons, flatten_writes, mapLeaves_map, leaves_map, Nat.zero_add, shift i,
      and_self]
  | .null :: items, items', st, st', h | .str _ :: items, items', st, st', h =>
    keeps_ok (untouched_item nofun) h (sealItems_ok hp (i + 1) items)
  | .scalar _ :: items, items', st, st', h | .list _ :: items, items', st, st', h
  | .anyMap _ :: items, items', st, st', h =>
    keeps_ok (untouched_item nofun) h (sealItems_ok hp (i + 1) items)
end

end Walk

/-! ## Reading a reference back -/

/-- The key of a text that is one reference to the store. -/
def secretKeyOf (s : String) : Option String :=
  match matchReference s.toList with
  | some (⟨.secret, ref, none⟩, []) => some (String.ofList ref)
  | _ => none

def restored (st : Store) (s : String) : String :=
  match secretKeyOf s with
  | some key => (st.lookup key).getD s
  | none => s

/-- The tree with the stored values in the places of their references. -/
def readBack (st : Store) (v : Value) : Value := mapLeaves (fun _ => restored st) [] v

theorem isLegal_base32 (i : Nat) : isLegalKeyChar (base32Digits.getD i 'a') = true := by
  have hall : base32Digits.all isLegalKeyChar = true := by decide +kernel
  rw [List.getD_eq_getElem?_getD]
  cases h : base32Digits[i]? with
  | none => rfl
  | some c => exact List.all_eq_true.mp hall c (List.mem_of_getElem? h)

variable {name : String}

theorem isLegal_sanitizeKey {c : Char} (h : c ∈ (sanitizeKey r name).toList) :
    isLegalKeyChar c = true := by
  have hclean : ∀ c ∈ name.toList.map fun c => if isLegalKeyChar c then c else '-',
      isLegalKeyChar c = true := by
    refine List.forall_mem_map.mpr fun c _ => ?_
    split
    next hc => exact hc
    next => rfl
  unfold sanitizeKey at h
  dsimp only at h
  split at h
  · rw [String.toList_ofList] at h
    exact hclean c h
  · rw [String.toList_ofList, List.mem_append, List.mem_cons] at h
    rcases h with h | rfl | h
    · exact hclean c (List.mem_of_mem_take h)
    · rfl
    · obtain ⟨i, -, rfl⟩ := List.mem_map.mp h
      exact isLegal_base32 _

theorem sanitizeKey_ne_nil (h : name.toList ≠ []) : (sanitizeKey r name).toList ≠ [] := by
  unfold sanitizeKey
  dsimp only
  split
  · rw [String.toList_ofList]
    exact List.map_eq_nil_iff.not.mpr h
  · rw [String.toList_ofList]
    exact List.append_ne_nil_of_right_ne_nil _ (List.cons_ne_nil _ _)

theorem splitDefault_legal {s : Lib.Text} (h : ':' ∉ s) : splitDefault s = (s, none) := by
  induction s with
  | nil => rfl
  | cons c s ih =>
    rw [List.mem_cons, not_or] at h
    have hnot : [':', '-'].isPrefixOf (c :: s) = false := by
      simp [List.isPrefixOf, h.1]
    rw [splitDefault, hnot, if_neg Bool.false_ne_true, ih h.2]

theorem toList_reference (key : String) :
    (reference key).toList = (Reference.mk .secret key.toList none).render := by
  simp [reference, Reference.render, Reference.body, kindWord]

theorem secretKeyOf_reference {key : String} (hlegal : ∀ c ∈ key.toList, isLegalKeyChar c = true)
    (hne : key.toList ≠ []) : secretKeyOf (reference key) = some key := by
  have hcolon : ':' ∉ key.toList := fun h => absurd (hlegal _ h) (by decide)
  have hbrace : '}' ∉ key.toList := fun h => absurd (hlegal _ h) (by decide)
  have hsplit : splitBody key.toList = some (key.toList, none) := by
    cases hk : key.toList with
    | nil => exact absurd hk hne
    | cons c s =>
      rw [hk, List.mem_cons, not_or] at hcolon
      rw [splitBody, splitDefault_legal hcolon.2]
  have hmatch : matchReference (reference key).toList = some (⟨.secret, key.toList, none⟩, []) :=
    matchReference_iff.mpr ⟨⟨hbrace, hsplit⟩, by rw [toList_reference, List.append_nil]⟩
  rw [secretKeyOf, hmatch]
  exact congrArg some String.ofList_toList

theorem secretKeyOf_plain {s : String} (h : occurs ['$', '{'] s.toList = false) : secretKeyOf s = none := by
  unfold secretKeyOf
  split
  next ref hm =>
    have hs := (matchReference_iff.mp hm).2
    rw [hs] at h
    cases h
  next => rfl

theorem secretKeyOf_keyAt (p : Place) : secretKeyOf (reference (keyAt r p)) = some (keyAt r p) := by
  refine secretKeyOf_reference (fun c hc => isLegal_sanitizeKey r hc) (sanitizeKey_ne_nil r ?_)
  simp

/-- Every value of a list of pairs is found under its key exactly when no key has two values. -/
theorem lookup_own_iff {st : Store} :
    (∀ w ∈ st, st.lookup w.1 = some w.2) ↔ ∀ w ∈ st, ∀ w' ∈ st, w.1 = w'.1 → w.2 = w'.2 := by
  constructor
  · intro h w hw w' hw' hkey
    have hlook := h w hw
    rw [hkey, h w' hw'] at hlook
    exact (Option.some.inj hlook).symm
  · intro h w hw
    cases hlook : st.lookup w.1 with
    | none =>
      have := List.lookup_eq_none_iff.mp hlook w hw
      simp at this
    | some v =>
      obtain ⟨l₁, l₂, hst, -⟩ := List.lookup_eq_some_iff.mp hlook
      have hmem : (w.1, v) ∈ st := hst ▸ List.mem_append_right _ List.mem_cons_self
      exact congrArg some (h _ hmem w hw rfl)

section Reversible

variable {r}

variable {l : Place × String} {ls : List (Place × String)}

theorem sealsText_iff (hplain : occurs ['$', '{'] l.2.toList = false) :
    sealsText r l = true ↔ seals r l.1 = true ∧ l.2 ≠ "" := by
  simp [sealsText, hplain]

theorem mem_writes {w : String × String} :
    w ∈ writes r ls ↔ ∃ l ∈ ls, sealsText r l = true ∧ w = (keyAt r l.1, l.2) := by
  rw [writes, List.mem_filterMap]
  refine exists_congr fun l => and_congr_right fun _ => ?_
  rw [Option.ite_none_right_eq_some, Option.some.injEq]
  exact and_congr_right fun _ => eq_comm

/-- A text comes back when it was left, or when the store holds it under its key. -/
theorem restored_sealed_iff {st : Store} (hplain : occurs ['$', '{'] l.2.toList = false) :
    restored st (sealed r l.1 l.2) = l.2 ↔
      (sealsText r l = true → st.lookup (keyAt r l.1) = some l.2) := by
  unfold sealed
  split
  next hseals =>
    rw [restored, secretKeyOf_keyAt]
    dsimp only
    cases st.lookup (keyAt r l.1) with
    | some v => simp [hseals]
    | none =>
      -- a reference that stays is not the plain text
      refine iff_of_false (fun heq => ?_) fun h => by cases h hseals
      have hkey := secretKeyOf_keyAt r l.1
      rw [Option.getD_none] at heq
      rw [heq, secretKeyOf_plain hplain] at hkey
      cases hkey
  next hnot =>
    rw [restored, secretKeyOf_plain hplain]
    exact iff_of_true rfl fun h => absurd h hnot

theorem sealed_reference_iff (hplain : occurs ['$', '{'] l.2.toList = false) :
    (sealed r l.1 l.2 ≠ "" → ∃ key, sealed r l.1 l.2 = reference key) ↔
      (l.2 ≠ "" → seals r l.1 = true) := by
  unfold sealed
  split
  next hseals => exact iff_of_true (fun _ => ⟨_, rfl⟩) fun _ => ((sealsText_iff hplain).mp hseals).1
  next hnot =>
    constructor
    · intro h hne
      obtain ⟨key, hkey⟩ := h hne
      have hocc : occurs ['$', '{'] l.2.toList = true := by
        rw [hkey, toList_reference]
        rfl
      cases hplain.symm.trans hocc
    · exact fun h hne => absurd ((sealsText_iff hplain).mpr ⟨h hne, hne⟩) hnot

theorem forall_mem_writes {q : String × String → Prop} :
    (∀ w ∈ (writes r ls).reverse, q w) ↔ ∀ l ∈ ls, sealsText r l = true → q (keyAt r l.1, l.2) := by
  constructor
  · exact fun h l hl hseals => h _ (List.mem_reverse.mpr (mem_writes.mpr ⟨l, hl, hseals, rfl⟩))
  · intro h w hw
    obtain ⟨l, hl, hseals, rfl⟩ := mem_writes.mp (List.mem_reverse.mp hw)
    exact h l hl hseals

theorem readBack_sealed_iff {v : Value} (hplain : ∀ l ∈ leaves [] v, occurs ['$', '{'] l.2.toList = false) :
    readBack (writes r (leaves [] v)).reverse (mapLeaves (sealed r) [] v) = v ↔
      ∀ l ∈ leaves [] v, sealsText r l = true → ∀ l' ∈ leaves [] v, sealsText r l' = true →
        keyAt r l.1 = keyAt r l'.1 → l.2 = l'.2 := by
  rw [readBack, mapLeaves_mapLeaves, mapLeaves_eq_self_iff]
  rw [forall₂_congr fun l hl => restored_sealed_iff (hplain l hl)]
  rw [← forall_mem_writes (q := fun w => List.lookup w.1 _ = some w.2), lookup_own_iff]
  simp only [forall_mem_writes]

/-- Sealed on an empty store, a tree of plain texts reads back and has every secret replaced
exactly when no two different texts are sealed under one key, and every text that is a secret
stands where the walk seals. -/
theorem sealParams_reversible_iff {params out : Entries} {st : Store}
    (hplain : ∀ l ∈ leaves [] (.map params), occurs ['$', '{'] l.2.toList = false)
    (h : sealParams r params [] = .ok (out, st)) :
    (readBack st (.map out) = .map params ∧
        ∀ l ∈ leaves [] (.map out), isSecretPlace r l.1 = true → l.2 ≠ "" →
          ∃ key, l.2 = reference key) ↔
      (∀ l ∈ leaves [] (.map params), ∀ l' ∈ leaves [] (.map params), l.2 ≠ "" → l'.2 ≠ "" →
          seals r l.1 = true → seals r l'.1 = true →
          keyAt r l.1 = keyAt r l'.1 → l.2 = l'.2) ∧
        ∀ l ∈ leaves [] (.map params), isSecretPlace r l.1 = true → l.2 ≠ "" →
          seals r l.1 = true := by
  obtain ⟨rfl, rfl⟩ := @sealEntries_ok r [] rfl params out [] st h
  rw [← mapLeaves_map, ← leaves_map, List.append_nil, readBack_sealed_iff hplain, leaves_mapLeaves,
    List.forall_mem_map]
  refine and_congr ?_ (forall₂_congr fun l hl => imp_congr_right fun _ =>
    sealed_reference_iff (hplain l hl))
  refine forall₂_congr fun l hl => ?_
  rw [sealsText_iff (hplain l hl)]
  constructor
  · intro hone l' hl' hne hne' hseals hseals'
    exact hone ⟨hseals, hne⟩ l' hl' ((sealsText_iff (hplain l' hl')).mpr ⟨hseals', hne'⟩)
  · intro hone hseals l' hl' hseals'
    have hs' := (sealsText_iff (hplain l' hl')).mp hseals'
    exact hone l' hl' hseals.2 hs'.2 hseals.1 hs'.1

end Reversible

end Seal

def plainSealer : Sealer := ⟨true, fun _ _ => true, "i", [], fun _ => 0, fun _ => []⟩

def oneSecret : Entries := [("a", .map [("dsn", .str "x")]), ("b", .str "y")]

theorem sealParams_reversible_one :
    ∃ out st, sealParams plainSealer oneSecret [] = .ok (out, st) ∧
      readBack st (.map out) = .map oneSecret := by
  have h : sealParams plainSealer oneSecret [] =
      .ok ([("a", .map [("dsn", .str (reference "i.a.dsn"))]), ("b", .str "y")], [("i.a.dsn", "x")]) := by
    decide +kernel
  have hleaves : leaves [] (.map oneSecret) = [([.key "dsn", .key "a"], "x"), ([.key "b"], "y")] := by
    simp [oneSecret, leaves_map, leaves]
  refine ⟨_, _, h, ((sealParams_reversible_iff ?_ h).mpr ?_).1⟩
  · rw [hleaves]
    decide
  · rw [hleaves]
    decide +kernel

/-- A key with a dot in it and the path it spells: one of the two values is lost. -/
def dottedKey : Entries := [("a.dsn", .str "x"), ("a", .map [("dsn", .str "y")])]

theorem sealParams_loses_dotted :
    ∃ out st, sealParams plainSealer dottedKey [] = .ok (out, st) ∧
      readBack st (.map out) ≠ .map dottedKey := by
  have h : sealParams plainSealer dottedKey [] =
      .ok ([("a.dsn", .str (reference "i.a.dsn")), ("a", .map [("dsn", .str (reference "i.a.dsn"))])],
        [("i.a.dsn", "y"), ("i.a.dsn", "x")]) := by
    decide +kernel
  refine ⟨_, _, h, ?_⟩
  have hback : readBack [("i.a.dsn", "y"), ("i.a.dsn", "x")]
      (.map [("a.dsn", .str (reference "i.a.dsn")), ("a", .map [("dsn", .str (reference "i.a.dsn"))])]) =
        .map [("a.dsn", .str "y"), ("a", .map [("dsn", .str "y")])] := by
    decide +kernel
  rw [hback]
  decide +kernel

end SenhubAgent.Config

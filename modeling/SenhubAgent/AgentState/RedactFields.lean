import SenhubAgent.AgentState.RedactRules

/-!
# Masking by key

A value under a name such as `password` says nothing about itself: no text rule finds a `key=` in
it. `maskByKey` masks it for its name. Three places go through named values: `maskStringMap` the
attributes of a record, `redactKeyValues` and `redactAnyValue` the attributes of a received batch at
every depth, and `maskFieldsMap`, `maskAny` and `maskFieldsSlice` the structured fields of a record.

The last three do not call `maskByKey`. A string in the fields is masked for its text only, so one
under a credential name stays as it is unless a text rule happens to mask all of it. The result
(`keys_masked_iff`) says that this is the one difference: names are masked everywhere, and the two
walks agree, exactly for the fields where the text rules do on their own what the name asks for.

Mirroring notes:
- A Go map and a `KvlistValue` are both the list of their entries, and a structured field and an
  `AnyValue` both a `Value`. A value that is neither text, mapping nor list is a scalar.
- The walk over fields copies a mapping at its first change; here a mapping is its entries with the
  changed ones replaced, and the flag that says whether there are any.
- `strings.ToLower` of a name is needed as far as it gives ASCII letters: U+212A becomes `k`, U+0130
  becomes `i`.
- The body of a record and the counters of masked values are left out.
-/

namespace SenhubAgent.AgentState.Redact

open SenhubAgent.Lib

/-! ## Names -/

/-- The rule a masked value counts for. -/
inductive KeyRule where
  | credentialParam
  | authorizationHeader
  deriving DecidableEq

def credentialKeys : List (Bytes × KeyRule) :=
  (["password", "passwd", "pwd", "passhash", "apikey", "api_key", "token", "access_token",
    "refresh_token", "id_token", "client_secret", "secret"].map fun k =>
      (asciiText k, .credentialParam)) ++
    ["authorization", "proxy-authorization"].map fun k => (asciiText k, .authorizationHeader)

/-- `strings.ToLower`, passing over what is left of a rune. -/
def lowerFrom : Nat → Bytes → Bytes
  | _, [] => []
  | skip + 1, _ :: rest => lowerFrom skip rest
  | 0, c :: rest =>
    if [0xE2, 0x84, 0xAA].isPrefixOf (c :: rest) then ascii 'k' :: lowerFrom 2 rest
    else if [0xC4, 0xB0].isPrefixOf (c :: rest) then ascii 'i' :: lowerFrom 1 rest
    else asciiLower c :: lowerFrom 0 rest

def toLower (s : Bytes) : Bytes := lowerFrom 0 s

/-- What follows the last dot. -/
def lastSegment (s : Bytes) : Bytes := (s.reverse.takeWhile (· ≠ ascii '.')).reverse

/-- The rule for values under a name, if it is the name of a credential. -/
def credentialRule (key : Bytes) : Option KeyRule := credentialKeys.lookup (lastSegment (toLower key))

/-- The white space runes, in UTF-8. -/
def spaceRunes : List Bytes :=
  [[9], [10], [11], [12], [13], [32], [0xC2, 0x85], [0xC2, 0xA0], [0xE1, 0x9A, 0x80]] ++
    ((List.range 11).map fun i => [0xE2, 0x80, 0x80 + i.toUInt8]) ++
    [[0xE2, 0x80, 0xA8], [0xE2, 0x80, 0xA9], [0xE2, 0x80, 0xAF], [0xE2, 0x81, 0x9F],
      [0xE3, 0x80, 0x80]]

def trimStart (spaces : List Bytes) : Nat → Bytes → Bytes
  | 0, s => s
  | fuel + 1, s =>
    match spaces.find? (·.isPrefixOf s) with
    | some space => trimStart spaces fuel (s.drop space.length)
    | none => s

/-- `strings.TrimSpace` -/
def trimSpace (s : Bytes) : Bytes :=
  let s := trimStart spaceRunes s.length s
  (trimStart (spaceRunes.map List.reverse) s.length s.reverse).reverse

/-- What a value becomes: an `Authorization` value keeps its scheme. -/
def keyMask (rule : KeyRule) (v : Bytes) : Bytes :=
  match rule with
  | .credentialParam => maskText
  | .authorizationHeader =>
    let scheme := (trimSpace v).takeWhile (· ≠ ascii ' ')
    -- `sp > 0`: there is a space, and not at the start
    if ascii ' ' ∈ trimSpace v ∧ scheme ≠ [] then scheme ++ ascii ' ' :: maskText else maskText

def presetOn (rules : List Rule) : Bool := rules.any fun rule => rule.name == "credential_param"

def maskByKey (rules : List Rule) (key v : Bytes) : Bytes × Bool :=
  if v = [] ∨ presetOn rules = false then (v, false)
  else
    match credentialRule key with
    | none => (v, false)
    | some rule => (keyMask rule v, true)

/-! ## The walks -/

/-- A structured value. -/
inductive Value where
  | str (s : Bytes)
  | map (entries : List (Bytes × Value))
  | list (items : List Value)
  | scalar (n : Int)

abbrev Entries := List (Bytes × Value)

/-- The text under a name: masked for the name, else by the rules. -/
def maskNamed (rules : List Rule) (key v : Bytes) : Bytes :=
  let (masked, keyed) := maskByKey rules key v
  if keyed then masked else maskString rules v

def maskStringMap (rules : List Rule) (attrs : List (Bytes × Bytes)) : List (Bytes × Bytes) :=
  attrs.map fun (k, v) => (k, maskNamed rules k v)

mutual
/-- The masked value, and whether it is another. -/
def maskAny (rules : List Rule) : Value → Value × Bool
  | .str t =>
    if t = [] then (.str t, false)
    else if maskString rules t = t then (.str t, false)
    else (.str (maskString rules t), true)
  | .map m => (.map (maskFieldsMap rules m).1, (maskFieldsMap rules m).2)
  | .list items => (.list (maskFieldsSlice rules items).1, (maskFieldsSlice rules items).2)
  | .scalar n => (.scalar n, false)

def maskFieldsMap (rules : List Rule) : Entries → Entries × Bool
  | [] => ([], false)
  | (k, child) :: rest =>
    ((k, if (maskAny rules child).2 then (maskAny rules child).1 else child) ::
        (maskFieldsMap rules rest).1,
      (maskAny rules child).2 || (maskFieldsMap rules rest).2)

def maskFieldsSlice (rules : List Rule) : List Value → List Value × Bool
  | [] => ([], false)
  | child :: rest =>
    ((if (maskAny rules child).2 then (maskAny rules child).1 else child) ::
        (maskFieldsSlice rules rest).1,
      (maskAny rules child).2 || (maskFieldsSlice rules rest).2)
end

def maskRecordFields (rules : List Rule) (fields : Entries) : Entries :=
  if (maskFieldsMap rules fields).2 then (maskFieldsMap rules fields).1 else fields

mutual
def redactAnyValue (rules : List Rule) : Value → Value
  | .str s => .str (maskString rules s)
  | .map kvs => .map (redactKeyValues rules kvs)
  | .list items => .list (redactItems rules items)
  | .scalar n => .scalar n

def redactKeyValues (rules : List Rule) : Entries → Entries
  | [] => []
  | (k, v) :: rest =>
    (k, match v with
      | .str s => .str (maskNamed rules k s)
      | v => redactAnyValue rules v) :: redactKeyValues rules rest

def redactItems (rules : List Rule) : List Value → List Value
  | [] => []
  | v :: rest => redactAnyValue rules v :: redactItems rules rest
end

/-! ## What stands where -/

/-- The `i`-th entry or item, with the name it stands under. -/
def Value.child : Value → Nat → Option (Option Bytes × Value)
  | .map es, i => es[i]?.map fun e => (some e.1, e.2)
  | .list items, i => items[i]?.map fun v => (none, v)
  | .str _, _ => none
  | .scalar _, _ => none

/-- What stands at a path below a value that itself stands under `key`. -/
def entryAt (key : Option Bytes) (v : Value) : List Nat → Option (Option Bytes × Value)
  | [] => some (key, v)
  | i :: path =>
    match v.child i with
    | some (k, w) => entryAt k w path
    | none => none

/-- `***`, or for an authorization key the scheme of the value and ` ***`. -/
def IsKeyMask (rule : KeyRule) (v m : Bytes) : Prop :=
  m = maskText ∨ rule = .authorizationHeader ∧ ∃ scheme rest,
    trimSpace v = scheme ++ ascii ' ' :: rest ∧ ascii ' ' ∉ scheme ∧ scheme ≠ [] ∧
      m = scheme ++ ascii ' ' :: maskText

/-- Every text that stands under the name of a credential, however deep, is masked. -/
def KeysMasked (before after : Value) : Prop :=
  ∀ path k s rule, entryAt none before path = some (some k, .str s) → s ≠ [] →
    credentialRule k = some rule →
      ∃ m, entryAt none after path = some (some k, .str m) ∧ IsKeyMask rule s m

/-- The text rules do to every such text what its name asks for. -/
def RulesMaskKeys (rules : List Rule) (key : Option Bytes) (v : Value) : Prop :=
  ∀ path k s rule, entryAt key v path = some (some k, .str s) → s ≠ [] →
    credentialRule k = some rule → maskString rules s = keyMask rule s

theorem keyMask_isKeyMask (rule : KeyRule) (v : Bytes) : IsKeyMask rule v (keyMask rule v) := by
  cases rule with
  | credentialParam => exact .inl rfl
  | authorizationHeader =>
    rw [keyMask]
    split
    next hscheme =>
      obtain ⟨hin, hne⟩ := hscheme
      have hsplit := List.takeWhile_append_dropWhile (p := (· ≠ ascii ' ')) (l := trimSpace v)
      have hfree : ascii ' ' ∉ (trimSpace v).takeWhile (· ≠ ascii ' ') := fun hmem =>
        absurd (List.mem_takeWhile_imp hmem) (by decide)
      have hstop : ∃ rest, (trimSpace v).dropWhile (· ≠ ascii ' ') = ascii ' ' :: rest := by
        cases hdrop : (trimSpace v).dropWhile (· ≠ ascii ' ') with
        | nil =>
          rw [hdrop, List.append_nil] at hsplit
          rw [← hsplit] at hin
          exact absurd hin hfree
        | cons c rest =>
          have hhead := List.head?_dropWhile_not (· ≠ ascii ' ') (trimSpace v)
          rw [hdrop] at hhead
          exact ⟨rest, by rw [Decidable.not_not.mp (of_decide_eq_false hhead)]⟩
      obtain ⟨rest, hrest⟩ := hstop
      refine .inr ⟨rfl, _, rest, ?_, hfree, hne, rfl⟩
      rw [← hrest]
      exact hsplit.symm
    next => exact .inl rfl

section Walks

variable {rules : List Rule}

theorem maskString_nil (rules : List Rule) : maskString rules [] = [] := by
  rw [maskString, maskWith, if_pos (.inl rfl)]

variable {k s : Bytes} {key : Option Bytes}

theorem maskNamed_credential (hpreset : presetOn rules = true) {rule : KeyRule} (hs : s ≠ [])
    (hrule : credentialRule k = some rule) : maskNamed rules k s = keyMask rule s := by
  rw [maskNamed, maskByKey, if_neg (not_or.mpr ⟨hs, by rw [hpreset]; nofun⟩), hrule]
  rfl

/-- A text the name does not ask for is masked by the rules. -/
theorem maskNamed_other (h : s = [] ∨ credentialRule k = none) :
    maskNamed rules k s = maskString rules s := by
  have hkey : maskByKey rules k s = (s, false) := by
    rw [maskByKey]
    split
    next => rfl
    next hnot => rw [h.resolve_left fun hs => hnot (.inl hs)]
  rw [maskNamed, hkey]
  rfl

/-! ### The walk over fields -/

theorem maskAny_str (t : Bytes) : (maskAny rules (.str t)).1 = .str (maskString rules t) := by
  rw [maskAny]
  split
  next hnil => rw [hnil, maskString_nil]
  next =>
    split
    next hsame => rw [hsame]
    next => rfl

mutual
/-- A value reported as unchanged is unchanged. -/
theorem maskAny_same : ∀ v : Value, (maskAny rules v).2 = false → (maskAny rules v).1 = v
  | .str t => by
    intro h
    rw [maskAny] at h ⊢
    split at h
    next hnil => rw [if_pos hnil]
    next hnil =>
      split at h
      next hsame => rw [if_neg hnil, if_pos hsame]
      next => exact absurd h nofun
  | .map m => fun h => congrArg Value.map (maskFieldsMap_same m h)
  | .list items => fun h => congrArg Value.list (maskFieldsSlice_same items h)
  | .scalar _ => fun _ => rfl

theorem maskFieldsMap_same : ∀ es : Entries, (maskFieldsMap rules es).2 = false →
    (maskFieldsMap rules es).1 = es
  | [] => fun _ => rfl
  | (k, child) :: rest => by
    intro h
    rw [maskFieldsMap] at h ⊢
    obtain ⟨hchild, hrest⟩ := Bool.or_eq_false_iff.mp h
    rw [hchild, maskFieldsMap_same rest hrest]
    rfl

theorem maskFieldsSlice_same : ∀ items : List Value, (maskFieldsSlice rules items).2 = false →
    (maskFieldsSlice rules items).1 = items
  | [] => fun _ => rfl
  | child :: rest => by
    intro h
    rw [maskFieldsSlice] at h ⊢
    obtain ⟨hchild, hrest⟩ := Bool.or_eq_false_iff.mp h
    rw [hchild, maskFieldsSlice_same rest hrest]
    rfl
end

/-- Replacing the changed children replaces all of them. -/
theorem ite_changed (v : Value) :
    (if (maskAny rules v).2 then (maskAny rules v).1 else v) = (maskAny rules v).1 := by
  split
  next => rfl
  next h => rw [maskAny_same v (Bool.eq_false_iff.mpr h)]

theorem maskFieldsMap_eq (es : Entries) :
    (maskFieldsMap rules es).1 = es.map fun e => (e.1, (maskAny rules e.2).1) := by
  induction es with
  | nil => rfl
  | cons e es ih =>
    rw [maskFieldsMap, ite_changed, ih]
    rfl

theorem maskFieldsSlice_eq (items : List Value) :
    (maskFieldsSlice rules items).1 = items.map fun v => (maskAny rules v).1 := by
  induction items with
  | nil => rfl
  | cons v items ih =>
    rw [maskFieldsSlice, ite_changed, ih]
    rfl

theorem maskRecordFields_eq (fields : Entries) :
    maskRecordFields rules fields = (maskFieldsMap rules fields).1 := by
  rw [maskRecordFields]
  split
  next => rfl
  next h => rw [maskFieldsMap_same fields (Bool.eq_false_iff.mpr h)]

/-- A walk that changes the children of a value one by one changes what stands at each path. -/
theorem entryAt_walk {f : Option Bytes → Value → Value}
    (hchild : ∀ key v i, (f key v).child i = (v.child i).map fun e => (e.1, f e.1 e.2))
    (path : List Nat) : ∀ (key : Option Bytes) (v : Value),
      entryAt key (f key v) path = (entryAt key v path).map fun e => (e.1, f e.1 e.2) := by
  induction path with
  | nil => exact fun _ _ => rfl
  | cons i path ih =>
    intro key v
    rw [entryAt, entryAt, hchild]
    cases v.child i with
    | none => rfl
    | some e => exact ih e.1 e.2

variable (rules) in
/-- **The walk over fields masks what stands at each path for its text.** -/
theorem entryAt_maskAny (path : List Nat) (key : Option Bytes) (v : Value) :
    entryAt key (maskAny rules v).1 path =
      (entryAt key v path).map fun e => (e.1, (maskAny rules e.2).1) := by
  refine entryAt_walk (f := fun _ v => (maskAny rules v).1) (fun _ v i => ?_) path key v
  cases v with
  | str t => rw [maskAny_str]; rfl
  | map es =>
    show (maskFieldsMap rules es).1[i]?.map _ = _
    rw [maskFieldsMap_eq, List.getElem?_map, Option.map_map, Value.child, Option.map_map]
    rfl
  | list items =>
    show (maskFieldsSlice rules items).1[i]?.map _ = _
    rw [maskFieldsSlice_eq, List.getElem?_map, Option.map_map, Value.child, Option.map_map]
    rfl
  | scalar n => rfl

/-! ### The walk over a batch -/

/-- A value that may stand under a name. -/
def redactEntry (rules : List Rule) : Option Bytes → Value → Value
  | some k, .str s => .str (maskNamed rules k s)
  | _, v => redactAnyValue rules v

theorem redactKeyValues_eq (es : Entries) :
    redactKeyValues rules es = es.map fun e => (e.1, redactEntry rules (some e.1) e.2) := by
  induction es with
  | nil => rfl
  | cons e es ih =>
    obtain ⟨k, v⟩ := e
    cases v <;> exact congrArg (List.cons _) ih

theorem redactItems_eq (items : List Value) :
    redactItems rules items = items.map (redactEntry rules none) := by
  induction items with
  | nil => rfl
  | cons v items ih =>
    rw [redactItems, ih]
    rfl

variable (rules) in
/-- **The walk over a batch masks what stands at each path for its name, or its text.** -/
theorem entryAt_redactEntry (path : List Nat) (key : Option Bytes) (v : Value) :
    entryAt key (redactEntry rules key v) path =
      (entryAt key v path).map fun e => (e.1, redactEntry rules e.1 e.2) := by
  refine entryAt_walk (f := redactEntry rules) (fun key v i => ?_) path key v
  cases v with
  | str t => cases key <;> rfl
  | map es =>
    have hmap : redactEntry rules key (.map es) = .map (redactKeyValues rules es) := by
      cases key <;> rfl
    rw [hmap, redactKeyValues_eq, Value.child, List.getElem?_map, Option.map_map, Value.child,
      Option.map_map]
    rfl
  | list items =>
    have hlist : redactEntry rules key (.list items) = .list (redactItems rules items) := by
      cases key <;> rfl
    rw [hlist, redactItems_eq, Value.child, List.getElem?_map, Option.map_map, Value.child,
      Option.map_map]
    rfl
  | scalar n => cases key <;> rfl

/-- Names are masked in a batch. -/
theorem redactKeyValues_keysMasked (hpreset : presetOn rules = true) (kvs : Entries) :
    KeysMasked (.map kvs) (.map (redactKeyValues rules kvs)) := by
  intro path k s rule hat hs hrule
  have hentry := entryAt_redactEntry rules path none (.map kvs)
  rw [hat] at hentry
  refine ⟨maskNamed rules k s, hentry, ?_⟩
  rw [maskNamed_credential hpreset hs hrule]
  exact keyMask_isKeyMask rule s

/-! ### Where they agree -/

theorem RulesMaskKeys.child {v : Value} (h : RulesMaskKeys rules key v) {i : Nat} {k : Option Bytes}
    {w : Value} (hchild : v.child i = some (k, w)) : RulesMaskKeys rules k w := by
  intro path k' s rule hat
  refine h (i :: path) k' s rule ?_
  rw [entryAt, hchild]
  exact hat

theorem maskAny_str_eq (hpreset : presetOn rules = true) (h : RulesMaskKeys rules key (.str s)) :
    (maskAny rules (.str s)).1 = redactEntry rules key (.str s) := by
  rw [maskAny_str]
  cases key with
  | none => rfl
  | some k =>
    show Value.str _ = .str _
    by_cases hs : s = []
    · rw [maskNamed_other (.inl hs)]
    · cases hrule : credentialRule k with
      | none => rw [maskNamed_other (.inr hrule)]
      | some rule =>
        rw [maskNamed_credential hpreset hs hrule, h [] k s rule rfl hs hrule]

mutual
theorem maskAny_eq_redactEntry (hpreset : presetOn rules = true) (key : Option Bytes) :
    ∀ v : Value, RulesMaskKeys rules key v → (maskAny rules v).1 = redactEntry rules key v
  | .str s => maskAny_str_eq hpreset
  | .map es => by
    intro h
    have hes := maskFieldsMap_eq_redact hpreset es fun i k w hget =>
      h.child (i := i) (by rw [Value.child, hget]; rfl)
    cases key <;> exact congrArg Value.map hes
  | .list items => by
    intro h
    have hitems := maskFieldsSlice_eq_redact hpreset items fun i w hget =>
      h.child (i := i) (by rw [Value.child, hget]; rfl)
    cases key <;> exact congrArg Value.list hitems
  | .scalar n => fun _ => by cases key <;> rfl

theorem maskFieldsMap_eq_redact (hpreset : presetOn rules = true) : ∀ es : Entries,
    (∀ (i : Nat) k w, es[i]? = some (k, w) → RulesMaskKeys rules (some k) w) →
      (maskFieldsMap rules es).1 = redactKeyValues rules es
  | [] => fun _ => rfl
  | (k, v) :: rest => by
    intro h
    have hv := maskAny_eq_redactEntry hpreset (some k) v (h 0 k v rfl)
    have hrest := maskFieldsMap_eq_redact hpreset rest fun i => h (i + 1)
    rw [maskFieldsMap_eq] at hrest ⊢
    rw [redactKeyValues_eq] at hrest ⊢
    rw [List.map_cons, List.map_cons, hrest, hv]

theorem maskFieldsSlice_eq_redact (hpreset : presetOn rules = true) : ∀ items : List Value,
    (∀ (i : Nat) w, items[i]? = some w → RulesMaskKeys rules none w) →
      (maskFieldsSlice rules items).1 = redactItems rules items
  | [] => fun _ => rfl
  | v :: rest => by
    intro h
    have hv := maskAny_eq_redactEntry hpreset none v (h 0 v rfl)
    have hrest := maskFieldsSlice_eq_redact hpreset rest fun i => h (i + 1)
    rw [maskFieldsSlice_eq] at hrest ⊢
    rw [redactItems_eq] at hrest ⊢
    rw [List.map_cons, List.map_cons, hrest, hv]
end

end Walks

/-! ## Both rails -/

/-- What `redactLogRecord` masks besides the body. -/
structure NamedParts where
  attributes : List (Bytes × Bytes)
  fields : Entries

def redactNamedParts (rules : List Rule) (rec : NamedParts) : NamedParts where
  attributes := maskStringMap rules rec.attributes
  fields := maskRecordFields rules rec.fields

/-- A text map as a structured value. -/
def textMap (attrs : List (Bytes × Bytes)) : Value := .map (attrs.map fun e => (e.1, .str e.2))

/-- The attributes of a record are walked over as those of a batch. -/
theorem textMap_maskStringMap (rules : List Rule) (attrs : List (Bytes × Bytes)) :
    textMap (maskStringMap rules attrs) =
      .map (redactKeyValues rules (attrs.map fun e => (e.1, .str e.2))) := by
  rw [textMap, maskStringMap, redactKeyValues_eq, List.map_map, List.map_map]
  rfl

/-- **Names are masked at every depth on both rails and the two walks agree, exactly where the text
rules alone do to the fields what the names ask for.** -/
theorem keys_masked_iff (rules : List Rule) (hpreset : presetOn rules = true) (rec : NamedParts)
    (batch : Entries) :
    (KeysMasked (textMap rec.attributes) (textMap (redactNamedParts rules rec).attributes) ∧
      KeysMasked (.map rec.fields) (.map (redactNamedParts rules rec).fields) ∧
      KeysMasked (.map batch) (.map (redactKeyValues rules batch)) ∧
      (redactNamedParts rules rec).fields = redactKeyValues rules rec.fields) ↔
    RulesMaskKeys rules none (.map rec.fields) := by
  constructor
  · rintro ⟨_, _, _, hagree⟩ path k s rule hat hs hrule
    rw [show (redactNamedParts rules rec).fields = (maskFieldsMap rules rec.fields).1 from
      maskRecordFields_eq rec.fields] at hagree
    -- the same path in both results
    have hfields := entryAt_maskAny rules path none (.map rec.fields)
    have hbatch := entryAt_redactEntry rules path none (.map rec.fields)
    rw [hat] at hfields hbatch
    have hsame : (maskAny rules (.map rec.fields)).1 = redactEntry rules none (.map rec.fields) :=
      congrArg Value.map hagree
    rw [hsame, hbatch, Option.map_some, Option.map_some, maskAny_str] at hfields
    have htext : maskNamed rules k s = maskString rules s :=
      Value.str.inj (congrArg Prod.snd (Option.some.inj hfields))
    rw [← htext, maskNamed_credential hpreset hs hrule]
  · intro hrules
    have hagree : (redactNamedParts rules rec).fields = redactKeyValues rules rec.fields := by
      have hmap := maskAny_eq_redactEntry hpreset none (.map rec.fields) hrules
      exact (maskRecordFields_eq rec.fields).trans (Value.map.inj hmap)
    refine ⟨?_, ?_, redactKeyValues_keysMasked hpreset batch, hagree⟩
    · have hmasked := redactKeyValues_keysMasked hpreset
        (rec.attributes.map fun e => (e.1, Value.str e.2))
      rw [← textMap_maskStringMap] at hmasked
      exact hmasked
    · rw [hagree]
      exact redactKeyValues_keysMasked hpreset rec.fields

/-- A password in an attribute, and a level in the fields. -/
def attributePassword : NamedParts where
  attributes := [(asciiText "db.password", asciiText "hunter2")]
  fields := [(asciiText "level", .str (asciiText "info"))]

theorem keys_masked_iff_attributePassword :
    presetOn builtinRedactRules = true ∧
      ((KeysMasked (textMap attributePassword.attributes)
          (textMap (redactNamedParts builtinRedactRules attributePassword).attributes) ∧
        KeysMasked (.map attributePassword.fields)
          (.map (redactNamedParts builtinRedactRules attributePassword).fields) ∧
        KeysMasked (.map []) (.map (redactKeyValues builtinRedactRules [])) ∧
        (redactNamedParts builtinRedactRules attributePassword).fields =
          redactKeyValues builtinRedactRules attributePassword.fields) ↔
      RulesMaskKeys builtinRedactRules none (.map attributePassword.fields)) :=
  ⟨by decide, keys_masked_iff builtinRedactRules (by decide) attributePassword []⟩

/-- A password in the fields. -/
def passwordField : Entries := [(asciiText "password", .str (asciiText "hunter2"))]

theorem password_field_kept :
    credentialRule (asciiText "password") = some .credentialParam ∧
      maskRecordFields builtinRedactRules passwordField = passwordField ∧
      redactKeyValues builtinRedactRules passwordField = [(asciiText "password", .str maskText)] ∧
      maskStringMap builtinRedactRules [(asciiText "password", asciiText "hunter2")] =
        [(asciiText "password", maskText)] := by
  have hrule : credentialRule (asciiText "password") = some .credentialParam := by decide +kernel
  have htext : maskString builtinRedactRules (asciiText "hunter2") = asciiText "hunter2" := by
    decide +kernel
  have hnamed : maskNamed builtinRedactRules (asciiText "password") (asciiText "hunter2") =
      maskText := maskNamed_credential (by decide) (by decide) hrule
  refine ⟨hrule, ?_, ?_, ?_⟩
  · rw [maskRecordFields_eq, maskFieldsMap_eq, passwordField, List.map_cons, List.map_nil,
      maskAny_str, htext]
  · rw [redactKeyValues_eq, passwordField, List.map_cons, List.map_nil]
    show [(_, Value.str _)] = _
    rw [hnamed]
  · rw [maskStringMap, List.map_cons, List.map_nil]
    show [(_, _)] = _
    rw [hnamed]

end SenhubAgent.AgentState.Redact

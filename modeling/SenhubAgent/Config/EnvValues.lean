import SenhubAgent.Config.Params
import SenhubAgent.Config.SecretKeys
import SenhubAgent.Config.Substitute

/-!
# Parameter values from the environment

A variable `SENHUB_PROBE_<NAME>_<PARAM>` sets a parameter of a probe. `resolveSetting` walks the
segments of its name down the probe's schema, types the value by the kind found there and
doubles every dollar in it, since the merged configuration then goes through substitution.
`mergeLoop` writes one variable after the other into the params.

Substitution undoes exactly the doubling, so the probe gets every text of the value as it was given
(`env_value_reaches_probe`), unless a later variable writes there too or the text is the relative path
of a file, which is resolved against the configuration's directory (`relative_file_resolved`).

Mirroring notes:
- What the rule asks of the standard library is a parameter (`EnvRule`); nothing here depends on
  what it answers. `parseJSON` is the decoder with its numbers normalised.
- An error is which check failed, without its text.
- A secret text parameter is not stored: the configuration gets a reference to the variable or
  to the file. What is proved is about the others.
- Of `mergeEnvProbe` the loop over the settings is modelled, as it writes the params. The fields
  beside them and the check against the schema change none; where either refuses, nothing is merged.
-/

namespace SenhubAgent.Config

open Lib
open Lib.SortedMap (get? insert get?_insert_self get?_insert_ne)

/-! ## The schema -/

inductive ParamKind where
  | string | int | float | bool | duration | stringList | block | map | blockList
deriving DecidableEq, Repr

/-- What a probe's schema says of one parameter. -/
structure ParamSpec where
  key : String
  kind : ParamKind
  secret : Bool
  fields : List ParamSpec
  alsoAccepts : List String
  scalarMeans : String

structure EnvRule where
  equalFold : String → String → Bool
  toLower : String → String
  readFile : String → Option String
  /-- `strconv.ParseInt(s, 10, 64)` -/
  parseInt : String → Option Int
  parseFloat : String → Option UInt64
  isDuration : String → Bool
  parseJSON : String → Option Value
  /-- `fmt.Sprint` of a key -/
  sprintKey : AnyKey → String
  /-- `filepath.IsAbs` -/
  isAbs : String → Bool
  /-- `filepath.Join` -/
  join : String → String → String

inductive EnvError where
  | notParameter | oneEntry | wholeList | noNested
  | notWhole | notNumber | notBool | notDuration | emptyList | notText | notJSON | notArray | notObject
  | needsJSON | unreadable | emptyFile | alreadySet
deriving DecidableEq, Repr

/-- A variable, taken apart. -/
structure EnvSetting where
  variableName : String
  segments : List String
  value : String

/-- Where in the params a setting goes, and how its value is read. -/
structure ResolvedPath where
  path : List String
  kind : ParamKind
  /-- `leaf.ScalarMeans` -/
  scalarMeans : String
  secret : Bool

section Rule

variable (rule : EnvRule)

/-- Names are compared without regard to case; a parameter may have others. -/
def findSpec (specs : List ParamSpec) (seg : String) : Option ParamSpec :=
  specs.find? fun p => rule.equalFold p.key seg || p.alsoAccepts.any (rule.equalFold · seg)

/-- The loop of `resolvePath`; `path` is what it has resolved so far. -/
def walkSpec (specs : List ParamSpec) (path : List String) :
    List String → Except EnvError ResolvedPath
  | [] => .ok ⟨path, .string, "", false⟩
  | seg :: rest =>
    match findSpec rule specs seg with
    | none => .error .notParameter
    | some p =>
      match rest with
      | [] => .ok ⟨path ++ [p.key], p.kind, p.scalarMeans, p.secret⟩
      | next :: more =>
        match p.kind with
        | .block =>
          -- a block without declared fields takes the rest as free keys
          if p.fields.isEmpty then
            .ok ⟨path ++ p.key :: rest, .string, "", p.secret || isSensitiveKey (rest.getLastD "")⟩
          else walkSpec p.fields (path ++ [p.key]) rest
        | .map =>
          if more.isEmpty then
            .ok ⟨path ++ [p.key, next], .string, "", p.secret || isSensitiveKey next⟩
          else .error .oneEntry
        | .blockList => .error .wholeList
        | _ => .error .noNested

def resolvePath (specs : List ParamSpec) (hasSpec : Bool) (segs : List String) :
    Except EnvError ResolvedPath :=
  if hasSpec then walkSpec rule specs [] segs
  else .ok ⟨segs, .string, "", isSensitiveKey (segs.getLastD "")⟩

/-! ## Values -/

def parseBool (s : String) : Except EnvError Value :=
  let v := rule.toLower (trimSpace s)
  if ["true", "1", "yes", "on"].contains v then .ok (.scalar (.bool true))
  else if ["false", "0", "no", "off"].contains v then .ok (.scalar (.bool false))
  else .error .notBool

def isText : Value → Bool
  | .str _ => true
  | _ => false

/-- A comma-separated list, or a JSON array of strings. -/
def parseList (s : String) : Except EnvError Value :=
  let v := trimSpace s
  if startsWith "[" v then
    match rule.parseJSON v with
    | none => .error .notJSON
    | some (.list items) => if items.all isText then .ok (.list items) else .error .notText
    | some _ => .ok (.list [])
  else
    let parts := (v.toList.splitOn ',').map fun part => trimSpace (String.ofList part)
    let out := (parts.filter (· != "")).map Value.str
    if out.isEmpty then .error .emptyList else .ok (.list out)

/-- The value of a block, a mapping or a list of blocks. -/
def parseNested (r : ResolvedPath) (raw : String) : Except EnvError Value :=
  let v := trimSpace raw
  -- an opening brace or bracket
  if ['\x7b', '['].any fun c => v.toList.head? == some c then
    match rule.parseJSON v with
    | none => .error .notJSON
    | some (.list items) => if r.kind = .blockList then .ok (.list items) else .error .notObject
    | some (.map es) => if r.kind = .blockList then .error .notArray else .ok (.map es)
    | some _ => .error (if r.kind = .blockList then .notArray else .notObject)
  else if r.kind = .block then
    match parseBool rule v with
    | .ok b => .ok b
    | .error _ => if r.scalarMeans != "" then .ok (.str raw) else .error .needsJSON
  else .error .needsJSON

/-- The value, typed by the kind of its parameter. -/
def convertValue (r : ResolvedPath) (raw : String) : Except EnvError Value :=
  match r.kind with
  | .string => .ok (.str raw)
  | .int =>
    match rule.parseInt (trimSpace raw) with
    | some n => .ok (.scalar (.int n))
    | none => .error .notWhole
  | .float =>
    match rule.parseFloat (trimSpace raw) with
    | some f => .ok (.scalar (.float f))
    | none => .error .notNumber
  | .bool => parseBool rule raw
  | .duration =>
    match rule.parseInt (trimSpace raw) with
    | some n => .ok (.scalar (.int n))
    | none => if rule.isDuration (trimSpace raw) then .ok (.str (trimSpace raw)) else .error .notDuration
  | .stringList => parseList rule raw
  | .map => parseNested rule r raw
  | .blockList => parseNested rule r raw
  | .block => parseNested rule r raw

/-- `strings.ReplaceAll(t, "$", "$$")` -/
def doubleDollars (s : Text) : Text := s.flatMap fun c => if c = '$' then ['$', '$'] else [c]

mutual
def escapeDollars : Value → Value
  | .str t => .str (String.ofList (doubleDollars t.toList))
  | .list t => .list (escapeItems t)
  | .map t => .map (escapeEntries t)
  | .null => .null
  | .scalar s => .scalar s
  | .anyMap es => .anyMap es

def escapeItems : List Value → List Value
  | [] => []
  | v :: vs => escapeDollars v :: escapeItems vs

def escapeEntries : Entries → Entries
  | [] => []
  | (k, v) :: es => (k, escapeDollars v) :: escapeEntries es
end

/-! ## One setting -/

def fileSuffix : String := "_file"

def namesFile (segs : List String) : Bool :=
  endsWith fileSuffix (segs.getLastD "") && (segs.getLastD "") != fileSuffix

/-- The segments with `_file` taken off the last one. -/
def withoutFile (segs : List String) : List String :=
  segs.dropLast ++ [trimEnd fileSuffix (segs.getLastD "")]

/-- The parameter a setting names, and whether its value is the path of a file. A key that the
schema owns wins over the file form. -/
def settingTarget (specs : List ParamSpec) (hasSpec : Bool) (segs : List String) :
    Except EnvError (ResolvedPath × Bool) :=
  match resolvePath rule specs hasSpec segs with
  | .error e =>
    if !namesFile segs then .error e
    else
      match resolvePath rule specs hasSpec (withoutFile segs) with
      | .error _ => .error e
      | .ok r => .ok (r, true)
  | .ok r =>
    if !hasSpec && namesFile segs then
      (resolvePath rule specs hasSpec (withoutFile segs)).map fun r => (r, true)
    else .ok (r, false)

/-- The text to type: the value of the variable, or what the file it names holds. -/
def settingText (s : EnvSetting) (fromFile : Bool) : Except EnvError String :=
  if fromFile then
    match rule.readFile (trimSpace s.value) with
    | none => .error .unreadable
    | some b => if trimSpace b == "" then .error .emptyFile else .ok (trimSpace b)
  else .ok s.value

/-- The reference stored in place of a secret, if one is. -/
def settingReference (r : ResolvedPath) (s : EnvSetting) (fromFile : Bool) : Option String :=
  if !(r.secret && r.kind == .string) then none
  else if !fromFile then some ("$\x7benv:" ++ s.variableName ++ "\x7d")
  else if (trimSpace s.value).toList.contains '\x7d' then none
  else some ("$\x7bfile:" ++ trimSpace s.value ++ "\x7d")

def resolveSetting (specs : List ParamSpec) (hasSpec : Bool) (segs : List String) (s : EnvSetting) :
    Except EnvError (List String × Value) := do
  let (r, fromFile) ← settingTarget rule specs hasSpec segs
  let raw ← settingText rule s fromFile
  match settingReference r s fromFile with
  | some reference => .ok (r.path, .str reference)
  | none =>
    let val ← convertValue rule r raw
    .ok (r.path, escapeDollars val)

def asMap : Value → Option Entries
  | .map m => some m
  | .anyMap m => some (m.foldl (fun out e => insert (rule.sprintKey e.1) e.2 out) [])
  | _ => none

/-- Writes `val` at a path, creating the blocks on the way. A block meeting a block is merged
key by key; anything else is replaced. -/
def setPath (val : Value) : List String → Entries → Entries
  | [], dst => dst
  | [last], dst =>
    match val, (get? last dst).bind (asMap rule) with
    | .map incoming, some existing =>
      insert last (.map (incoming.foldr (fun e m => insert e.1 e.2 m) existing)) dst
    | _, _ => insert last val dst
  | k :: path, dst =>
    insert k (.map (setPath val path (((get? k dst).bind (asMap rule)).getD []))) dst

/-- The fields of a probe entry beside its params. -/
def probeLevelFields : List String :=
  ["type", "enabled", "log_strategies", "log_redact", "custom_tags", "governance"]

/-- The segments that name a parameter, if the setting is one of the params. -/
def paramSegments : List String → Option (List String)
  | "params" :: seg :: segs => some (seg :: segs)
  | segs => if segs.head?.any probeLevelFields.contains then none else some segs

/-- The loop of `mergeEnvProbe` over its settings; `seen` holds the dotted paths set so far. -/
def mergeLoop (specs : List ParamSpec) (hasSpec : Bool) :
    List EnvSetting → List String → Entries → Except EnvError Entries
  | [], _, params => .ok params
  | s :: settings, seen, params =>
    match paramSegments s.segments with
    | none => mergeLoop specs hasSpec settings seen params
    | some segs => do
      let (path, val) ← resolveSetting rule specs hasSpec segs s
      let dotted := ".".intercalate path
      if dotted ∈ seen then .error .alreadySet
      else mergeLoop specs hasSpec settings (dotted :: seen) (setPath rule val path params)

/-! ## Relative paths -/

def isFilePathKey (k : String) : Bool :=
  rule.toLower k == "bookmark_path" || endsWith "_file" (rule.toLower k)

def isRelativeFilePath (v : String) : Bool :=
  !(v == "" || contains "://" v || startsWith "$" v || startsWith "unix:" v) &&
    !(rule.isAbs v || startsWith "/" v || startsWith "\\" v)

variable (base : String)

mutual
/-- What `anchorPaths` leaves at the key `k`. -/
def anchorValue (k : String) : Value → Value
  | .str t => .str (if isFilePathKey rule k && isRelativeFilePath rule t then rule.join base t else t)
  | .map es => .map (anchorPaths es)
  | .list items => .list (anchorItems items)
  | .null => .null
  | .scalar s => .scalar s
  | .anyMap es => .anyMap es

def anchorPaths : Entries → Entries
  | [] => []
  | (k, v) :: es => (k, anchorValue k v) :: anchorPaths es

/-- Of a list only the mappings are looked into. -/
def anchorItems : List Value → List Value
  | [] => []
  | .map es :: items => .map (anchorPaths es) :: anchorItems items
  | v :: items => v :: anchorItems items
end

/-- The params of one probe. Without an absolute path of the configuration's directory nothing
is resolved. -/
def resolveRelativePaths (base : Option String) (params : Entries) : Entries :=
  match base with
  | none => params
  | some base => anchorPaths rule base params

end Rule

/-! ## Substitution of a tree -/

mutual
/-- `walk`, of the values of a document. -/
def substituteValue (src : Sources) : Value → Except Unresolved Value
  | .str s => (substituteString src s).map .str
  | .list items => (substituteItems src items).map .list
  | .map es => (substituteEntries src es).map .map
  | .anyMap es => (substituteAny src es).map .anyMap
  | .null => .ok .null
  | .scalar s => .ok (.scalar s)

def substituteItems (src : Sources) : List Value → Except Unresolved (List Value)
  | [] => .ok []
  | v :: vs => do
    let w ← substituteValue src v
    let ws ← substituteItems src vs
    .ok (w :: ws)

/-- Keys are never changed. -/
def substituteEntries (src : Sources) : Entries → Except Unresolved Entries
  | [] => .ok []
  | (k, v) :: es => do
    let w ← substituteValue src v
    let fs ← substituteEntries src es
    .ok ((k, w) :: fs)

def substituteAny (src : Sources) : List (AnyKey × Value) → Except Unresolved (List (AnyKey × Value))
  | [] => .ok []
  | (k, v) :: es => do
    let w ← substituteValue src v
    let fs ← substituteAny src es
    .ok ((k, w) :: fs)
end

/-- The value that the steps lead to. -/
def valueAt : List Step → Value → Option Value
  | [], v => some v
  | .key k :: q, .map es => (get? k es).bind (valueAt q)
  | .index i :: q, .list items => items[i]?.bind (valueAt q)
  | _ :: _, _ => none

mutual
/-- A value as JSON decodes it, with no NUL in its texts. -/
def Value.jsonText : Value → Bool
  | .str s => !s.toList.contains '\x00'
  | .list items => jsonItems items
  | .map es => jsonEntries es
  | .null => true
  | .scalar _ => true
  | .anyMap _ => false

def jsonItems : List Value → Bool
  | [] => true
  | v :: vs => v.jsonText && jsonItems vs

def jsonEntries : Entries → Bool
  | [] => true
  | (_, v) :: es => v.jsonText && jsonEntries es
end

/-! ## Substitution undoes the doubling -/

variable (src : Sources)

/-- A doubled text has no references: every dollar is one of a pair. -/
theorem tokens_doubleDollars (s : Text) :
    tokens 0 (doubleDollars s) = s.map fun c => if c = '$' then .dollar else .char c := by
  induction s with
  | nil => rfl
  | cons c s ih =>
    unfold doubleDollars at ih ⊢
    rw [List.flatMap_cons, List.map_cons, ← ih]
    by_cases hc : c = '$'
    · rw [if_pos hc, if_pos hc]
      exact tokens_dollar _
    · rw [if_neg hc, if_neg hc]
      exact tokens_char (by simp [List.isPrefixOf, Ne.symm hc]) (matchReference_ne_dollar hc _)

theorem emit_doubled (f : Reference → Except Unresolved Text) (s : Text) :
    emit ['$'] f (s.map fun c => if c = '$' then Token.dollar else .char c) = .ok s := by
  induction s with
  | nil => rfl
  | cons c s ih =>
    rw [List.map_cons, emit, ih]
    by_cases hc : c = '$'
    · rw [if_pos hc, hc]
      rfl
    · rw [if_neg hc]
      rfl

def noSources : Sources :=
  ⟨fun _ => none, fun _ => none, fun _ => .notFound, by simp, by simp, by simp⟩

theorem substitute_doubleDollars {s : Text} (hs : '\x00' ∉ s) :
    substitute src (doubleDollars s) = .ok s := by
  -- no reference is resolved, so any sources will do
  have hbare : noSources.NulFree := ⟨nofun, nofun, nofun⟩
  have hdoubled : '\x00' ∉ doubleDollars s := by
    unfold doubleDollars
    rw [List.mem_flatMap]
    rintro ⟨c, hc, hmem⟩
    split at hmem
    next => simp at hmem
    next => exact hs (List.mem_singleton.mp hmem ▸ hc)
  have hnone (r : Reference) : .ref r ∉ tokens 0 (doubleDollars s) := by
    rw [tokens_doubleDollars, List.mem_map]
    rintro ⟨c, -, hc⟩
    split at hc <;> cases hc
  rw [substitute_congr fun r hr => absurd hr (hnone r), substitute_eq_emit hbare hdoubled,
    tokens_doubleDollars, emit_doubled]

mutual
theorem substituteValue_escapeDollars : (v : Value) → v.jsonText = true →
    substituteValue src (escapeDollars v) = .ok v
  | .str s, h => by
    have hs : '\x00' ∉ s.toList := by simpa [Value.jsonText] using h
    rw [escapeDollars, substituteValue, substituteString, String.toList_ofList,
      substitute_doubleDollars src hs]
    exact congrArg (fun t => Except.ok (Value.str t)) String.ofList_toList
  | .list items, h => by
    rw [escapeDollars, substituteValue, substituteItems_escapeItems items h]
    rfl
  | .map es, h => by
    rw [escapeDollars, substituteValue, substituteEntries_escapeEntries es h]
    rfl
  | .null, _ => rfl
  | .scalar _, _ => rfl
  | .anyMap _, h => by cases h

theorem substituteItems_escapeItems : (items : List Value) → jsonItems items = true →
    substituteItems src (escapeItems items) = .ok items
  | [], _ => rfl
  | v :: items, h => by
    obtain ⟨hv, hitems⟩ := Bool.and_eq_true_iff.mp h
    rw [escapeItems, substituteItems, substituteValue_escapeDollars v hv,
      substituteItems_escapeItems items hitems]
    rfl

theorem substituteEntries_escapeEntries : (es : Entries) → jsonEntries es = true →
    substituteEntries src (escapeEntries es) = .ok es
  | [], _ => rfl
  | (k, v) :: es, h => by
    obtain ⟨hv, hes⟩ := Bool.and_eq_true_iff.mp h
    rw [escapeEntries, substituteEntries, substituteValue_escapeDollars v hv,
      substituteEntries_escapeEntries es hes]
    rfl
end

/-! ## At its place in the configuration -/

theorem get?_escapeEntries (k : String) (es : Entries) :
    get? k (escapeEntries es) = (get? k es).map escapeDollars := by
  induction es with
  | nil => rfl
  | cons e es ih =>
    rw [escapeEntries, Lib.SortedMap.get?, Lib.SortedMap.get?, ih]
    split <;> rfl

theorem getElem?_escapeItems (i : Nat) (items : List Value) :
    (escapeItems items)[i]? = items[i]?.map escapeDollars := by
  induction items generalizing i with
  | nil => rfl
  | cons v items ih =>
    cases i with
    | zero => rfl
    | succ i => exact ih i

variable {q : List Step} {path : List String} {v x : Value} {rule : EnvRule}
    {specs : List ParamSpec} {hasSpec : Bool}

/-- Where the steps lead from a mapping or a list. -/
theorem valueAt_cons {s : Step} (h : valueAt (s :: q) v = some x) :
    (∃ k es y, s = .key k ∧ v = .map es ∧ get? k es = some y ∧ valueAt q y = some x) ∨
      ∃ i items y, s = .index i ∧ v = .list items ∧ items[i]? = some y ∧ valueAt q y = some x := by
  cases s with
  | key k =>
    cases v with
    | map es =>
      obtain ⟨y, hy, hx⟩ := Option.bind_eq_some_iff.mp h
      exact .inl ⟨k, es, y, rfl, rfl, hy, hx⟩
    | _ => cases h
  | index i =>
    cases v with
    | list items =>
      obtain ⟨y, hy, hx⟩ := Option.bind_eq_some_iff.mp h
      exact .inr ⟨i, items, y, rfl, rfl, hy, hx⟩
    | _ => cases h
  | anyKey k => cases v <;> cases h

theorem valueAt_escapeDollars (h : valueAt q v = some x) :
    valueAt q (escapeDollars v) = some (escapeDollars x) := by
  induction q generalizing v with
  | nil => exact congrArg (fun y => some (escapeDollars y)) (Option.some.inj h)
  | cons s q ih =>
    rcases valueAt_cons h with ⟨k, es, y, rfl, rfl, hy, hx⟩ | ⟨i, items, y, rfl, rfl, hy, hx⟩
    · rw [escapeDollars, valueAt, get?_escapeEntries, hy]
      exact ih hx
    · rw [escapeDollars, valueAt, getElem?_escapeItems, hy]
      exact ih hx

theorem get?_substituteEntries {es fs : Entries} (h : substituteEntries src es = .ok fs)
    {k : String} (hv : get? k es = some v) :
    ∃ w, substituteValue src v = .ok w ∧ get? k fs = some w := by
  induction es generalizing fs with
  | nil => cases hv
  | cons e es ih =>
    obtain ⟨w, fs', hw, hfs, rfl⟩ := pair_ok h
    rw [Lib.SortedMap.get?] at hv ⊢
    split at hv
    next hk => exact ⟨w, Option.some.inj hv ▸ hw, if_pos hk⟩
    next hk =>
      rw [if_neg hk]
      exact ih hfs hv

theorem getElem?_substituteItems {items out : List Value} (h : substituteItems src items = .ok out)
    {i : Nat} (hv : items[i]? = some v) :
    ∃ w, substituteValue src v = .ok w ∧ out[i]? = some w := by
  induction items generalizing out i with
  | nil => cases hv
  | cons y items ih =>
    obtain ⟨w, out', hw, hout, rfl⟩ := pair_ok h
    cases i with
    | zero => exact ⟨w, Option.some.inj hv ▸ hw, rfl⟩
    | succ i => exact ih hout hv

theorem valueAt_substituteValue {v' : Value} (h : substituteValue src v = .ok v')
    (hx : valueAt q v = some x) :
    ∃ x', substituteValue src x = .ok x' ∧ valueAt q v' = some x' := by
  induction q generalizing v v' with
  | nil => exact ⟨v', Option.some.inj hx ▸ h, rfl⟩
  | cons s q ih =>
    rcases valueAt_cons hx with ⟨k, es, y, rfl, rfl, hy, hx⟩ | ⟨i, items, y, rfl, rfl, hy, hx⟩
    · obtain ⟨fs, hfs, rfl⟩ := map_ok h
      obtain ⟨w, hw, hget⟩ := get?_substituteEntries src hfs hy
      rw [valueAt, hget]
      exact ih hw hx
    · obtain ⟨out, hout, rfl⟩ := map_ok h
      obtain ⟨w, hw, hget⟩ := getElem?_substituteItems src hout hy
      rw [valueAt, hget]
      exact ih hw hx

theorem get?_foldr_insert (k : String) (incoming existing : Entries) :
    get? k (incoming.foldr (fun e m => insert e.1 e.2 m) existing) =
      (get? k incoming).or (get? k existing) := by
  induction incoming with
  | nil => rfl
  | cons e incoming ih =>
    rw [List.foldr_cons, Lib.SortedMap.get?]
    split
    next hk =>
      rw [← hk, get?_insert_self]
      rfl
    next hk => rw [get?_insert_ne hk, ih]

/-- What is written stands at its path, at every place that is not itself a block. -/
theorem valueAt_setPath (rule : EnvRule) (hx : valueAt q v = some x) (hleaf : ∀ es, x ≠ .map es)
    (hpath : path ≠ []) (dst : Entries) :
    valueAt (path.map .key ++ q) (.map (setPath rule v path dst)) = some x := by
  induction path generalizing dst with
  | nil => exact absurd rfl hpath
  | cons k path ih =>
    cases path with
    | cons k' path =>
      show (get? k (insert k _ dst)).bind _ = _
      rw [get?_insert_self]
      exact ih (List.cons_ne_nil _ _) _
    | nil =>
      unfold setPath
      split
      next incoming existing hexisting =>
        cases q with
        | nil => exact absurd (Option.some.inj hx).symm (hleaf incoming)
        | cons s q =>
          rcases valueAt_cons hx with ⟨k', es, y, rfl, heq, hy, hx⟩ | ⟨_, _, _, _, heq, _⟩
          · obtain rfl := Value.map.inj heq
            rw [List.map_singleton, List.singleton_append, valueAt, get?_insert_self,
              Option.bind_some, valueAt, get?_foldr_insert, hy]
            exact hx
          · cases heq
      next =>
        rw [List.map_singleton, List.singleton_append, valueAt, get?_insert_self]
        exact hx

/-- The path leaves the way to the place at a key of its own. -/
def Apart : List String → List Step → Prop
  | k :: path, .key k' :: place => k ≠ k' ∨ Apart path place
  | _, _ => False

theorem valueAt_insert_ne {k k' : String} (h : k ≠ k') (y : Value) (dst : Entries) :
    valueAt (.key k' :: q) (.map (insert k y dst)) = valueAt (.key k' :: q) (.map dst) := by
  rw [valueAt, valueAt, get?_insert_ne h]

/-- What is written elsewhere leaves a place as it is. -/
theorem valueAt_setPath_apart (val : Value) {dst : Entries} (h : Apart path q)
    (hx : valueAt q (.map dst) = some x) : valueAt q (.map (setPath rule val path dst)) = some x := by
  induction path generalizing q dst with
  | nil => exact h.elim
  | cons k path ih =>
    cases q with
    | nil => exact h.elim
    | cons s q =>
      rcases valueAt_cons hx with ⟨k', es, y, rfl, heq, hy, hxy⟩ | ⟨_, _, _, _, heq, _⟩
      · obtain rfl := Value.map.inj heq
        by_cases hk : k = k'
        · -- the same block, in which the path and the place part later
          subst hk
          have hapart : Apart path q := h.resolve_left fun hne => hne rfl
          cases path with
          | nil => exact hapart.elim
          | cons k₂ path =>
            have hblock : ∃ m, y = .map m := by
              cases q with
              | nil => exact hapart.elim
              | cons s q =>
                cases s with
                | key k' => cases y <;> first | exact ⟨_, rfl⟩ | cases hxy
                | _ => exact hapart.elim
            obtain ⟨m, rfl⟩ := hblock
            show (get? k (insert k _ dst)).bind _ = _
            rw [get?_insert_self, hy]
            exact ih hapart hxy
        · have hother : ∀ z, valueAt (.key k' :: q) (.map (insert k z dst)) = some x := fun z =>
            (valueAt_insert_ne hk z dst).trans hx
          cases path with
          | cons k₂ path => exact hother _
          | nil =>
            unfold setPath
            split <;> exact hother _
      · cases heq

/-! ## The loop -/

variable {settings : List EnvSetting} {seen : List String} {params merged : Entries}

/-- The setting writes nothing on the way to a place, nor at it. -/
def Misses (rule : EnvRule) (specs : List ParamSpec) (hasSpec : Bool) (place : List Step)
    (s : EnvSetting) : Prop :=
  ∀ segs path val, paramSegments s.segments = some segs →
    resolveSetting rule specs hasSpec segs s = .ok (path, val) → Apart path place

theorem mergeLoop_cons {s : EnvSetting}
    (h : mergeLoop rule specs hasSpec (s :: settings) seen params = .ok merged) :
    (paramSegments s.segments = none ∧ mergeLoop rule specs hasSpec settings seen params = .ok merged) ∨
      ∃ segs path val seen', paramSegments s.segments = some segs ∧
        resolveSetting rule specs hasSpec segs s = .ok (path, val) ∧
        mergeLoop rule specs hasSpec settings seen' (setPath rule val path params) = .ok merged := by
  unfold mergeLoop at h
  split at h
  next hsegs => exact .inl ⟨hsegs, h⟩
  next segs hsegs =>
    cases hres : resolveSetting rule specs hasSpec segs s with
    | error e =>
      rw [hres] at h
      cases h
    | ok written =>
      obtain ⟨path, val⟩ := written
      rw [hres] at h
      simp only [bind, Except.bind] at h
      split at h
      next => cases h
      next => exact .inr ⟨segs, path, val, _, hsegs, hres, h⟩

/-- The settings that miss a place leave it as it is. -/
theorem mergeLoop_misses (h : mergeLoop rule specs hasSpec settings seen params = .ok merged)
    (hmiss : ∀ s ∈ settings, Misses rule specs hasSpec q s) (hx : valueAt q (.map params) = some x) :
    valueAt q (.map merged) = some x := by
  induction settings generalizing seen params with
  | nil => exact Except.ok.inj h ▸ hx
  | cons s settings ih =>
    obtain ⟨hs, hsettings⟩ := List.forall_mem_cons.mp hmiss
    rcases mergeLoop_cons h with ⟨-, hrest⟩ | ⟨segs, path, val, seen', hsegs, hres, hrest⟩
    · exact ih hrest hsettings hx
    · exact ih hrest hsettings (valueAt_setPath_apart val (hs segs path val hsegs hres) hx)

/-- A setting is written in its turn, and those after it follow. -/
theorem mergeLoop_append {before after : List EnvSetting}
    (h : mergeLoop rule specs hasSpec (before ++ after) seen params = .ok merged) :
    ∃ seen' params', mergeLoop rule specs hasSpec after seen' params' = .ok merged := by
  induction before generalizing seen params with
  | nil => exact ⟨seen, params, h⟩
  | cons s before ih =>
    rcases mergeLoop_cons h with ⟨-, hrest⟩ | ⟨_, _, _, _, -, -, hrest⟩
    · exact ih hrest
    · exact ih hrest

/-! ## Relative paths -/

/-- A place at which a text is no relative path of a file. -/
def PlainAt (rule : EnvRule) (place : List Step) (t : String) : Prop :=
  ∀ k, place.getLast? = some (.key k) → (isFilePathKey rule k && isRelativeFilePath rule t) = false

variable {base : String} {t : String}

theorem get?_anchorPaths (k : String) (es : Entries) :
    get? k (anchorPaths rule base es) = (get? k es).map (anchorValue rule base k) := by
  induction es with
  | nil => rfl
  | cons e es ih =>
    rw [anchorPaths, Lib.SortedMap.get?, Lib.SortedMap.get?, ih]
    split
    next hk =>
      rw [← hk]
      rfl
    next => rfl

theorem getElem?_anchorItems (rule : EnvRule) (base : String) {i : Nat} {items : List Value}
    (h : items[i]? = some v) :
    (∃ es, v = .map es ∧ (anchorItems rule base items)[i]? = some (.map (anchorPaths rule base es))) ∨
      (anchorItems rule base items)[i]? = some v := by
  induction items generalizing i with
  | nil => cases h
  | cons y items ih =>
    cases i with
    | zero =>
      obtain rfl := Option.some.inj h
      cases y with
      | map es => exact .inl ⟨es, rfl, rfl⟩
      | _ => exact .inr rfl
    | succ i => cases y <;> exact ih h

/-- A text that is no relative path of a file stays, wherever it stands below the key `k`. -/
theorem valueAt_anchorValue {k : String} (hx : valueAt q v = some (.str t))
    (hplain : PlainAt rule (.key k :: q) t) :
    valueAt q (anchorValue rule base k v) = some (.str t) := by
  induction q generalizing k v with
  | nil =>
    obtain rfl := Option.some.inj hx
    rw [anchorValue, hplain k rfl]
    rfl
  | cons s q ih =>
    have hrest : ∀ k', q ≠ [] → PlainAt rule (.key k' :: q) t := by
      intro k' hq k'' hlast
      obtain ⟨s', q', rfl⟩ := List.exists_cons_of_ne_nil hq
      exact hplain k'' hlast
    rcases valueAt_cons hx with ⟨k', es, y, rfl, rfl, hy, hxy⟩ | ⟨i, items, y, rfl, rfl, hy, hxy⟩
    · rw [anchorValue, valueAt, get?_anchorPaths, hy]
      exact ih hxy hplain
    · rw [anchorValue, valueAt]
      rcases getElem?_anchorItems rule base hy with ⟨es, rfl, hat⟩ | hat
      · -- a mapping in a list: the place goes on inside it
        rw [hat]
        exact ih (k := "") hxy (hrest "" (by rintro rfl; cases hxy))
      · rw [hat]
        exact hxy

theorem valueAt_resolveRelativePaths (base : Option String) {es : Entries} (hq : q ≠ [])
    (hx : valueAt q (.map es) = some (.str t)) (hplain : PlainAt rule q t) :
    valueAt q (.map (resolveRelativePaths rule base es)) = some (.str t) := by
  obtain ⟨s, q, rfl⟩ := List.exists_cons_of_ne_nil hq
  cases base with
  | none => exact hx
  | some base => exact valueAt_anchorValue (k := "") hx hplain

/-! ## What the probe gets -/

/-- A value given for a parameter that is not a secret text reaches the probe as it was given: once
all the settings are written, the params substituted and their relative paths resolved, every
text of the value stands at its place unchanged. It takes that no later setting writes on the
way there and that the text is no relative path of a file. -/
theorem env_value_reaches_probe (rule : EnvRule) (src : Sources) (base : Option String)
    (specs : List ParamSpec) (hasSpec : Bool) (before after : List EnvSetting) (s : EnvSetting)
    (segs : List String) (r : ResolvedPath) (fromFile : Bool) (raw : String) (v : Value)
    (hparam : paramSegments s.segments = some segs)
    (htarget : settingTarget rule specs hasSpec segs = .ok (r, fromFile)) (hpath : r.path ≠ [])
    (hpublic : (r.secret && r.kind == .string) = false)
    (hraw : settingText rule s fromFile = .ok raw) (hv : convertValue rule r raw = .ok v)
    (params merged result : Entries)
    (hmerged : mergeLoop rule specs hasSpec (before ++ s :: after) [] params = .ok merged)
    (hresult : substituteEntries src merged = .ok result)
    (q : List Step) (t : String) (ht : valueAt q v = some (.str t)) (hnul : '\x00' ∉ t.toList)
    (hafter : ∀ s' ∈ after, Misses rule specs hasSpec (r.path.map .key ++ q) s')
    (hplain : PlainAt rule (r.path.map .key ++ q) t) :
    valueAt (r.path.map .key ++ q) (.map (resolveRelativePaths rule base result)) = some (.str t) := by
  -- the setting itself
  have hwrites : resolveSetting rule specs hasSpec segs s = .ok (r.path, escapeDollars v) := by
    have hnone : settingReference r s fromFile = none := by simp [settingReference, hpublic]
    simp only [resolveSetting, htarget, hraw, hnone, hv, bind, Except.bind]
  -- it is written in its turn, and nothing after it writes there
  have hplace : valueAt (r.path.map .key ++ q) (.map merged) = some (escapeDollars (.str t)) := by
    obtain ⟨seen, params', hrest⟩ := mergeLoop_append hmerged
    rcases mergeLoop_cons hrest with ⟨hnone, -⟩ | ⟨segs', path', val, seen', hsegs', hres, hrest'⟩
    · rw [hparam] at hnone
      cases hnone
    · obtain rfl := Option.some.inj (hparam.symm.trans hsegs')
      obtain ⟨rfl, rfl⟩ := Prod.mk.inj (Except.ok.inj (hwrites.symm.trans hres))
      exact mergeLoop_misses hrest' hafter
        (valueAt_setPath rule (valueAt_escapeDollars ht) (by simp [escapeDollars]) hpath params')
  -- substitution undoes the doubling, and no path is resolved there
  have hmap : substituteValue src (.map merged) = .ok (.map result) := by
    rw [substituteValue, hresult]
    rfl
  obtain ⟨x', hx', hat⟩ := valueAt_substituteValue src hmap hplace
  rw [substituteValue_escapeDollars src (.str t) (by simpa [Value.jsonText] using hnul)] at hx'
  rw [← Except.ok.inj hx'] at hat
  exact valueAt_resolveRelativePaths base (by simp [hpath]) hat hplain

/-- A rule that knows no file and reads no number. -/
def textRule : EnvRule where
  equalFold a b := a == b
  toLower s := s
  readFile _ := none
  parseInt _ := none
  parseFloat _ := none
  isDuration _ := false
  parseJSON _ := none
  sprintKey _ := ""
  isAbs _ := false
  join dir name := dir ++ "/" ++ name

/-- A value with a pair of dollars and the text of a reference in it. -/
def dollarSetting : EnvSetting := ⟨"SENHUB_PROBE_WEB_URL", ["url"], "a$$b$\x7benv:X\x7d"⟩

/-- A setting of another parameter, written after it. -/
def methodSetting : EnvSetting := ⟨"SENHUB_PROBE_WEB_METHOD", ["method"], "GET"⟩

theorem env_value_reaches_probe_dollars :
    ∃ merged result, mergeLoop textRule [] false [dollarSetting, methodSetting] [] [] = .ok merged ∧
      substituteEntries noSources merged = .ok result ∧
      valueAt [.key "url"] (.map (resolveRelativePaths textRule (some "/etc") result)) =
        some (.str dollarSetting.value) := by
  refine ⟨_, [("method", .str "GET"), ("url", .str dollarSetting.value)], rfl, ?_, ?_⟩
  · decide +kernel
  · refine env_value_reaches_probe textRule noSources (some "/etc") [] false [] [methodSetting]
      dollarSetting ["url"] ⟨["url"], .string, "", false⟩ false dollarSetting.value
      (.str dollarSetting.value) rfl rfl (by decide) rfl rfl rfl [] _ _ rfl (by decide +kernel) []
      dollarSetting.value rfl (by decide) ?_ ?_
    · intro s hs segs path val hsegs hres
      obtain rfl := List.mem_singleton.mp hs
      obtain rfl := Option.some.inj hsegs
      obtain ⟨rfl, -⟩ := Prod.mk.inj (Except.ok.inj hres)
      exact .inl (by decide)
    · intro k hk
      cases hk
      decide

/-- A relative path for a parameter `ca_file` is not what the probe gets: it is joined to the
configuration's directory. -/
theorem relative_file_resolved :
    ∃ merged, mergeLoop textRule [⟨"ca_file", .string, false, [], [], ""⟩] true
        [⟨"SENHUB_PROBE_WEB_CA_FILE", ["ca_file"], "ca.pem"⟩] [] [] = .ok merged ∧
      substituteEntries noSources merged = .ok [("ca_file", .str "ca.pem")] ∧
      valueAt [.key "ca_file"]
        (.map (resolveRelativePaths textRule (some "/etc") [("ca_file", .str "ca.pem")])) =
          some (.str "/etc/ca.pem") :=
  ⟨_, rfl, by decide +kernel, by decide +kernel⟩

end SenhubAgent.Config

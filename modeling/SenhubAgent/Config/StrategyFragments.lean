import Mathlib.Data.List.Sort
import SenhubAgent.AgentState.RedactScan
import SenhubAgent.Config.KeptSecrets
import SenhubAgent.Config.Seal
import SenhubAgent.Lib.AssocMap

/-!
# Output files the console edits

One output is one file of `strategies.d`, named by its single top-level key and disabled by a
`.disabled` behind its file name (`strategy_fragments.go`). The console creates, rewrites and
removes these files by the name of the output. A file that cannot be read as one strategy is listed
under its file name; of several files for one name the first counts.

Creating checks that the name it writes to is free. Rewriting does not: it moves the file to the
name without or with `.disabled`, over whatever is there. So an edit leaves the other files alone
exactly when a rewrite that moves its file finds no other file at the new name, or one that is
already the text it writes (`other_files_kept_iff`).

Mirroring notes:
- A path is the name within the directory. A directory that is not there has no files.
- Failing I/O ends a call with an error, and the result is about calls that succeed, so only the
  refusals of the code itself are here, and that a rename over a directory fails. The temporary file
  of an atomic write is gone when the call succeeds.
- YAML is a parameter. The secret store is only an input: what sealing and pruning change in it is
  not in the directory. File modes are left out.
-/

namespace SenhubAgent.Config.StrategyFragments

open SenhubAgent.Lib (AssocMap Bytes startsWith endsWith trimEnd)
open SenhubAgent.AgentState (asciiText)

inductive DirEntry where
  | file (bytes : Bytes)
  | dir
deriving DecidableEq

abbrev Dir := AssocMap String DirEntry

/-- What the calls rest on. -/
structure Env where
  /-- the layout has fragments -/
  multiFile : Bool
  /-- the top-level keys of a document with their parameters; `none` where it does not parse -/
  unmarshal : Bytes → Option (List (String × Entries))
  marshal : String → Entries → Bytes
  sealer : Sealer
  store : Store

inductive Unreadable where
  | parse
  | keys (n : Nat)
deriving DecidableEq

structure StrategyFragment where
  name : String
  path : String
  enabled : Bool
  managed : Bool
  params : Option Entries
  error : Option Unreadable

inductive FragmentError where
  | legacyLayout
  | invalidName (name : String)
  | outputExists (name path : String)
  | fileExists (path : String)
  | noOutput (name : String)
  | sealing (e : SealError)
  | writing (path : String)

/-! ## Listing -/

mutual
def convertMapTypes : Value → Value
  | .anyMap es => .map (convertAnyEntries es)
  | .map es => .map (convertEntries es)
  | .list items => .list (convertItems items)
  | v => v

/-- A key that is not text is dropped. -/
def convertAnyEntries : List (AnyKey × Value) → Entries
  | [] => []
  | (.str k, v) :: es => (k, convertMapTypes v) :: convertAnyEntries es
  | (_, _) :: es => convertAnyEntries es

def convertEntries : Entries → Entries
  | [] => []
  | (k, v) :: es => (k, convertMapTypes v) :: convertEntries es

def convertItems : List Value → List Value
  | [] => []
  | v :: items => convertMapTypes v :: convertItems items
end

def managedFragmentHeader : Bytes :=
  asciiText "# Managed by the SenHub web console. Edit it from the console, or remove this line to maintain it by hand."

def trimSuffix (suf s : String) : String := if endsWith suf s then trimEnd suf s else s

/-- How one file is listed; directories, hidden files and other suffixes are not. -/
def fragmentOf (env : Env) (name : String) : DirEntry → Option StrategyFragment
  | .dir => none
  | .file raw =>
    let enabled := endsWith ".yaml" name || endsWith ".yml" name
    let unreadable := fun e => StrategyFragment.mk (trimSuffix ".yaml" (trimSuffix ".disabled" name))
      name enabled false none (some e)
    if startsWith "." name then none
    else if !enabled && !endsWith ".disabled" name then none
    else
      match env.unmarshal raw with
      | none => some (unreadable .parse)
      | some [(sname, params)] =>
        some ⟨sname, name, enabled, managedFragmentHeader.isPrefixOf raw,
          some (convertEntries params), none⟩
      | some single => some (unreadable (.keys single.length))

/-- The files in the order of their names. -/
def listStrategyFragments (env : Env) (d : Dir) : Except FragmentError (List StrategyFragment) :=
  if env.multiFile then
    .ok ((d.keys.insertionSort (· ≤ ·)).filterMap fun name =>
      (d.lookup name).bind (fragmentOf env name))
  else .error .legacyLayout

section

variable (env : Env) (d : Dir) (name : String)

/-- The fragment of an output: the first that is listed under its name. -/
def findFragment :
    Except FragmentError (Option StrategyFragment) := do
  let frags ← listStrategyFragments env d
  return frags.find? fun f => f.name = name

def findStrategyFile : Except FragmentError (Option String) := do
  let found ← findFragment env d name
  return found.map StrategyFragment.path

def strategyFragmentParams : Except FragmentError Entries := do
  let found ← findFragment env d name
  return (found.bind StrategyFragment.params).getD []

/-! ## Editing -/

/-- `^[a-z][a-z0-9_]{0,31}$` -/
def isValidStrategyName (name : String) : Bool :=
  match name.toList with
  | [] => false
  | c :: cs => c.isLower && cs.length ≤ 31 && cs.all fun c => c.isLower || c.isDigit || c == '_'

def safeFilenameComponent (name : String) : String :=
  let s := String.ofList (name.toList.map fun c =>
    if c.isAlphanum || c == '-' || c == '_' then c else '-')
  if s = "" then "strategy" else s

def strategyFragmentPath (name : String) : String := "50-" ++ safeFilenameComponent name ++ ".yaml"

def createdPath (name : String) (enabled : Bool) : String :=
  if enabled then strategyFragmentPath name else strategyFragmentPath name ++ ".disabled"

/-- The text of a managed file, its secrets sealed. -/
def managedText (env : Env) (name : String) (params : Entries) (secretPaths : List String) :
    Except FragmentError Bytes :=
  match sealParams { env.sealer with inst := "strategies." ++ name, secretPaths := secretPaths }
      (dropNilValues params) env.store with
  | .ok (params, _) => .ok (managedFragmentHeader ++ asciiText "\n\n" ++ env.marshal name params)
  | .error e => .error (.sealing e)

def atomicWriteFile (d : Dir) (path : String) (bytes : Bytes) : Except FragmentError Dir :=
  if d.lookup path = some .dir then .error (.writing path) else .ok (d.insert path (.file bytes))

def createStrategyFragment (params : Entries) (enabled : Bool)
    (secretPaths : List String) : Except FragmentError Dir :=
  if !env.multiFile then .error .legacyLayout
  else if !isValidStrategyName name then .error (.invalidName name)
  else do
    match ← findStrategyFile env d name with
    | some existing => .error (.outputExists name existing)
    | none =>
      -- both names are checked
      if (d.lookup (strategyFragmentPath name)).isSome then
        .error (.fileExists (strategyFragmentPath name))
      else if (d.lookup (createdPath name enabled)).isSome then
        .error (.fileExists (createdPath name enabled))
      else do
        let text ← managedText env name params secretPaths
        atomicWriteFile d (createdPath name enabled) text

/-- Where a rewrite puts the file. -/
def targetOf (path : String) (enabled : Bool) : String :=
  if enabled then trimSuffix ".disabled" path
  else if endsWith ".disabled" path then path
  else path ++ ".disabled"

/-- The text a rewrite writes: what the form left out is taken from the file. -/
def updatedText (params : Entries) (secretPaths : List String) :
    Except FragmentError Bytes := do
  let existing ← strategyFragmentParams env d name
  managedText env name (keepStoredValues existing params secretPaths) secretPaths

def updateStrategyFragment (params : Entries) (enabled : Bool)
    (secretPaths : List String) : Except FragmentError Dir := do
  let some path ← findStrategyFile env d name | throw (.noOutput name)
  let text ← updatedText env d name params secretPaths
  let d' ← atomicWriteFile d (targetOf path enabled) text
  return if targetOf path enabled = path then d' else d'.erase path

def deleteStrategyFragment : Except FragmentError Dir := do
  let some path ← findStrategyFile env d name | throw (.noOutput name)
  return d.erase path

inductive Edit where
  | create (params : Entries) (enabled : Bool) (secretPaths : List String)
  | update (params : Entries) (enabled : Bool) (secretPaths : List String)
  | delete

def perform : Edit → Except FragmentError Dir
  | .create params enabled secretPaths => createStrategyFragment env d name params enabled secretPaths
  | .update params enabled secretPaths => updateStrategyFragment env d name params enabled secretPaths
  | .delete => deleteStrategyFragment env d name

/-! ## Other files -/

/-- Every file but the one of the output keeps its name and its bytes. -/
def LeavesOthers (d' : Dir) : Prop :=
  ∀ path bytes, findStrategyFile env d name ≠ .ok (some path) →
    d.lookup path = some (.file bytes) → d'.lookup path = some (.file bytes)

/-- A rewrite that moves the file of the output finds no other text at the new name. -/
def TargetFree : Edit → Prop
  | .update params enabled secretPaths =>
    ∀ path bytes, findStrategyFile env d name = .ok (some path) → targetOf path enabled ≠ path →
      d.lookup (targetOf path enabled) = some (.file bytes) →
      updatedText env d name params secretPaths = .ok bytes
  | _ => True

end

section

variable {env : Env} {d d' : Dir} {name : String} {params : Entries} {enabled : Bool}
  {secretPaths : List String}

theorem atomicWriteFile_ok {path : String} {bytes : Bytes} (h : atomicWriteFile d path bytes = .ok d') :
    d' = d.insert path (.file bytes) := by
  unfold atomicWriteFile at h
  split at h
  · cases h
  · exact (Except.ok.inj h).symm

/-- Creating writes a file at a name that was free. -/
theorem createStrategyFragment_ok
    (h : createStrategyFragment env d name params enabled secretPaths = .ok d') :
    ∃ path bytes, d.lookup path = none ∧ d' = d.insert path (.file bytes) := by
  unfold createStrategyFragment at h
  split at h
  · cases h
  split at h
  · cases h
  obtain ⟨found, -, h⟩ := bind_ok h
  cases found with
  | some existing => cases h
  | none =>
    dsimp only at h
    split at h
    · cases h
    split at h
    · cases h
    next hfree =>
      obtain ⟨text, -, h⟩ := bind_ok h
      exact ⟨_, text, Option.not_isSome_iff_eq_none.mp hfree, atomicWriteFile_ok h⟩

theorem updateStrategyFragment_ok
    (h : updateStrategyFragment env d name params enabled secretPaths = .ok d') :
    ∃ path bytes, findStrategyFile env d name = .ok (some path)
      ∧ updatedText env d name params secretPaths = .ok bytes
      ∧ d' = if targetOf path enabled = path then d.insert path (.file bytes)
        else (d.insert (targetOf path enabled) (.file bytes)).erase path := by
  obtain ⟨found, hfound, h⟩ := bind_ok h
  cases found with
  | none => cases h
  | some path =>
    obtain ⟨bytes, htext, h⟩ := bind_ok h
    obtain ⟨written, hwritten, h⟩ := bind_ok h
    refine ⟨path, bytes, hfound, htext, ?_⟩
    rw [← Except.ok.inj h, atomicWriteFile_ok hwritten]
    split
    next hsame => rw [hsame]
    next => rfl

theorem deleteStrategyFragment_ok (h : deleteStrategyFragment env d name = .ok d') :
    ∃ path, findStrategyFile env d name = .ok (some path) ∧ d' = d.erase path := by
  obtain ⟨found, hfound, h⟩ := bind_ok h
  cases found with
  | none => cases h
  | some path => exact ⟨path, hfound, (Except.ok.inj h).symm⟩

theorem update_leavesOthers_iff
    (h : updateStrategyFragment env d name params enabled secretPaths = .ok d') :
    LeavesOthers env d name d' ↔ TargetFree env d name (.update params enabled secretPaths) := by
  obtain ⟨path, bytes, hfound, htext, hd'⟩ := updateStrategyFragment_ok h
  by_cases hmoves : targetOf path enabled = path
  · rw [if_pos hmoves] at hd'
    refine iff_of_true (fun other bytes' hother hfile => ?_) fun path' bytes' hfound' hne _ => ?_
    · have hne : other ≠ path := by
        rintro rfl
        exact hother hfound
      rwa [hd', AList.lookup_insert_ne hne]
    · cases hfound.symm.trans hfound'
      exact absurd hmoves hne
  · rw [if_neg hmoves] at hd'
    constructor
    · intro hleaves path' bytes' hfound' _ hfile
      cases hfound.symm.trans hfound'
      have hother : findStrategyFile env d name ≠ .ok (some (targetOf path enabled)) := by
        rw [hfound]
        simpa using Ne.symm hmoves
      have hkept := hleaves _ bytes' hother hfile
      rw [hd', AList.lookup_erase_ne hmoves, AList.lookup_insert] at hkept
      cases hkept
      exact htext
    · intro hfree other bytes' hother hfile
      have hne : other ≠ path := by
        rintro rfl
        exact hother hfound
      rw [hd', AList.lookup_erase_ne hne]
      by_cases htarget : other = targetOf path enabled
      · rw [htarget] at hfile ⊢
        rw [AList.lookup_insert]
        cases htext.symm.trans (hfree path bytes' hfound hmoves hfile)
        rfl
      · rwa [AList.lookup_insert_ne htarget]

end

/-- An edit that succeeds leaves every file but that of its output as it was, exactly when it is no
rewrite that moves the file over another one with another text. -/
theorem other_files_kept_iff (env : Env) (d : Dir) (name : String) (edit : Edit) {d' : Dir}
    (h : perform env d name edit = .ok d') :
    LeavesOthers env d name d' ↔ TargetFree env d name edit := by
  cases edit with
  | create params enabled secretPaths =>
    obtain ⟨path, bytes, hnone, rfl⟩ := createStrategyFragment_ok h
    refine iff_of_true (fun other bytes' _ hfile => ?_) trivial
    have hne : other ≠ path := by
      rintro rfl
      cases hnone.symm.trans hfile
    rwa [AList.lookup_insert_ne hne]
  | update params enabled secretPaths => exact update_leavesOthers_iff h
  | delete =>
    obtain ⟨path, hfound, rfl⟩ := deleteStrategyFragment_ok h
    refine iff_of_true (fun other bytes' hother hfile => ?_) trivial
    have hne : other ≠ path := by
      rintro rfl
      exact hother hfound
    rwa [AList.lookup_erase_ne hne]

/-- The document of an output without parameters. -/
def emptyOutput (name : String) : Bytes := asciiText (name ++ ": \x7b\x7d\n")

def sampleEnv : Env where
  multiFile := true
  unmarshal raw :=
    (["otlp", "http"].find? fun name => raw = emptyOutput name).map fun name => [(name, [])]
  marshal name _ := emptyOutput name
  sealer := plainSealer
  store := []

def sampleDir : Dir :=
  ((∅ : Dir).insert "50-otlp.yaml.disabled" (.file (emptyOutput "otlp"))).insert "50-http.yaml"
    (.file (emptyOutput "http"))

/-- Enabling `otlp` moves its file to a name that is free. -/
theorem other_files_kept_enabling : ∃ d',
    perform sampleEnv sampleDir "otlp" (.update [] true []) = .ok d'
      ∧ LeavesOthers sampleEnv sampleDir "otlp" d' := by
  refine ⟨_, rfl, (other_files_kept_iff sampleEnv sampleDir "otlp" (.update [] true []) rfl).mpr ?_⟩
  intro path bytes hfound _ hfile
  have hpath : findStrategyFile sampleEnv sampleDir "otlp" = .ok (some "50-otlp.yaml.disabled") := rfl
  cases hpath.symm.trans hfound
  have hfree : sampleDir.lookup (targetOf "50-otlp.yaml.disabled" true) = none := rfl
  cases hfree.symm.trans hfile

/-- With a `50-otlp.yaml` that does not parse, which no lookup of `otlp` finds. -/
def brokenDir : Dir := sampleDir.insert "50-otlp.yaml" (.file (asciiText "otlp: ["))

/-- Enabling `otlp` writes over that file. -/
theorem broken_file_overwritten : ∃ d',
    perform sampleEnv brokenDir "otlp" (.update [] true []) = .ok d'
      ∧ ¬LeavesOthers sampleEnv brokenDir "otlp" d' := by
  refine ⟨_, rfl, fun hleaves => ?_⟩
  have hpath : findStrategyFile sampleEnv brokenDir "otlp" = .ok (some "50-otlp.yaml.disabled") := rfl
  have hkept := hleaves "50-otlp.yaml" (asciiText "otlp: [") (by rw [hpath]; simp) rfl
  exact absurd hkept (by decide)

end SenhubAgent.Config.StrategyFragments

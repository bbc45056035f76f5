import Mathlib.Data.List.Sort
import SenhubAgent.Lib.Session
import SenhubAgent.Lib.Text

/-!
# Which version an agent should run

`getExpectedVersion` resolves what the configuration asks for (nothing, `latest`, a version
or a constraint) against what the registry lists: the metadata of one version, the list of
the releases or the list of the betas. `shouldUpdateTo` then compares the answer with the
running version.

Mirroring notes:
- A request is the URL of a GET; the headers the agent sends with it are left out.
- `hashicorp/go-version`, `encoding/json` and `net/url` are records of functions; bodies are
  of a type `B` with the operations the code uses. Nothing is assumed of them here.
- `sort.Sort` is not stable; only the last of the sorted versions is read, and the model
  sorts stably.
- `FormatVersionForUrl` parses its argument and returns it unchanged either way.
- Logging is left out.
-/

namespace SenhubAgent.AutoUpdate

open SenhubAgent.Lib

/-- What the updater uses of `hashicorp/go-version`: versions `V` and constraints `C`. -/
structure VersionOps (V C : Type) where
  newVersion : String → Except String V
  greaterThan : V → V → Bool
  lessThan : V → V → Bool
  /-- `String()` -/
  string : V → String
  newConstraint : String → Except String C
  check : C → V → Bool
  /-- `MustConstraints(NewConstraint(">= 0"))` -/
  anyRelease : C

structure VersionMetadata where
  name : String
  version : String
deriving DecidableEq

/-- What comes back from a GET. `bodyErr` is the error that reading ends with once `body`
is read, `none` for an ordinary end. -/
structure Response (B : Type) where
  statusCode : Nat
  status : String
  contentType : String
  contentLength : Int
  body : B
  bodyErr : Option String

/-- What the updater uses of `net/url`, `encoding/json` and `io`. -/
structure WebOps (B : Type) where
  /-- `url.JoinPath` of a base and one element -/
  joinPath : String → String → Except String String
  /-- the host of `url.Parse`; `none` where it fails -/
  urlHost : String → Option String
  /-- `json.NewDecoder(body).Decode` into a list, from the body and its error -/
  decodeList : B → Option String → Except String (List VersionMetadata)
  decodeMetadata : B → Option String → Except String VersionMetadata
  size : B → Nat
  /-- the first bytes of a body -/
  take : Nat → B → B

/-- A program that sends GET requests. -/
abbrev Web (B : Type) := Session String (Except String (Response B))

/-! ## The registry URL -/

def defaultRegistryUrl : String := "https://eu-west-1.intake.senhub.io"
def versionMetadataListPath : String := "/releases/releases.json"
def versionMetadataListBetaPath : String := "/releases/beta/releases.json"
def versionMetadataPath (version : String) : String := "/download/" ++ version ++ "/metadata.json"
def versionBinaryPath (version filename : String) : String :=
  "/download/" ++ version ++ "/" ++ filename

def registrySuffixes : List String :=
  ["/releases/beta/releases.json", "/releases/releases.json", "/releases/beta", "/releases",
    "/download"]

/-- One pass of the loop: the first suffix that fits is cut off. -/
def stripSuffix (trimmed : String) : String :=
  match registrySuffixes.find? (endsWith · trimmed) with
  | some suf => trimRight '/' (trimEnd suf trimmed)
  | none => trimmed

/-- The loop of `NormalizeRegistryURL`. Every pass but the last cuts off a character or
more, so as many passes as there are characters are enough. -/
def stripSuffixes : Nat → String → String
  | 0, trimmed => trimmed
  | passes + 1, trimmed =>
    if stripSuffix trimmed = trimmed then trimmed else stripSuffixes passes (stripSuffix trimmed)

section

variable {B V C : Type} (web : WebOps B) (vers : VersionOps V C)

def isSchemeOnly (s : String) : Bool :=
  match web.urlHost s with
  | none => true
  | some host => host == ""

/-- The base to append to, and whether it differs from what was configured. -/
def normalizeRegistryURL (raw : String) : String × Bool :=
  let base := trimRight '/' (trimSpace raw)
  if base = "" then (raw, false)
  else
    let trimmed := stripSuffixes base.length base
    if trimmed = "" || isSchemeOnly web trimmed then (raw, false)
    else if trimmed = base && trimmed = raw then (raw, false)
    else (trimmed, trimmed != raw)

def getRegistryUrl (registryUrl : String) : String :=
  if registryUrl = "" then defaultRegistryUrl
  else
    let (fixed, changed) := normalizeRegistryURL web registryUrl
    if changed then fixed else registryUrl

/-! ## Versions as text -/

/-- `X.Y.Z-beta`, `X.Y.Z-betaN` and `X.Y.Z-beta.N` are betas, other pre-releases are not. -/
def isBetaVersion (versionStr : String) : Bool :=
  let core := (cut '+' versionStr.toList).1
  match (cut '-' core).2 with
  | none => false
  | some pre =>
    if "beta".toList.isPrefixOf pre then
      match pre.drop 4 with
      | [] => true
      | '.' :: rest => rest != [] && rest.all Char.isDigit
      | rest => rest.all Char.isDigit
    else false

def formatVersionForUrl (versionStr : String) : String :=
  match vers.newVersion versionStr with
  | .error _ => versionStr
  | .ok _ => versionStr

/-! ## What the registry lists -/

def httpError (what url : String) (resp : Response B) : String :=
  what ++ ": HTTP " ++ toString resp.statusCode ++ " " ++ resp.status ++ " from " ++ url

def fetchVersionMetadata (registryUrl wantedVersion : String) :
    Web B (Except String VersionMetadata) := do
  match web.joinPath registryUrl (versionMetadataPath (formatVersionForUrl vers wantedVersion)) with
  | .error e => return .error e
  | .ok metadataUrl =>
    match ← Session.get metadataUrl with
    | .error e => return .error e
    | .ok resp =>
      if resp.statusCode ≠ 200 then
        return .error ("fetching version metadata from " ++ metadataUrl ++ ": HTTP " ++
          toString resp.statusCode ++ " " ++ resp.status)
      else return web.decodeMetadata resp.body resp.bodyErr

def fetchVersionList (registryUrl : String) : Web B (Except String (List VersionMetadata)) := do
  match web.joinPath registryUrl versionMetadataListPath with
  | .error e => return .error e
  | .ok listUrl =>
    match ← Session.get listUrl with
    | .error e => return .error e
    | .ok resp =>
      if resp.statusCode ≠ 200 then
        return .error ("fetching releases list from " ++ listUrl ++ ": HTTP " ++
          toString resp.statusCode ++ " " ++ resp.status)
      else return web.decodeList resp.body resp.bodyErr

def fetchVersionListBeta (registryUrl : String) :
    Web B (Except String (List VersionMetadata)) := do
  match web.joinPath registryUrl versionMetadataListBetaPath with
  | .error e => return .error e
  | .ok listUrl =>
    match ← Session.get listUrl with
    | .error e => return .error e
    | .ok resp =>
      if resp.statusCode ≠ 200 then
        return .error ("beta releases endpoint returned HTTP " ++ toString resp.statusCode)
      else return web.decodeList resp.body resp.bodyErr

/-- The versions of a list that parse and satisfy a constraint, in the list's order. -/
def matchingVersions (wantedVersion : C) (metadataList : List VersionMetadata) : List V :=
  metadataList.filterMap fun metadata =>
    match vers.newVersion metadata.version with
    | .error _ => none
    | .ok version => if vers.check wantedVersion version then some version else none

/-- `none` where nothing matches. The highest match is looked up in the list again by its
own text. -/
def getBestMatchingVersion (wantedVersion : C) (metadataList : List VersionMetadata) :
    Except String (Option VersionMetadata) :=
  let found := matchingVersions vers wantedVersion metadataList
  match (found.insertionSort fun a b => vers.lessThan b a = false).getLast? with
  | none => .ok none
  | some bestMatch =>
    match metadataList.find? fun metadata => metadata.version = vers.string bestMatch with
    | some metadata => .ok (some metadata)
    | none => .error "No matching version found"

def fetchBestMatchingVersion (registryUrl : String) (wantedVersion : C) :
    Web B (Except String (Option VersionMetadata)) := do
  match ← fetchVersionList web registryUrl with
  | .error e => return .error e
  | .ok metadataList => return getBestMatchingVersion vers wantedVersion metadataList

/-- The records of both lists, each version once, the first record that has it. -/
def mergeVersions (versions : List VersionMetadata) : List VersionMetadata :=
  versions.foldl (fun all v => if all.any (·.version == v.version) then all else all ++ [v]) []

def fetchAllVersions (registryUrl : String) (includeBeta : Bool) :
    Web B (Except String (List VersionMetadata)) := do
  match ← fetchVersionList web registryUrl with
  | .error e => return .error ("failed to fetch stable releases: " ++ e)
  | .ok stable =>
    if !includeBeta then return .ok stable
    else
      match ← fetchVersionListBeta web registryUrl with
      | .error _ => return .ok stable
      | .ok beta => return .ok (mergeVersions (stable ++ beta))

def getLatestVersion (versions : List VersionMetadata) : Option VersionMetadata :=
  (versions.foldl (fun best v =>
    match vers.newVersion v.version, best with
    | .error _, best => best
    | .ok parsed, none => some (parsed, v)
    | .ok parsed, some (top, bestMeta) =>
      if vers.greaterThan parsed top then some (parsed, v) else some (top, bestMeta))
    (none : Option (V × VersionMetadata))).map (·.2)

/-! ## The version to run -/

/-- `current` is the running version; `includeBeta` is the configuration's, `none` where the
updater has no configuration. -/
def getExpectedVersion (current : String) (includeBeta : Option Bool)
    (expectedVersionStr registryUrl : String) : Web B String := do
  let registryUrl := getRegistryUrl web registryUrl
  if expectedVersionStr = "" then return current
  else if expectedVersionStr = "latest" then
    if includeBeta.getD false then
      match ← fetchAllVersions web registryUrl true with
      | .error _ => return current
      | .ok versions => return ((getLatestVersion vers versions).map (·.version)).getD current
    else
      match ← fetchBestMatchingVersion web vers registryUrl vers.anyRelease with
      | .error _ => return current
      | .ok bestMatch => return (bestMatch.map (·.version)).getD current
  else
    match ← fetchVersionMetadata web vers registryUrl expectedVersionStr with
    | .ok metadata => return metadata.version
    | .error _ =>
      if isBetaVersion expectedVersionStr then return expectedVersionStr
      else
        match vers.newConstraint expectedVersionStr, vers.newVersion current with
        | .ok constraint, .ok currentVersion =>
          if vers.check constraint currentVersion then return current
          else
            match ← fetchBestMatchingVersion web vers registryUrl constraint with
            | .error _ => return current
            | .ok metadata => return (metadata.map (·.version)).getD current
        -- an unreadable constraint or an unreadable running version: stay
        | _, _ => return current

/-- Strictly greater, or the error of the side that does not parse (the running version
first). -/
def shouldUpdateTo (currentStr expectedStr : String) : Except String Bool :=
  match vers.newVersion currentStr, vers.newVersion expectedStr with
  | .error e, _ => .error e
  | .ok _, .error e => .error e
  | .ok cur, .ok exp => .ok (vers.greaterThan exp cur)

theorem newer_of_shouldUpdateTo {currentStr expectedStr : String}
    (h : shouldUpdateTo vers currentStr expectedStr = .ok true) :
    ∃ cur exp, vers.newVersion currentStr = .ok cur ∧ vers.newVersion expectedStr = .ok exp ∧
      vers.greaterThan exp cur = true := by
  unfold shouldUpdateTo at h
  cases hcur : vers.newVersion currentStr with
  | error e => simp [hcur] at h
  | ok cur =>
    cases hexp : vers.newVersion expectedStr with
    | error e => simp [hcur, hexp] at h
    | ok exp =>
      rw [hcur, hexp] at h
      exact ⟨cur, exp, rfl, rfl, by simpa using h⟩

end

end SenhubAgent.AutoUpdate

import SenhubAgent.AutoUpdate.Install

/-!
# What a hostile registry can install

The registry is any function from the requests it has seen to an answer. The publisher's key
signs archives, and no one else can: a signature that verifies is on the bytes of something
that was published. What an update installs is then always something published, fetched from
the URL of a version greater than the running one (`update_installs_published`).

The signature covers the bytes of the archive and nothing else. Which version and which
platform it was published for is not in them, so the registry can serve one release under
the URL of another (`older_release_installed`).
-/

namespace SenhubAgent.AutoUpdate

open SenhubAgent.Lib

/-- A file as the publisher signed it. -/
structure Release (B : Type) where
  version : String
  goos : String
  goarch : String
  bytes : B

section

variable {B V C K : Type} (libs : Libs B V C K) (disk : Disk) (agent : Agent)

/-- A signature that verifies under the embedded key is on a published file. -/
def Unforgeable (published : Release B → Prop) : Prop :=
  ∀ pub, libs.sign.parsePublicKey agent.signingPublicKey = .ok pub → ∀ message signature,
    (libs.sign.verify pub message signature = true ∨
      libs.sign.readerVerify pub message signature = true) →
    ∃ release, published release ∧ release.bytes = message

/-- Reading an answer to a GET of `url` gives `file`. -/
def Served (answers : String → Except String (Response B) → Prop) (url : String) (file : B) :
    Prop :=
  ∃ resp, answers url (.ok resp) ∧ (limitRead libs (maxArchiveSize + 1) resp).1 = file

/-- What is known of what was fetched from `url` and installed. -/
structure Fetched (published : Release B → Prop)
    (answers : String → Except String (Response B) → Prop) (url : String)
    (installed : Installed B) : Prop where
  source : installed.url = url
  served : Served libs answers url installed.artifact
  signed : ∃ release, published release ∧ release.bytes = installed.artifact
  content : ∀ url archive binary, installed = .binary url archive binary →
    ∃ files entry, libs.openZip archive = .ok files ∧ entry ∈ files ∧
      isAgentEntry entry = true ∧ entry.opened = .ok (.ok binary)

/-- The URL of a version for this agent. -/
def versionUrl (registry version : String) : Except String String :=
  if agent.isMsiManaged then getMsiUrl libs agent registry version
  else getBinaryUrl libs agent registry version

/-- What an update to the version `expected` may install: a published file, from the URL of
that version for this platform, where the version is greater than the running one. -/
structure Justified (published : Release B → Prop)
    (answers : String → Except String (Response B) → Prop) (registry expected : String)
    (installed : Installed B) : Prop where
  newer : ∃ cur exp, libs.vers.newVersion agent.version = .ok cur ∧
    libs.vers.newVersion expected = .ok exp ∧ libs.vers.greaterThan exp cur = true
  fetched : ∃ url, versionUrl libs agent registry expected = .ok url ∧
    Fetched libs published answers url installed

variable {libs disk agent}

/-! ## Signatures -/

theorem embeddedSigningKey_ok {pub : K} (h : embeddedSigningKey libs agent = .ok pub) :
    libs.sign.parsePublicKey agent.signingPublicKey = .ok pub := by
  unfold embeddedSigningKey at h
  split at h
  · cases h
  · split at h
    · cases h
    · next hkey => rwa [hkey]

variable {signature archive binary : B} {published : Release B → Prop} {target url : String}

theorem published_of_verifyArchiveSignature (hun : Unforgeable libs agent published) {file : B}
    (h : verifyArchiveSignature libs agent file signature = .ok ()) :
    ∃ release, published release ∧ release.bytes = file := by
  unfold verifyArchiveSignature at h
  split at h
  · cases h
  · next pub hpub =>
    split at h
    · next hv => exact hun pub (embeddedSigningKey_ok hpub) _ _ (.inl hv)
    · cases h

theorem published_of_verifyArchiveFile (hun : Unforgeable libs agent published)
    (h : verifyArchiveFile libs disk agent archive signature = .ok ()) :
    ∃ release, published release ∧ release.bytes = archive := by
  unfold verifyArchiveFile at h
  split at h
  · cases h
  · next pub hpub =>
    have hkey := embeddedSigningKey_ok hpub
    split at h
    · cases h
    · split at h
      · next hv => exact hun pub hkey _ _ (.inr hv)
      · cases h
    · split at h
      · cases h
      · split at h
        · next hv => exact hun pub hkey _ _ (.inl hv)
        · cases h

/-! ## Downloads -/

variable {answers : String → Except String (Response B) → Prop}

theorem downloadArchiveOnce_served (url : String) (attempt : Nat) :
    (downloadArchiveOnce libs disk url attempt).Ends answers fun r =>
      ∀ archive, r = .ok archive → Served libs answers url archive := by
  refine .bind (.get fun r hr => hr) fun r hr => ?_
  cases r with
  | error e => exact .pure (by simp)
  | ok resp =>
    dsimp only
    split
    · exact .pure (by simp)
    split
    · exact .pure (by simp)
    split
    · exact .pure (by simp)
    · exact .pure (by simp)
    · next archive hread _ =>
      split
      · exact .pure (by simp)
      · refine .pure fun a ha => ?_
        cases ha
        exact ⟨resp, hr, by rw [hread]⟩

/-- Whichever try succeeds, the archive is an answer to a GET of the URL. -/
theorem downloadTries_served (url : String) (left attempt : Nat) (lastErr : String) :
    (downloadTries libs disk url left attempt lastErr).Ends answers fun r =>
      ∀ archive, r = .ok archive → Served libs answers url archive := by
  induction left generalizing attempt lastErr with
  | zero => exact .pure (by simp)
  | succ left ih =>
    rw [downloadTries]
    split
    · exact .pure (by simp)
    · refine .bind (downloadArchiveOnce_served url attempt) fun r hr => ?_
      split
      · next archive => exact .pure fun a ha => hr a (by cases ha; rfl)
      · exact .pure (by simp)
      · exact ih _ _

/-! ## Applying -/

theorem applyBinary_ok {content : Except String B}
    (h : applyBinary disk content target = .ok binary) : content = .ok binary := by
  unfold applyBinary at h
  split at h <;> cases h
  rfl

theorem applyArchive_ok (h : applyArchive libs disk target archive = .ok binary) :
    ∃ files entry, libs.openZip archive = .ok files ∧ entry ∈ files ∧
      isAgentEntry entry = true ∧ entry.opened = .ok (.ok binary) := by
  unfold applyArchive at h
  split at h
  · cases h
  · next files hfiles =>
    split at h
    · cases h
    · next entry hentry =>
      split at h
      · cases h
      · next content hopened =>
        split at h
        · cases h
        · next hb =>
          cases h
          exact ⟨files, entry, hfiles, List.mem_of_find?_eq_some hentry, List.find?_some hentry,
            by rw [hopened, applyBinary_ok hb]⟩

theorem doUpdate_fetched (hun : Unforgeable libs agent published) (url : String) :
    (doUpdate libs disk agent url).Ends answers fun r =>
      ∀ installed, r = .ok (some installed) → Fetched libs published answers url installed := by
  unfold doUpdate
  split
  · exact .pure (by simp)
  split
  · exact .pure (by simp)
  split
  · exact .pure (by simp)
  split
  · exact .pure (by simp)
  refine .bind (downloadTries_served url _ _ _) fun r hr => ?_
  split
  · exact .pure (by simp)
  · exact .pure (by simp)
  next archive _ =>
  split
  · exact .pure (by simp)
  split
  · exact .pure (by simp)
  refine .bind_any fun sig => ?_
  split
  · exact .pure (by simp)
  split
  · exact .pure (by simp)
  next hverified =>
  split
  · exact .pure (by simp)
  next binary happlied =>
  refine .pure fun installed hi => ?_
  cases hi
  exact {
    source := rfl
    served := hr archive rfl
    signed := published_of_verifyArchiveFile hun hverified
    content := by
      intro url' archive' binary' hi
      cases hi
      exact applyArchive_ok happlied }

theorem launchMsi_ok {body : B} {installed : Installed B}
    (h : launchMsi disk url body = .ok (some installed)) : installed = .msi url body := by
  unfold launchMsi at h
  split at h <;> cases h
  rfl

theorem applyMsiUpdate_fetched (hun : Unforgeable libs agent published) (url : String) :
    (applyMsiUpdate libs disk agent url).Ends answers fun r =>
      ∀ installed, r = .ok (some installed) → Fetched libs published answers url installed := by
  unfold applyMsiUpdate
  split
  · exact .pure (by simp)
  split
  · exact .pure (by simp)
  refine .bind (.get fun r hr => hr) fun r hr => ?_
  split
  · exact .pure (by simp)
  next resp =>
  split
  · exact .pure (by simp)
  split
  · exact .pure (by simp)
  split
  · exact .pure (by simp)
  next body hread =>
  split
  · exact .pure (by simp)
  split
  · exact .pure (by simp)
  refine .bind_any fun sig => ?_
  split
  · exact .pure (by simp)
  split
  · exact .pure (by simp)
  next hverified =>
  refine .pure fun installed hi => ?_
  rw [launchMsi_ok hi]
  exact {
    source := rfl
    served := ⟨resp, hr, congrArg Prod.fst hread⟩
    signed := published_of_verifyArchiveSignature hun hverified
    content := by simp }

/-! ## The whole update -/

/-- The end of an update whose applying part fetched from the version's URL. -/
theorem ofApplied_justified {registry expected : String}
    {apply : Web B (Except String (Option (Installed B)))}
    (hnewer : shouldUpdateTo libs.vers agent.version expected = .ok true)
    (hurl : versionUrl libs agent registry expected = .ok url)
    (happly : apply.Ends answers fun r => ∀ installed, r = .ok (some installed) →
      Fetched libs published answers url installed) :
    (apply >>= fun r => pure (Outcome.ofApplied expected r)).Ends answers fun o =>
      o.expected = expected ∧ ∀ installed, o.installed = some installed →
        Justified libs agent published answers registry expected installed := by
  refine .bind happly fun r hr => ?_
  cases r with
  | error e => exact .pure ⟨rfl, by simp [Outcome.ofApplied]⟩
  | ok put =>
    refine .pure ⟨rfl, fun installed hi => ?_⟩
    have hput : put = some installed := hi
    exact ⟨newer_of_shouldUpdateTo libs.vers hnewer, url, hurl, hr installed (by rw [hput])⟩

theorem applyVersion_justified (hun : Unforgeable libs agent published) (registry expected : String)
    (hnewer : shouldUpdateTo libs.vers agent.version expected = .ok true) :
    (applyVersion libs disk agent registry expected).Ends answers fun o =>
      o.expected = expected ∧ ∀ installed, o.installed = some installed →
        Justified libs agent published answers registry expected installed := by
  unfold applyVersion
  split
  · next hmsi =>
    split
    · exact .pure (by simp)
    split
    · exact .pure (by simp)
    next url hurl =>
    exact ofApplied_justified hnewer (by rw [versionUrl, if_pos hmsi, hurl])
      (applyMsiUpdate_fetched hun url)
  · next hzip =>
    split
    · exact .pure (by simp)
    next url hurl =>
    split
    · exact .pure (by simp)
    exact ofApplied_justified hnewer (by rw [versionUrl, if_neg hzip, hurl])
      (doUpdate_fetched hun url)

theorem update_justified (hun : Unforgeable libs agent published)
    (expectedVersionStr registry : String) :
    (update libs disk agent expectedVersionStr registry).Ends answers fun o =>
      ∀ installed, o.installed = some installed →
        Justified libs agent published answers registry o.expected installed := by
  refine .bind_any fun expected => ?_
  split
  · exact .pure (by simp)
  split
  · exact .pure (by simp)
  · exact .pure (by simp)
  next hnewer =>
  refine (applyVersion_justified hun registry expected hnewer).imp fun o ho => ?_
  rw [ho.1]
  exact ho.2

/-- Whatever the registry answers, an update only installs a published file, which it
fetched from the URL of a version greater than the running one. -/
theorem update_installs_published {published : Release B → Prop}
    (hun : Unforgeable libs agent published) (expectedVersionStr registry : String)
    (answer : List String → String → Except String (Response B)) (asked : List String)
    {installed : Installed B}
    (hi : ((update libs disk agent expectedVersionStr registry).run answer asked).installed =
      some installed) :
    Justified libs agent published (fun url r => ∃ asked, answer asked url = r) registry
      ((update libs disk agent expectedVersionStr registry).run answer asked).expected
      installed :=
  (update_justified hun expectedVersionStr registry).run (fun asked _ => ⟨asked, rfl⟩) asked
    installed hi

end

/-! ## A registry that serves an older release

The agent runs `0.6.0` on `linux`. The registry lists `0.9.0`, and serves under its URL the
archive of `0.5.0` for `windows` with the signature that was published for it. -/

inductive DemoFile
  | releases
  | oldArchive
  | oldSignature
  | oldBinary
deriving DecidableEq

/-- The versions the registry and the agent name; `0.N.0` is the number `N`. -/
def demoVersion : String → Except String Nat
  | "0.5.0" => .ok 5
  | "0.6.0" => .ok 6
  | "0.9.0" => .ok 9
  | _ => .error "Malformed version"

def demoVerify (_ : Unit) (message signature : DemoFile) : Bool :=
  message == .oldArchive && signature == .oldSignature

def demoLibs : Libs DemoFile Nat Unit Unit where
  web := {
    joinPath := fun base path => .ok (base ++ path)
    urlHost := fun _ => some "eu-west-1.intake.senhub.io"
    decodeList := fun _ _ => .ok [⟨"latest", "0.9.0"⟩]
    decodeMetadata := fun _ _ => .error "invalid character"
    size := fun _ => 2 * 1024 * 1024
    take := fun _ body => body }
  vers := {
    newVersion := demoVersion
    greaterThan := fun a b => b < a
    lessThan := fun a b => a < b
    string := fun n => if n = 9 then "0.9.0" else if n = 6 then "0.6.0" else "0.5.0"
    newConstraint := fun _ => .ok ()
    check := fun _ _ => true
    anyRelease := () }
  sign := {
    parsePublicKey := fun _ => .ok ()
    parseSignature := fun _ => .ok .hashEdDSA
    verify := demoVerify
    readerVerify := demoVerify }
  openZip := fun _ => .ok [⟨"senhub-agent.exe", .ok (.ok .oldBinary)⟩]

def demoDisk : Disk where
  executable := .ok "/opt/senhub/senhub-agent"
  createTemp := .ok "/opt/senhub/.senhub-agent-update-1.zip"
  closeArchive := .ok ()
  rewind := .ok ()
  writeArchive := fun _ => none
  readBack := .ok ()
  newPath := fun _ => "/opt/senhub/.senhub-agent.new"
  createNew := .ok ()
  sync := .ok ()
  closeNew := .ok ()
  commitBinary := .ok ()
  stageDir := .ok ()
  stageFile := .ok ()
  launchInstaller := .ok ()

def demoAgent : Agent where
  version := "0.6.0"
  goos := "linux"
  goarch := "amd64"
  isMsiManaged := false
  operatorDriven := true
  dryRun := false
  includeBeta := none
  signingPublicKey := "RWQ"

def demoPublished : List (Release DemoFile) := [⟨"0.5.0", "windows", "amd64", .oldArchive⟩]

/-- The list first, then the old archive, then its signature. -/
def demoRegistry (asked : List String) (_ : String) : Except String (Response DemoFile) :=
  let file := match asked.length with
    | 0 => .releases
    | 1 => .oldArchive
    | _ => .oldSignature
  .ok ⟨200, "200 OK", "application/octet-stream", 2 * 1024 * 1024, file, none⟩

def demoOutcome : Outcome DemoFile :=
  (update demoLibs demoDisk demoAgent "latest" "").run demoRegistry []

theorem demoUnforgeable : Unforgeable demoLibs demoAgent (· ∈ demoPublished) := by
  intro pub _ message signature h
  have hm : message = .oldArchive ∧ signature = .oldSignature := by
    simpa [demoLibs, demoVerify] using h
  exact ⟨⟨"0.5.0", "windows", "amd64", .oldArchive⟩, by simp [demoPublished], hm.1.symm⟩

theorem demoInstalled : demoOutcome.installed = some (.binary
    "https://eu-west-1.intake.senhub.io/download/0.9.0/senhub-agent-linux-amd64.zip"
    .oldArchive .oldBinary) := by
  rfl

/-- The published archive was fetched from the URL of `0.9.0` for `linux`. -/
theorem demoInstalled_published : Justified demoLibs demoAgent (· ∈ demoPublished)
    (fun url r => ∃ asked, demoRegistry asked url = r) "" demoOutcome.expected (.binary
    "https://eu-west-1.intake.senhub.io/download/0.9.0/senhub-agent-linux-amd64.zip"
    .oldArchive .oldBinary) :=
  update_installs_published demoUnforgeable "latest" "" demoRegistry [] demoInstalled

/-- It was never published as `0.9.0`, nor for `linux`, and its version is below the
running one. -/
theorem older_release_installed :
    Unforgeable demoLibs demoAgent (· ∈ demoPublished) ∧ demoOutcome.expected = "0.9.0" ∧
    (∃ url binary, demoOutcome.installed = some (.binary url .oldArchive binary)) ∧
    ∀ release ∈ demoPublished, release.bytes = .oldArchive →
      release.version ≠ demoOutcome.expected ∧ release.goos ≠ demoAgent.goos ∧
      shouldUpdateTo demoLibs.vers demoAgent.version release.version = .ok false := by
  refine ⟨demoUnforgeable, rfl, ⟨_, _, demoInstalled⟩, ?_⟩
  intro release hr _
  obtain rfl : release = ⟨"0.5.0", "windows", "amd64", .oldArchive⟩ := by
    simpa [demoPublished] using hr
  exact ⟨by decide, by decide, rfl⟩

end SenhubAgent.AutoUpdate

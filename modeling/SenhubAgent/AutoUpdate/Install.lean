import SenhubAgent.AutoUpdate.Versions

/-!
# Downloading, verifying and applying an update

`Update` decides on a version, builds the URL of that version's archive for this platform,
downloads it with its detached signature, verifies the signature over the bytes of the
archive, and only then opens the archive and puts the binary it holds in place of the running
one. An installation that an MSI manages downloads and verifies an MSI the same way and hands
it to `msiexec`.

Mirroring notes:
- `minisign` and `archive/zip` are records of functions. A `minisign.Reader` stands for the
  bytes that went through it, which are the bytes of the file.
- Every call to the file system that can fail is a field of `Disk`, with the error it gives;
  what the agent wrote to a file is what it reads back.
- The pauses between two tries, the idle timer (a stalled body ends with an error), the
  self-metrics and logging are left out.
- `Outcome.expected` keeps the version that `Update` decided on, which the source only logs.
-/

namespace SenhubAgent.AutoUpdate

open SenhubAgent.Lib

inductive Algorithm
  | edDSA
  | hashEdDSA
deriving DecidableEq

/-- What the updater uses of `aead.dev/minisign`. -/
structure Minisign (K B : Type) where
  /-- `PublicKey.UnmarshalText` -/
  parsePublicKey : String → Except String K
  /-- the algorithm of `Signature.UnmarshalText` -/
  parseSignature : B → Except String Algorithm
  /-- `Verify(pub, message, signature)` -/
  verify : K → B → B → Bool
  /-- `Reader.Verify(pub, signature)` of a reader the message went through -/
  readerVerify : K → B → B → Bool

/-- An entry of a zip archive: whether it opens and, then, what reading it gives. -/
structure ZipEntry (B : Type) where
  name : String
  opened : Except String (Except String B)

/-- How the file system and the installer answer. -/
structure Disk where
  executable : Except String String
  /-- the name of the temporary file the archive goes to -/
  createTemp : Except String String
  closeArchive : Except String Unit
  /-- `Seek` and `Truncate` before a further try -/
  rewind : Except String Unit
  /-- the error writing the archive ends with, by the number of the try -/
  writeArchive : Nat → Option String
  readBack : Except String Unit
  /-- the hidden sibling `.<name>.new` of an executable -/
  newPath : String → String
  createNew : Except String Unit
  sync : Except String Unit
  closeNew : Except String Unit
  commitBinary : Except String Unit
  stageDir : Except String Unit
  stageFile : Except String Unit
  launchInstaller : Except String Unit

/-- The running agent, as the updater sees it. -/
structure Agent where
  /-- `cliArgs.Version` -/
  version : String
  goos : String
  goarch : String
  isMsiManaged : Bool
  operatorDriven : Bool
  dryRun : Bool
  includeBeta : Option Bool
  signingPublicKey : String

/-- What an update put in place, and where it came from. -/
inductive Installed (B : Type)
  /-- the binary of an archive, in place of the running one -/
  | binary (url : String) (archive binary : B)
  /-- an installer handed to `msiexec` -/
  | msi (url : String) (installer : B)

def Installed.url {B : Type} : Installed B → String
  | .binary url _ _ => url
  | .msi url _ => url

/-- The file that was downloaded. -/
def Installed.artifact {B : Type} : Installed B → B
  | .binary _ archive _ => archive
  | .msi _ installer => installer

/-- What `Update` returns, the version it decided on and what it installed. -/
structure Outcome (B : Type) where
  expected : String
  updated : Bool
  err : Option String
  installed : Option (Installed B)

/-- The libraries. -/
structure Libs (B V C K : Type) where
  web : WebOps B
  vers : VersionOps V C
  sign : Minisign K B
  /-- `zip.OpenReader` -/
  openZip : B → Except String (List (ZipEntry B))

section

variable {B V C K : Type} (libs : Libs B V C K) (disk : Disk) (agent : Agent)

/-! ## URLs -/

def getBinaryNameForOptions (goos goarch : String) : String :=
  "senhub-agent-" ++ goos ++ "-" ++ goarch ++ ".zip"

def getBinaryUrl (registryUrl version : String) : Except String String :=
  libs.web.joinPath (getRegistryUrl libs.web registryUrl)
    (versionBinaryPath (formatVersionForUrl libs.vers version)
      (getBinaryNameForOptions agent.goos agent.goarch))

def getMsiUrl (registryUrl version : String) : Except String String :=
  libs.web.joinPath (getRegistryUrl libs.web registryUrl)
    (versionBinaryPath (formatVersionForUrl libs.vers version)
      ("senhub-agent-" ++ version ++ "-" ++ agent.goarch ++ ".msi"))

/-! ## Signatures -/

def embeddedSigningKey : Except String K :=
  if agent.signingPublicKey = "" then
    .error "this build embeds no update signing key — refusing to self-update"
  else
    match libs.sign.parsePublicKey agent.signingPublicKey with
    | .error e => .error ("embedded signing public key is invalid: " ++ e)
    | .ok pub => .ok pub

def verifyArchiveSignature (archive signature : B) : Except String Unit :=
  match embeddedSigningKey libs agent with
  | .error e => .error e
  | .ok pub =>
    if libs.sign.verify pub archive signature then .ok ()
    else .error "minisign signature verification failed"

def verifyArchiveFile (archive signature : B) : Except String Unit :=
  match embeddedSigningKey libs agent with
  | .error e => .error e
  | .ok pub =>
    match libs.sign.parseSignature signature with
    | .error e => .error ("minisign signature is unreadable: " ++ e)
    | .ok .hashEdDSA =>
      if libs.sign.readerVerify pub archive signature then .ok ()
      else .error "minisign signature verification failed"
    | .ok .edDSA =>
      match disk.readBack with
      | .error e => .error ("reading the archive back for a legacy signature: " ++ e)
      | .ok () =>
        if libs.sign.verify pub archive signature then .ok ()
        else .error "minisign signature verification failed"

/-! ## Downloads -/

def maxArchiveSize : Nat := 200 * 1024 * 1024
def minArchiveSize : Nat := 1024 * 1024
def archiveDownloadTries : Nat := 4
def maxSignatureSize : Nat := 64 * 1024

/-- Reading a body through `io.LimitReader`: the bytes read, and the error if the body broke
before the limit. -/
def limitRead (limit : Nat) (resp : Response B) : B × Option String :=
  if limit ≤ libs.web.size resp.body then (libs.web.take limit resp.body, none)
  else (resp.body, resp.bodyErr)

/-- An error page instead of a file. -/
def isErrorPage (contentType : String) : Bool :=
  contains "text/html" contentType || contains "application/json" contentType

/-- One GET, the `attempt`-th. An error comes with whether it may pass. -/
def downloadArchiveOnce (downloadURL : String) (attempt : Nat) :
    Web B (Except (Bool × String) B) := do
  match ← Session.get downloadURL with
  | .error e => return .error (false, "failed to download update: " ++ e)
  | .ok resp =>
    if resp.statusCode ≠ 200 then
      return .error (false, httpError "failed to download update" downloadURL resp)
    else if isErrorPage resp.contentType then
      return .error (false, "invalid content type for archive download: " ++ resp.contentType ++
        " (expected zip/octet-stream, got " ++ downloadURL ++ ")")
    else
      match limitRead libs (maxArchiveSize + 1) resp, disk.writeArchive attempt with
      | _, some e => return .error (true, e)
      | (_, some e), none => return .error (true, e)
      | (archive, none), none =>
        let size := libs.web.size archive
        if 0 < resp.contentLength ∧ (size : Int) < resp.contentLength then
          return .error (true, "body ended after " ++ toString size ++ " of " ++
            toString resp.contentLength ++ " bytes")
        else return .ok archive

/-- The tries from the `attempt`-th on, of which `left` are left; `lastErr` is the error of
the one before. -/
def downloadTries (downloadURL : String) :
    (left attempt : Nat) → (lastErr : String) → Web B (Except String B)
  | 0, _, lastErr => return .error ("download failed after " ++ toString archiveDownloadTries ++
      " attempts: " ++ lastErr)
  | left + 1, attempt, _ => do
    match if attempt > 1 then disk.rewind else .ok () with
    | .error e => return .error e
    | .ok () =>
      match ← downloadArchiveOnce libs disk downloadURL attempt with
      | .ok archive => return .ok archive
      | .error (false, e) => return .error e
      | .error (true, e) => downloadTries downloadURL left (attempt + 1) e

def downloadArchive (downloadURL : String) : Web B (Except String B) :=
  downloadTries libs disk downloadURL archiveDownloadTries 1 ""

def fetchSignature (signatureURL : String) : Web B (Except String B) := do
  match ← Session.get signatureURL with
  | .error e => return .error ("downloading signature: " ++ e)
  | .ok resp =>
    if resp.statusCode ≠ 200 then
      return .error (httpError "downloading signature" signatureURL resp)
    else
      match limitRead libs maxSignatureSize resp with
      | (_, some e) => return .error ("reading signature body: " ++ e)
      | (sig, none) => return .ok sig

/-! ## Applying -/

/-- The steps of `applyBinary` in order; the target is replaced by the last one. -/
def applyBinary (binary : Except String B) (target : String) : Except String B :=
  let newPath := disk.newPath target
  match disk.createNew, binary, disk.sync, disk.closeNew, disk.commitBinary with
  | .error e, _, _, _, _ => .error ("creating " ++ newPath ++ ": " ++ e)
  | .ok (), .error e, _, _, _ => .error ("writing " ++ newPath ++ ": " ++ e)
  | .ok (), .ok _, .error e, _, _ => .error ("flushing " ++ newPath ++ ": " ++ e)
  | .ok (), .ok _, .ok (), .error e, _ => .error ("closing " ++ newPath ++ ": " ++ e)
  | .ok (), .ok _, .ok (), .ok (), .error e => .error e
  | .ok (), .ok b, .ok (), .ok (), .ok () => .ok b

def isAgentEntry (f : ZipEntry B) : Bool :=
  f.name == "senhub-agent" || f.name == "senhub-agent.exe"

/-- The archive is opened and the binary of its first fitting entry applied. -/
def applyArchive (target : String) (archive : B) : Except String B :=
  match libs.openZip archive with
  | .error e => .error ("opening update archive as zip: " ++ e)
  | .ok files =>
    match files.find? isAgentEntry with
    | none => .error ("update archive does not contain senhub-agent binary; found entries: [" ++
        " ".intercalate (files.map (·.name)) ++ "]")
    | some entry =>
      match entry.opened with
      | .error e => .error ("opening binary entry inside archive: " ++ e)
      | .ok content =>
        match applyBinary disk content target with
        | .error e => .error ("failed to apply update: " ++ e)
        | .ok binary => .ok binary

def unsafeScheme (url : String) : String :=
  "unsafe URL scheme - only HTTPS URLs are allowed: " ++ url

/-- `none` for a dry run. -/
def doUpdate (downloadURL : String) : Web B (Except String (Option (Installed B))) := do
  if agent.dryRun then return .ok none
  else if !startsWith "https://" downloadURL then return .error (unsafeScheme downloadURL)
  else
    match disk.executable with
    | .error e => return .error ("locating the running executable: " ++ e)
    | .ok target =>
      match disk.createTemp with
      | .error e => return .error ("creating the update archive next to " ++ target ++ ": " ++ e)
      | .ok archivePath =>
        let notWritten := "writing update archive to " ++ archivePath ++ ": "
        match ← downloadArchive libs disk downloadURL, disk.closeArchive with
        | .error e, _ => return .error (notWritten ++ e)
        | .ok _, .error e => return .error (notWritten ++ e)
        | .ok archive, .ok () =>
          if libs.web.size archive > maxArchiveSize then
            return .error ("update archive too large (> " ++ toString maxArchiveSize ++ " bytes)")
          else if libs.web.size archive < minArchiveSize then
            return .error ("update archive too small: " ++ toString (libs.web.size archive) ++
              " bytes (expected at least 1MB)")
          else
            match ← fetchSignature libs (downloadURL ++ ".minisig") with
            | .error e => return .error ("update REJECTED — signature unavailable: " ++ e)
            | .ok signature =>
              match verifyArchiveFile libs disk agent archive signature with
              | .error e => return .error ("update REJECTED — " ++ e)
              | .ok () =>
                match applyArchive libs disk target archive with
                | .error e => return .error e
                | .ok binary => return .ok (some (.binary downloadURL archive binary))

def maxMSISize : Nat := 200 * 1024 * 1024
def minMSISize : Nat := 1 * 1024 * 1024

/-- The installer is staged and launched. -/
def launchMsi (url : String) (body : B) : Except String (Option (Installed B)) :=
  match disk.stageDir, disk.stageFile, disk.launchInstaller with
  | .error e, _, _ => .error ("staging MSI update: " ++ e)
  | .ok (), .error e, _ => .error ("staging MSI: " ++ e)
  | .ok (), .ok (), .error e => .error ("launching msiexec: " ++ e)
  | .ok (), .ok (), .ok () => .ok (some (.msi url body))

def applyMsiUpdate (msiURL : String) : Web B (Except String (Option (Installed B))) := do
  if agent.dryRun then return .ok none
  else if !startsWith "https://" msiURL then return .error (unsafeScheme msiURL)
  else
    match ← Session.get msiURL with
    | .error e => return .error ("downloading MSI: " ++ e)
    | .ok resp =>
      if resp.statusCode ≠ 200 then return .error (httpError "downloading MSI" msiURL resp)
      else if isErrorPage resp.contentType then
        return .error ("invalid content type for MSI download: " ++ resp.contentType ++
          " (expected msi/octet-stream, from " ++ msiURL ++ ")")
      else
        match limitRead libs (maxMSISize + 1) resp with
        | (_, some e) => return .error ("reading MSI body: " ++ e)
        | (body, none) =>
          if libs.web.size body > maxMSISize then
            return .error ("MSI too large (> " ++ toString maxMSISize ++ " bytes)")
          else if libs.web.size body < minMSISize then
            return .error ("MSI too small: " ++ toString (libs.web.size body) ++
              " bytes (expected at least " ++ toString minMSISize ++ ")")
          else
            match ← fetchSignature libs (msiURL ++ ".minisig") with
            | .error e => return .error ("update REJECTED — MSI signature unavailable: " ++ e)
            | .ok sig =>
              match verifyArchiveSignature libs agent body sig with
              | .error e => return .error ("update REJECTED — verifying MSI signature: " ++ e)
              | .ok () => return launchMsi disk msiURL body

/-- On Linux only the updater that the operator runs replaces the binary. -/
def selfApplyRefusal : String :=
  if agent.operatorDriven || agent.goos != "linux" then ""
  else "A newer version is available. The agent does not install it itself on Linux: " ++
    "the binary is root-owned so the service account cannot rewrite it. " ++
    "Apply it with 'sudo senhub-agent update', or through the package manager once " ++
    "packages are available."

/-- The end of `Update` for what the applying part returned. -/
def Outcome.ofApplied (expected : String) : Except String (Option (Installed B)) → Outcome B
  | .error e => ⟨expected, false, some e, none⟩
  | .ok installed => ⟨expected, true, none, installed⟩

/-- The part of `Update` that fetches and applies the version it decided on. -/
def applyVersion (registry expected : String) : Web B (Outcome B) := do
  if agent.isMsiManaged then
    -- there is no MSI of a beta
    if isBetaVersion expected then return ⟨expected, false, none, none⟩
    else
      match getMsiUrl libs agent registry expected with
      | .error e => return ⟨expected, false, some e, none⟩
      | .ok msiURL => return .ofApplied expected (← applyMsiUpdate libs disk agent msiURL)
  else
    match getBinaryUrl libs agent registry expected with
    | .error e => return ⟨expected, false, some e, none⟩
    | .ok binaryUrl =>
      if selfApplyRefusal agent ≠ "" then return ⟨expected, false, none, none⟩
      else return .ofApplied expected (← doUpdate libs disk agent binaryUrl)

def update (expectedVersionStr registry : String) : Web B (Outcome B) := do
  let expected ← getExpectedVersion libs.web libs.vers agent.version agent.includeBeta
    expectedVersionStr (getRegistryUrl libs.web registry)
  if expected = "" ∨ expected = agent.version then return ⟨expected, false, none, none⟩
  else
    match shouldUpdateTo libs.vers agent.version expected with
    | .error _ => return ⟨expected, false, none, none⟩
    | .ok false => return ⟨expected, false, none, none⟩
    | .ok true => applyVersion libs disk agent registry expected

end

end SenhubAgent.AutoUpdate

import SenhubAgent.Config.ProbeConfig
import SenhubAgent.Lib.AssocMap

/-!
# The sensor: which probes run

`SyncConfiguration` makes the running pollers follow the configuration. It decides first
which blocks are wanted (the first block of every valid name, when enabled), then stops the
pollers no wanted block has the identity of, and last starts a poller for every wanted block
none has the identity of. A start that fails is recorded and tried again by
`retryFailedProbesOnce`.

Mirroring notes:
- A poller carries the block it was built from and the governance block it was last given.
  One whose probe says it should not start is kept among the started ones, as in the source.
- What the sensor finds at a call (the probe types of the build, the licence checks, whether
  a constructor or a start fails) is a `World`, one for each call.
- Stopping a poller can only be reported to fail; it is dropped either way.
- `range` over `failedProbes` follows the order of the map's entries.
- The lock makes every call one step. Logging and the published counters are left out.
-/

namespace SenhubAgent.Sensor

open SenhubAgent.Lib SenhubAgent.Config

/-- An error of a start; `credentialsRejected` is `errors.Is(err, ErrCredentialsRejected)`. -/
structure StartError where
  reason : String
  credentialsRejected : Bool

/-- The error wrapped in a text. -/
def StartError.wrap (text : String) (e : StartError) : StartError :=
  { e with reason := text ++ e.reason }

structure Validator (L : Type) where
  validateLicense : String → Except String L
  /-- of a token, an agent key and the licence of the token -/
  verifyBinding : String → String → L → Bool
  isExpired : L → Bool
  isInGracePeriod : L → Bool
  isProbeAuthorized : Option L → String → Bool

/-- What the sensor finds at a call. -/
structure World (L : Type) where
  licenseValidator : Option (Validator L)
  /-- `LookupProbeConstructor` finds the type -/
  isRegistered : String → Bool
  notInThisBuild : String → String
  freeTierProbes : List String
  /-- `strconv.Quote` -/
  quote : String → String
  /-- the constructor of the block's type, on its params -/
  construct : ProbeConfig → Except StartError Unit
  /-- the probe's own `ShouldStart`; a host without Wi-Fi says no to its probe -/
  shouldStart : ProbeConfig → Bool
  /-- the poller's `scheduler.Start` -/
  schedule : ProbeConfig → Except StartError Unit

/-- `ProbePoller.Start`. A probe that should not start has a poller all the same, which never
ticks. -/
def World.start {L : Type} (w : World L) (p : ProbeConfig) : Except StartError Unit :=
  if w.shouldStart p then w.schedule p else .ok ()

structure Poller (H : Type) where
  probeId : H
  config : ProbeConfig
  governance : Params

structure FailedProbe where
  config : ProbeConfig
  reason : String
  noRetry : Bool

structure State (H L : Type) where
  startedProbes : List (Poller H)
  failedProbes : AssocMap H FailedProbe
  /-- a wake is buffered for the retry loop -/
  retryWake : Bool
  license : Option L

structure Configuration where
  probes : List ProbeConfig
  /-- `Agent.License` -/
  license : String
  authenticationKey : String

section

variable {H L : Type} [DecidableEq H] (hasher : Hasher H)

/-! ## Licence -/

/-- The licence after a look at the configured token: one that is there stays. -/
def revalidate (w : World L) (config : Configuration) (lic : Option L) : Option L :=
  match lic, w.licenseValidator with
  | some lic, _ => some lic
  | none, none => none
  | none, some v =>
    if config.license = "" then none
    else
      match v.validateLicense config.license with
      | .error _ => none
      | .ok lic =>
        if config.authenticationKey ≠ "" ∧
            v.verifyBinding config.license config.authenticationKey lic = false then none
        else if v.isExpired lic && !v.isInGracePeriod lic then none
        else some lic

/-! ## Phase 1: what the configuration wants -/

/-- A name that is not valid is blanked, which marks its block for skipping. -/
def blankInvalidName (p : ProbeConfig) : ProbeConfig :=
  if isValidProbeName p.name then p else { p with name := "" }

/-- The accumulators of the loop over the blocks. -/
structure Plan (H : Type) where
  processedNames : List String
  validProbeIds : List H
  toStart : List (H × ProbeConfig)
  started : List (Poller H)

/-- The first poller with the identity takes the governance of the block. -/
def applyGovernance (id : H) (p : ProbeConfig) : List (Poller H) → List (Poller H)
  | [] => []
  | poller :: rest =>
    if poller.probeId = id then { poller with governance := p.governance } :: rest
    else poller :: applyGovernance id p rest

def planBlock (plan : Plan H) (p : ProbeConfig) : Plan H :=
  if p.name = "" then plan
  else if p.name ∈ plan.processedNames then plan
  else if !p.isEnabled then { plan with processedNames := plan.processedNames ++ [p.name] }
  else if plan.started.any (·.probeId = p.id hasher) then
    { plan with
      processedNames := plan.processedNames ++ [p.name]
      validProbeIds := plan.validProbeIds ++ [p.id hasher]
      started := applyGovernance (p.id hasher) p plan.started }
  else
    { plan with
      processedNames := plan.processedNames ++ [p.name]
      validProbeIds := plan.validProbeIds ++ [p.id hasher]
      toStart := plan.toStart ++ [(p.id hasher, p)] }

def planBlocks (started : List (Poller H)) (probes : List ProbeConfig) : Plan H :=
  (probes.map blankInvalidName).foldl (planBlock hasher) ⟨[], [], [], started⟩

/-! ## Starting a probe -/

def newProbePoller (w : World L) (p : ProbeConfig) : Except StartError (Poller H) :=
  if p.type = "" then
    .error ⟨"No constructor for probe " ++ p.name ++ "\nprobe type is empty for probe '" ++
      p.name ++ "' - configuration should be v2 format", false⟩
  else if !w.isRegistered p.type then
    .error ⟨"No constructor for probe " ++ p.name ++ "\nunknown probe type: " ++ p.type ++
      " (probe name: " ++ p.name ++ ")", false⟩
  else
    match w.construct p with
    | .error e => .error (e.wrap ("unable to start probe " ++ p.name ++ ": "))
    | .ok () => .ok ⟨p.id hasher, p, p.governance⟩

/-- The licence check of a start. -/
def authorize (w : World L) (lic : Option L) (probeType : String) : Except StartError Unit :=
  match w.licenseValidator with
  | none =>
    if probeType ∈ w.freeTierProbes then .ok ()
    else .error ⟨"probe " ++ w.quote probeType ++ " requires a valid license validator", false⟩
  | some v =>
    if v.isProbeAuthorized lic probeType then .ok ()
    else .error ⟨"probe " ++ w.quote probeType ++ " requires a valid license", false⟩

def startProbe (w : World L) (s : State H L) (p : ProbeConfig) : Except StartError (State H L) :=
  if s.startedProbes.any (·.probeId = p.id hasher) then .ok s
  else
    let probeType := if p.type = "" then p.name else p.type
    if !w.isRegistered probeType then .error ⟨w.notInThisBuild probeType, false⟩
    else
      match authorize w s.license probeType with
      | .error e => .error e
      | .ok () =>
        match newProbePoller hasher w p with
        | .error e => .error (e.wrap "Failed to create probe poller: ")
        | .ok poller =>
          match w.start p with
          | .error e => .error e
          | .ok () => .ok { s with startedProbes := s.startedProbes ++ [poller] }

/-! ## The whole call -/

/-- Phase 3, one block: a failure is recorded, a success clears the record. -/
def startPending (w : World L) (s : State H L) (pending : H × ProbeConfig) : State H L :=
  match startProbe hasher w s pending.2 with
  | .error e =>
    { s with
      failedProbes :=
        s.failedProbes.insert pending.1 ⟨pending.2, e.reason, e.credentialsRejected⟩
      retryWake := s.retryWake || !e.credentialsRejected }
  | .ok s' => { s' with failedProbes := s'.failedProbes.erase pending.1 }

def syncConfiguration (w : World L) (config : Configuration) (s : State H L) : State H L :=
  let plan := planBlocks hasher s.startedProbes config.probes
  let kept : State H L :=
    { s with
      license := revalidate w config s.license
      startedProbes := plan.started.filter (·.probeId ∈ plan.validProbeIds) }
  let started := plan.toStart.foldl (startPending hasher w) kept
  { started with
    failedProbes := eraseWhere (fun id _ => id ∉ plan.validProbeIds)
      started.failedProbes.keys started.failedProbes }

/-! ## Retries -/

def retryProbe (w : World L) (s : State H L) (id : H) (f : FailedProbe) : State H L :=
  if f.noRetry then s
  else
    match startProbe hasher w s f.config with
    | .ok s' => { s' with failedProbes := s'.failedProbes.erase id }
    | .error e =>
      if e.reason ≠ f.reason then
        { s with
          failedProbes := s.failedProbes.insert id ⟨f.config, e.reason, e.credentialsRejected⟩ }
      else s

def retryFailedProbesOnce (w : World L) (s : State H L) : State H L :=
  s.failedProbes.entries.foldl (fun s entry => retryProbe hasher w s entry.1 entry.2) s

def shutdown (s : State H L) : State H L := { s with startedProbes := [] }

/-! ## Runs -/

/-- The calls that change what runs. -/
inductive Call (L : Type)
  | sync (w : World L) (config : Configuration)
  | retry (w : World L)
  | shutdown

def step (s : State H L) : Call L → State H L
  | .sync w config => syncConfiguration hasher w config s
  | .retry w => retryFailedProbesOnce hasher w s
  | .shutdown => Sensor.shutdown s

/-- A new sensor. -/
def init (lic : Option L) : State H L := ⟨[], ∅, false, lic⟩

/-- The sensor after a sequence of calls. -/
def run (lic : Option L) (calls : List (Call L)) : State H L :=
  calls.foldl (step hasher) (init lic)

end

end SenhubAgent.Sensor

import SenhubAgent.Lib.Text
import SenhubAgent.Sensor.Stop
import SenhubAgent.Time

/-!
# The licence in force

A paid probe starts only under a licence. The sensor validates the configured token when it
is made and, as long as no licence is in force, at every sync; the first token that passes
stays in force until the agent restarts. So what is known when a paid probe starts is about
the moment that token was accepted:

> `paid_start_licensed`: a started paid probe is listed by the first accepted token, which
> was signed, bound to the agent key of its configuration and live when it was accepted. A
> token that had expired by then is still in its grace period at the start.

Mirroring notes:
- The JWT package parses a token and checks its signature against the embedded key; both are
  parameters. That only RS256 is let through is the agent's own check.
- A call reads the clock once.
- Without a validator (the key did not load) only the free tier starts.
-/

namespace SenhubAgent.Sensor

open SenhubAgent.Lib SenhubAgent.Config

/-! ## The validator -/

structure LicenseClaims where
  authorizedProbes : List String
  /-- the `exp` claim -/
  expiresAt : Option Instant
  subject : String

/-- A token whose signature is not checked yet. -/
structure Unverified where
  /-- the signing method is one of RSA -/
  isRSA : Bool
  alg : String
  claims : LicenseClaims

/-- The JWT package with the embedded key. -/
structure Jwt where
  parseUnverified : String → Except String Unverified
  /-- the signature is that of the embedded key -/
  verifies : String → Bool

structure License where
  authorizedProbes : List String
  expiresAt : Instant
  subject : String
  isExpired : Bool

def gracePeriodDays : Nat := 7

/-- The grace period. -/
def gracePeriod : Duration := gracePeriodDays * 24 * 3600 * 1000000000

def legacyCompactPrefix : String := "SH-"

def looksLikeLegacyCompactLicense (token : String) : Bool :=
  startsWith legacyCompactPrefix (trimSpace token)

/-- `jwt.ParseWithClaims` with the key function of the agent, without validation of the
claims. -/
def Jwt.parseWithClaims (jwt : Jwt) (token : String) : Except String LicenseClaims :=
  match jwt.parseUnverified token with
  | .error e => .error e
  | .ok t =>
    if !t.isRSA || t.alg ≠ "RS256" then
      .error ("unexpected signing method: " ++ t.alg ++ ", expected RS256")
    else if !jwt.verifies token then .error "token signature is invalid"
    else .ok t.claims

/-- A token without an `exp` claim expired at the zero time. -/
def LicenseClaims.expiry (claims : LicenseClaims) : Instant := claims.expiresAt.getD zeroTime

def Jwt.validateLicense (jwt : Jwt) (now : Instant) (token : String) : Except String License :=
  if looksLikeLegacyCompactLicense token then
    .error ("legacy compact (SH-XXXX) license is no longer supported; " ++
      "re-issue a JWT license (see docs/LICENSE-SYSTEM.md)")
  else
    match jwt.parseWithClaims token with
    | .error e => .error ("failed to parse token: " ++ e)
    | .ok claims =>
      .ok ⟨claims.authorizedProbes, claims.expiry, claims.subject, decide (claims.expiry < now)⟩

def License.isInGracePeriod (now : Instant) (lic : License) : Bool :=
  lic.isExpired && decide (now < lic.expiresAt + gracePeriod)

def freeTierProbes : List String :=
  ["apache", "activemq", "cpu", "memory", "logicaldisk", "network", "linux_logs",
   "windows_eventlog", "filetail", "kubernetes_logs", "kubelet_stats", "dns_latency",
   "http_check", "icmp_check", "snmp_poll", "snmp_trap", "tcp_dial", "otlp_receiver", "event",
   "prometheus_scrape", "exec", "syslog", "nginx", "haproxy", "varnish", "phpfpm", "wildfly",
   "mongodb", "kafka", "rabbitmq", "nats", "pulsar", "consul", "zookeeper", "envoy", "ceph",
   "jenkins", "mysql", "postgresql", "cassandra", "couchdb", "clickhouse", "elasticsearch",
   "opensearch", "solr", "influxdb", "memcached", "hyperv", "proxmox", "chrony", "ntp", "smart",
   "ipmi", "nvidia", "oracle", "process", "unifi", "winservices", "systemd", "kubernetes",
   "modbus", "mssql", "tomcat", "docker", "swarm", "redis", "wifi_signal_strength", "os_updates"]

def License.isProbeAuthorized (now : Instant) (lic : Option License) (probeName : String) : Bool :=
  if probeName ∈ freeTierProbes then true
  else
    match lic with
    | none => false
    | some lic =>
      if lic.isExpired && !lic.isInGracePeriod now then false
      else lic.authorizedProbes.any fun probe => probe == probeName || probe == "*"

/-- The shape of an agent key: hexadecimal groups of 8, 4, 4, 4 and 12. -/
def subjectIsAgentKey (subject : String) : Bool :=
  let groups := subject.toList.splitOn '-'
  groups.map List.length == [8, 4, 4, 4, 12] &&
    groups.all fun group => group.all fun c =>
      c.isDigit || ('a' ≤ c && c ≤ 'f') || ('A' ≤ c && c ≤ 'F')

def verifyBinding (agentKey subject : String) : Bool :=
  if subject = "" then true
  else if subjectIsAgentKey subject then subject == agentKey
  else true

def Jwt.validator (jwt : Jwt) (now : Instant) : Validator License where
  validateLicense := jwt.validateLicense now
  verifyBinding := fun _ agentKey lic => verifyBinding agentKey lic.subject
  isExpired := License.isExpired
  isInGracePeriod := License.isInGracePeriod now
  isProbeAuthorized := License.isProbeAuthorized now

/-! ## Runs on a clock -/

/-- A moment of the run: the clock, the configuration, and what a start finds. -/
structure Moment where
  now : Instant
  config : Configuration
  site : World License

/-- What the sensor finds at the moment; `jwt` is missing when the key did not load. -/
def Moment.world (jwt : Option Jwt) (m : Moment) : World License :=
  { m.site with
    licenseValidator := jwt.map fun jwt => jwt.validator m.now
    freeTierProbes := freeTierProbes }

/-- The licence of `NewSensor`. -/
def newSensorLicense {L : Type} (w : World L) (config : Configuration) : Option L :=
  match w.licenseValidator with
  | none => none
  | some v =>
    if config.license = "" then none
    else
      match v.validateLicense config.license with
      | .error _ => none
      | .ok lic =>
        if config.authenticationKey ≠ "" ∧
            v.verifyBinding config.license config.authenticationKey lic = false then none
        else if v.isExpired lic then
          if v.isInGracePeriod lic then some lic else none
        else some lic

inductive Event
  | sync (m : Moment)
  | retry (m : Moment)
  | shutdown

def Event.call (jwt : Option Jwt) : Event → Call License
  | .sync m => .sync (m.world jwt) m.config
  | .retry m => .retry (m.world jwt)
  | .shutdown => .shutdown

/-- The sensor made at `first`, after the events. -/
def sensorAfter {H : Type} [DecidableEq H] (hasher : Hasher H) (jwt : Option Jwt) (first : Moment)
    (events : List Event) : State H License :=
  run hasher (newSensorLicense (first.world jwt) first.config) (events.map (Event.call jwt))

/-- The moments at which a sync looked at the configured token. -/
def syncMoments : List Event → List Moment
  | [] => []
  | .sync m :: events => m :: syncMoments events
  | _ :: events => syncMoments events

/-! ## What a token says -/

/-- The claims of a signed token. -/
def Jwt.signedClaims (jwt : Jwt) (token : String) : Option LicenseClaims :=
  (jwt.parseWithClaims token).toOption

/-- The claims allow a probe type on the agent at a moment. -/
structure LicenseClaims.Allow (claims : LicenseClaims) (agentKey : String) (now : Instant)
    (probeType : String) : Prop where
  bound : agentKey ≠ "" → verifyBinding agentKey claims.subject = true
  live : now ≤ claims.expiry ∨ now < claims.expiry + gracePeriod
  listed : probeType ∈ claims.authorizedProbes ∨ "*" ∈ claims.authorizedProbes

/-- The token that a moment's configuration holds would be accepted then. -/
def accept (jwt : Option Jwt) (m : Moment) : Option License :=
  newSensorLicense (m.world jwt) m.config

/-! ## The first token that passes stays -/

/-- A sync mirrors the constructor as long as no licence is in force. -/
theorem revalidate_none {L : Type} (w : World L) (config : Configuration) :
    revalidate w config none = newSensorLicense w config := by
  unfold revalidate newSensorLicense
  cases w.licenseValidator with
  | none => rfl
  | some v =>
    dsimp only
    split
    · rfl
    cases v.validateLicense config.license with
    | error e => rfl
    | ok lic =>
      dsimp only
      split
      · rfl
      cases v.isExpired lic <;> cases v.isInGracePeriod lic <;> rfl

theorem revalidate_eq {L : Type} (w : World L) (config : Configuration) (lic : Option L) :
    revalidate w config lic = lic.or (newSensorLicense w config) := by
  cases lic with
  | none => exact revalidate_none w config
  | some lic => rfl

section

variable {H : Type} [DecidableEq H] {hasher : Hasher H}

variable {L : Type} {w : World L} {p : Poller H}

theorem syncConfiguration_license (w : World L) (config : Configuration) (s : State H L) :
    (syncConfiguration hasher w config s).license = revalidate w config s.license := by
  have hfold : ∀ (pending : List (H × ProbeConfig)) (s : State H L),
      (pending.foldl (startPending hasher w) s).license = s.license := by
    intro pending
    induction pending with
    | nil => intro s; rfl
    | cons p pending ih =>
      intro s
      rw [List.foldl_cons, ih, startPending_license]
  exact hfold _ _

theorem retryFailedProbesOnce_license (w : World L) (s : State H L) :
    (retryFailedProbesOnce hasher w s).license = s.license := by
  unfold retryFailedProbesOnce
  generalize s.failedProbes.entries = entries
  induction entries generalizing s with
  | nil => rfl
  | cons e entries ih => rw [List.foldl_cons, ih, retryProbe_license]

theorem syncMoments_append (events events' : List Event) :
    syncMoments (events ++ events') = syncMoments events ++ syncMoments events' := by
  induction events with
  | nil => rfl
  | cons e events ih =>
    cases e with
    | sync m => rw [List.cons_append, syncMoments, syncMoments, ih, List.cons_append]
    | retry m => exact ih
    | shutdown => exact ih

variable (jwt : Option Jwt) (first : Moment) (events : List Event)

theorem sensorAfter_append (e : Event) :
    sensorAfter hasher jwt first (events ++ [e]) =
      step hasher (sensorAfter hasher jwt first events) (e.call jwt) := by
  unfold sensorAfter run
  rw [List.map_append, List.foldl_append]
  rfl

/-- The licence in force is that of the first moment whose token passed. -/
theorem sensorAfter_license :
    (sensorAfter hasher jwt first events).license =
      (first :: syncMoments events).findSome? (accept jwt) := by
  induction events using List.reverseRecOn with
  | nil =>
    show accept jwt first = _
    rw [syncMoments, List.findSome?_cons]
    cases accept jwt first <;> rfl
  | append_singleton events e ih =>
    rw [sensorAfter_append, syncMoments_append, ← List.cons_append, List.findSome?_append, ← ih]
    cases e with
    | sync m =>
      show (syncConfiguration hasher (m.world jwt) m.config _).license = _
      rw [syncConfiguration_license, revalidate_eq, syncMoments, syncMoments, List.findSome?_cons]
      show Option.or _ (accept jwt m) = _
      cases accept jwt m <;> rfl
    | retry m =>
      show (retryFailedProbesOnce hasher (m.world jwt) _).license = _
      rw [retryFailedProbesOnce_license]
      simp [syncMoments]
    | shutdown => simp [syncMoments, Event.call, step, shutdown]

/-! ## What a start was allowed by -/

omit [DecidableEq H] in
/-- Every poller of a loop was there, or could be started. -/
theorem foldl_origin {α : Type} {f : State H L → α → State H L}
    (hlicense : ∀ s x, (f s x).license = s.license)
    (hstep : ∀ s x, ∀ p ∈ (f s x).startedProbes,
      p ∈ s.startedProbes ∨ Startable w s.license p.config) :
    ∀ (xs : List α) (s : State H L), ∀ p ∈ (xs.foldl f s).startedProbes,
      p ∈ s.startedProbes ∨ Startable w s.license p.config := by
  intro xs
  induction xs with
  | nil => intro s p hp; exact .inl hp
  | cons x xs ih =>
    intro s p hp
    rcases ih (f s x) p hp with hp | hp
    · exact hstep s x p hp
    · exact .inr (by rwa [hlicense] at hp)

theorem startProbe_origin {s s' : State H L} {b : ProbeConfig}
    (h : startProbe hasher w s b = .ok s') :
    ∀ p ∈ s'.startedProbes, p ∈ s.startedProbes ∨ Startable w s.license p.config := by
  intro p hp
  obtain ⟨rfl, -⟩ | ⟨-, hable, rfl⟩ := startProbe_ok h
  · exact .inl hp
  · rcases List.mem_append.mp hp with hp | hp
    · exact .inl hp
    · rw [List.mem_singleton.mp hp]
      exact .inr hable

theorem startPending_origin (w : World L) (s : State H L) (pending : H × ProbeConfig) :
    ∀ p ∈ (startPending hasher w s pending).startedProbes,
      p ∈ s.startedProbes ∨ Startable w s.license p.config := by
  unfold startPending
  split
  · exact fun p hp => .inl hp
  next s' hs' => exact fun p hp => startProbe_origin hs' p hp

theorem retryProbe_origin (w : World L) (s : State H L) (id : H) (f : FailedProbe) :
    ∀ p ∈ (retryProbe hasher w s id f).startedProbes,
      p ∈ s.startedProbes ∨ Startable w s.license p.config := by
  unfold retryProbe
  split
  · exact fun p hp => .inl hp
  split
  next s' hs' => exact fun p hp => startProbe_origin hs' p hp
  split
  · exact fun p hp => .inl hp
  · exact fun p hp => .inl hp

theorem mem_newPollers {before after : State H L} :
    p ∈ newPollers before after ↔
      p ∈ after.startedProbes ∧ ∀ q ∈ before.startedProbes, q.probeId ≠ p.probeId := by
  simp [newPollers]

/-- What a sync starts could be started under the licence it left. -/
theorem sync_startable (w : World L) (config : Configuration) (s : State H L)
    (hp : p ∈ newPollers s (syncConfiguration hasher w config s)) :
    Startable w (syncConfiguration hasher w config s).license p.config := by
  obtain ⟨hafter, hnew⟩ := mem_newPollers.mp hp
  have hplan : PlanSpec hasher _ _ _ := foldl_planBlock (config.probes.map blankInvalidName)
    ⟨[], [], [], s.startedProbes⟩
  rw [syncConfiguration_license]
  rcases foldl_origin (startPending_license w) (startPending_origin w) _ _ p hafter with hkept | hable
  · -- the pollers kept are those that ran
    have hin : p ∈ (planBlocks hasher s.startedProbes config.probes).started :=
      (List.mem_filter.mp hkept).1
    obtain ⟨q, hq, hid, -⟩ := mem_of_key hplan.keys hin
    exact absurd hid (hnew q hq)
  · exact hable

theorem retry_startable (w : World L) (s : State H L)
    (hp : p ∈ newPollers s (retryFailedProbesOnce hasher w s)) :
    Startable w s.license p.config := by
  obtain ⟨hafter, hnew⟩ := mem_newPollers.mp hp
  rcases foldl_origin (fun s (f : (_ : H) × FailedProbe) => retryProbe_license w s f.1 f.2)
    (fun s f => retryProbe_origin w s f.1 f.2) _ _ p hafter with hkept | hable
  · exact absurd rfl (hnew p hkept)
  · exact hable

/-- What a start finds at an event is what could be started under the licence in force. -/
theorem event_startable {e : Event} {m : Moment} (he : e = .sync m ∨ e = .retry m)
    (hp : p ∈ newPollers (sensorAfter hasher jwt first events)
      (sensorAfter hasher jwt first (events ++ [e]))) :
    Startable (m.world jwt) (sensorAfter hasher jwt first (events ++ [e])).license p.config := by
  rw [sensorAfter_append] at hp ⊢
  rcases he with rfl | rfl
  · exact sync_startable (m.world jwt) m.config _ hp
  · have hable := retry_startable (m.world jwt) _ hp
    show Startable _ (retryFailedProbesOnce hasher (m.world jwt) _).license p.config
    rwa [retryFailedProbesOnce_license]

end

/-- What is known of an accepted token. -/
structure Accepted (key : Jwt) (m : Moment) (claims : LicenseClaims) (lic : License) : Prop where
  signed : key.signedClaims m.config.license = some claims
  license : lic =
    ⟨claims.authorizedProbes, claims.expiry, claims.subject, decide (claims.expiry < m.now)⟩
  bound : m.config.authenticationKey ≠ "" →
    verifyBinding m.config.authenticationKey claims.subject = true
  live : m.now ≤ claims.expiry ∨ m.now < claims.expiry + gracePeriod

variable {key : Jwt} {lic : License} {m : Moment}

theorem validateLicense_ok {now : Instant} {token : String}
    (h : key.validateLicense now token = .ok lic) :
    ∃ claims, key.signedClaims token = some claims ∧
      lic = ⟨claims.authorizedProbes, claims.expiry, claims.subject,
        decide (claims.expiry < now)⟩ := by
  unfold Jwt.validateLicense at h
  split at h
  · cases h
  split at h
  · cases h
  next claims hclaims =>
  cases h
  exact ⟨claims, by rw [Jwt.signedClaims, hclaims]; rfl, rfl⟩

theorem accept_some {jwt : Option Jwt} (h : accept jwt m = some lic) :
    ∃ key claims, jwt = some key ∧ Accepted key m claims lic := by
  unfold accept newSensorLicense at h
  cases jwt with
  | none => cases h
  | some key =>
    simp only [Moment.world, Option.map_some, Jwt.validator] at h
    split at h
    · cases h
    split at h
    · cases h
    next lic' hlic =>
    obtain ⟨claims, hsigned, hlicense⟩ := validateLicense_ok hlic
    split at h
    · cases h
    next hbound =>
    refine ⟨key, claims, rfl, ?_⟩
    have hbinding : m.config.authenticationKey ≠ "" →
        verifyBinding m.config.authenticationKey claims.subject = true := by
      intro hkey
      by_contra hloose
      refine hbound ⟨hkey, ?_⟩
      rw [hlicense]
      exact Bool.eq_false_iff.mpr hloose
    split at h
    next hexpired =>
      split at h
      next hgrace =>
        cases h
        refine ⟨hsigned, hlicense, hbinding, .inr ?_⟩
        rw [hlicense] at hgrace
        simp only [License.isInGracePeriod, Bool.and_eq_true, decide_eq_true_eq] at hgrace
        exact hgrace.2
      next => cases h
    next hfresh =>
      cases h
      refine ⟨hsigned, hlicense, hbinding, .inl ?_⟩
      rw [hlicense] at hfresh
      simpa using hfresh

/-- A paid probe is authorised by a licence that lists it and, if it had expired when it was
accepted, is in its grace period. -/
theorem authorized_paid {lic : Option License} {probeType : String}
    (hpaid : probeType ∉ freeTierProbes)
    (h : authorize (m.world (some key)) lic probeType = .ok ()) :
    ∃ l, lic = some l ∧ (l.isExpired = true → m.now < l.expiresAt + gracePeriod) ∧
      (probeType ∈ l.authorizedProbes ∨ "*" ∈ l.authorizedProbes) := by
  simp only [authorize, Moment.world, Option.map_some, Jwt.validator] at h
  split at h
  next hauth =>
    unfold License.isProbeAuthorized at hauth
    rw [if_neg hpaid] at hauth
    cases lic with
    | none => cases hauth
    | some l =>
      dsimp only at hauth
      split at hauth
      · cases hauth
      next hlive =>
      refine ⟨l, rfl, fun hexpired => ?_, ?_⟩
      · simpa [hexpired, License.isInGracePeriod] using hlive
      · obtain ⟨probe, hprobe, hname⟩ := List.any_eq_true.mp hauth
        simp only [Bool.or_eq_true, beq_iff_eq] at hname
        rcases hname with rfl | rfl
        · exact .inl hprobe
        · exact .inr hprobe
  next => cases h

/-- **A paid probe starts under the first accepted token only.** -/
theorem paid_start_licensed {H : Type} [DecidableEq H] (hasher : Hasher H) (jwt : Option Jwt)
    (first : Moment) (events : List Event) (e : Event) (m : Moment)
    (he : e = .sync m ∨ e = .retry m) (p : Poller H)
    (hp : p ∈ newPollers (sensorAfter hasher jwt first events)
      (sensorAfter hasher jwt first (events ++ [e])))
    (hpaid : p.config.type ∉ freeTierProbes) :
    ∃ key earlier accepted later claims, jwt = some key ∧
      first :: syncMoments (events ++ [e]) = earlier ++ accepted :: later ∧
      (∀ m' ∈ earlier, accept jwt m' = none) ∧
      key.signedClaims accepted.config.license = some claims ∧
      claims.Allow accepted.config.authenticationKey accepted.now p.config.type ∧
      (claims.expiry < accepted.now → m.now < claims.expiry + gracePeriod) := by
  have hable := event_startable jwt first events he hp
  cases jwt with
  | none =>
    -- without a validator only the free tier is let through
    have hauth := hable.authorized
    have hrefused : ∀ lic, ∃ reason, authorize (m.world none) lic p.config.type = .error reason :=
      fun lic => ⟨_, if_neg hpaid⟩
    obtain ⟨reason, hreason⟩ := hrefused (sensorAfter hasher none first (events ++ [e])).license
    rw [hreason] at hauth
    cases hauth
  | some key =>
    obtain ⟨lic, hlic, hgrace, hlisted⟩ := authorized_paid hpaid hable.authorized
    rw [sensorAfter_license] at hlic
    obtain ⟨earlier, accepted, later, hmoments, haccept, hearlier⟩ :=
      List.findSome?_eq_some_iff.mp hlic
    obtain ⟨key', claims, hkey, htoken⟩ := accept_some haccept
    cases hkey
    rw [htoken.license] at hgrace hlisted
    refine ⟨key, earlier, accepted, later, claims, rfl, hmoments, hearlier, htoken.signed,
      ⟨htoken.bound, htoken.live, hlisted⟩, fun hexpired => ?_⟩
    exact hgrace (decide_eq_true hexpired)

/-! ## A licence that is taken away

The token `pro` lists `citrix` until the hundredth nanosecond. It is configured when the
sensor is made. -/

def proClaims : LicenseClaims := ⟨["citrix"], some 100, "client1"⟩

def proKey : Jwt where
  parseUnverified := fun token =>
    if token = "pro" then .ok ⟨true, "RS256", proClaims⟩ else .error "token is malformed"
  verifies := fun _ => true

/-- A build that carries every probe type, and starts it. -/
def fullBuild : World License where
  licenseValidator := none
  isRegistered := fun _ => true
  notInThisBuild := fun probeType => "unknown probe type " ++ probeType
  freeTierProbes := []
  quote := fun text => "\"" ++ text ++ "\""
  construct := fun _ => .ok ()
  shouldStart := fun _ => true
  schedule := fun _ => .ok ()

def citrixBlock : ProbeConfig := ⟨"farm", "citrix", noParams, noParams, none, []⟩

/-- The agent with a token and a list of probes, at a moment. -/
def licensedAt (now : Instant) (token : String) (probes : List ProbeConfig) : Moment :=
  ⟨now, ⟨probes, token, "agent-1"⟩, fullBuild⟩

def citrixPoller : Poller (List Char) :=
  ⟨citrixBlock.id textHasher, citrixBlock, citrixBlock.governance⟩

/-- The configured token is the one in force. -/
theorem citrix_licensed : ∃ key earlier accepted later claims, some proKey = some key ∧
    licensedAt 0 "pro" [] :: syncMoments ([] ++ [.sync (licensedAt 1 "pro" [citrixBlock])]) =
      earlier ++ accepted :: later ∧
    (∀ m' ∈ earlier, accept (some proKey) m' = none) ∧
    key.signedClaims accepted.config.license = some claims ∧
    claims.Allow accepted.config.authenticationKey accepted.now citrixPoller.config.type ∧
    (claims.expiry < accepted.now → (1 : Instant) < claims.expiry + gracePeriod) :=
  paid_start_licensed textHasher (some proKey) (licensedAt 0 "pro" []) []
    (.sync (licensedAt 1 "pro" [citrixBlock])) (licensedAt 1 "pro" [citrixBlock]) (.inl rfl)
    citrixPoller (List.mem_singleton.mpr rfl) (by decide)

/-- The token is removed from the configuration in the edit that adds the probe, which starts
all the same. -/
theorem citrix_starts_unlicensed :
    citrixPoller ∈ newPollers (sensorAfter textHasher (some proKey) (licensedAt 0 "pro" []) [])
      (sensorAfter textHasher (some proKey) (licensedAt 0 "pro" [])
        [.sync (licensedAt 1 "" [citrixBlock])]) ∧
    citrixPoller.config.type ∉ freeTierProbes ∧
    ¬ ∃ claims, proKey.signedClaims (licensedAt 1 "" [citrixBlock]).config.license = some claims ∧
      claims.Allow "agent-1" 1 citrixPoller.config.type := by
  refine ⟨List.mem_singleton.mpr rfl, by decide, ?_⟩
  rintro ⟨claims, hsigned, -⟩
  cases hsigned

end SenhubAgent.Sensor

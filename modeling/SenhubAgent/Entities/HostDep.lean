import Mathlib.Data.List.Induction
import Mathlib.Data.List.Nodup
import SenhubAgent.Entities.Observation
import SenhubAgent.Lib.Debounce
import SenhubAgent.Lib.Latest

/-!
# The dependencies of a host

`hostdep.go` reads the socket table on each cycle and reports which services of the host depend on
which endpoints. A peer of a service is debounced: its edge is in the observation once the peer was
seen `threshold` times, until it has been out of sight for more than `forgetAfter` scrapes. Scrapes
that fail, or see no owner of any socket, count for nothing.

Over any run the counters of a peer are those of a debounced sighting (`run_tracks`), so a peer is
counted as the history says. Peers are told apart by the text of their address, but endpoints by
what the SDK makes of it: `10.0.0.1` and `::ffff:10.0.0.1` are two peers and one endpoint. Both
edges are then the same relation, which stands in the observation twice when both are earned, and
once when only one is. The result (`debounced_iff`) says that this is all that goes wrong.

Mirroring notes:
- What is read for a scrape (`Table`) is given: the sockets, the names and start times of processes,
  the id of the host, and in which order Go ranges over the map. `none` is a failed read.
- The tests on an address and `emit.DependsOnLocalEndpoint` are parameters (`Env`); of the identity
  that it returns only that it has the port is used.
- A port is a number here; the source has its decimal text, which `Atoi` always reads.
- The callback for a blind scrape is left out.
-/

namespace SenhubAgent.Entities.HostDep

open SenhubAgent.Lib

inductive ConnStatus where
  | listen | established | other
  deriving DecidableEq

structure ConnectionStat where
  status : ConnStatus
  laddrPort : Nat
  raddrIP : String
  raddrPort : Nat
  pid : Int

structure PeerKey where
  svcID : String
  addr : String
  port : Nat
  deriving DecidableEq

/-- The dependent and the peer it depends on. -/
structure Dependant where
  svcID : String
  svcName : String
  addr : String
  port : Nat
  foundation : Bool

def Dependant.key (d : Dependant) : PeerKey := ⟨d.svcID, d.addr, d.port⟩

/-- How often a peer was seen, and how long it has been out of sight. -/
structure StreakState where
  hits : Nat
  misses : Nat
  dep : Dependant

structure NameEntry where
  createTime : Int
  name : String

structure Env where
  resolvablePeer : String → Bool
  excluded : String → Bool
  loopbackPeer : String → Bool
  /-- the identity of the endpoint at an address and port, seen from a host -/
  targetID : String → Nat → String → AttrMap
  port_of_targetID : ∀ {addr addr' port port' hostID},
    targetID addr port hostID = targetID addr' port' hostID → port = port'
  /-- how `%v` prints a number with a fraction -/
  formatFloat : Float → String

/-- What a scrape reads. -/
structure Table where
  connections : Option (List ConnectionStat)
  hostID : String
  procName : Int → String
  procCreated : Int → Option Int
  agentID : String
  selfPID : Int
  ephemeral : Nat × Nat
  resolveForPID : Int → String → String → Option String
  /-- the order of a range over the map -/
  range : AssocMap PeerKey StreakState → List StreakState
  range_perm : ∀ m, (range m).Perm (m.entries.map (·.2))

structure Source where
  threshold : Nat
  streak : AssocMap PeerKey StreakState
  nameLRU : AssocMap Int NameEntry

def defaultThreshold : Nat := 3

def new (threshold : Int) : Source where
  threshold := if threshold < 1 then defaultThreshold else threshold.toNat
  streak := ∅
  nameLRU := ∅

/-! ## Reading the sockets -/

/-- The name of a process, from the cache while its start time is the same. -/
def cachedName (t : Table) (pid : Int) (priorLRU nextLRU : AssocMap Int NameEntry) :
    String × AssocMap Int NameEntry :=
  match nextLRU.lookup pid with
  | some e => (e.name, nextLRU)
  | none =>
    match t.procCreated pid with
    | none => (t.procName pid, nextLRU)
    | some created =>
      match (priorLRU.lookup pid).filter fun e => e.createTime == created with
      | some e => (e.name, nextLRU.insert pid e)
      | none => (t.procName pid, nextLRU.insert pid ⟨created, t.procName pid⟩)

structure Scraped where
  nameCache : AssocMap Int String
  nextLRU : AssocMap Int NameEntry
  out : List Dependant
  unattributable : Nat

/-- The sockets that are somebody's dependency. -/
def isOutbound (env : Env) (t : Table) (conns : List ConnectionStat) (c : ConnectionStat) : Bool :=
  c.status = .established ∧ ¬conns.any (fun l => l.status = .listen ∧ l.laddrPort = c.laddrPort)
    ∧ env.resolvablePeer c.raddrIP ∧ c.raddrPort ≠ 0 ∧ ¬env.excluded c.raddrIP
    ∧ ¬(env.loopbackPeer c.raddrIP ∧ t.ephemeral.1 ≤ c.raddrPort ∧ c.raddrPort ≤ t.ephemeral.2)

/-- The dependent of a socket whose owner has this name. -/
def dependantOf (t : Table) (c : ConnectionStat) (name : String) : Option Dependant :=
  if c.pid = t.selfPID ∧ t.agentID ≠ "" then
    some ⟨t.agentID, name, c.raddrIP, c.raddrPort, true⟩
  else if name ≠ "" then
    -- another agent on this host is the node it reports itself as
    match if c.pid ≠ t.selfPID then t.resolveForPID c.pid name t.agentID else none with
    | some id => some ⟨id, "senhub-agent", c.raddrIP, c.raddrPort, false⟩
    | none => some ⟨name ++ "@" ++ t.hostID, name, c.raddrIP, c.raddrPort, false⟩
  else none

def scrapeConn (env : Env) (t : Table) (conns : List ConnectionStat)
    (priorLRU : AssocMap Int NameEntry) (s : Scraped) (c : ConnectionStat) : Scraped :=
  if isOutbound env t conns c then
    let (name, nameCache, nextLRU) :=
      match s.nameCache.lookup c.pid with
      | some name => (name, s.nameCache, s.nextLRU)
      | none =>
        let (name, nextLRU) := cachedName t c.pid priorLRU s.nextLRU
        (name, s.nameCache.insert c.pid name, nextLRU)
    match dependantOf t c name with
    | some d => ⟨nameCache, nextLRU, s.out ++ [d], s.unattributable⟩
    | none => ⟨nameCache, nextLRU, s.out, s.unattributable + 1⟩
  else s

/-- The dependants that one socket table shows. -/
def scrape (env : Env) (t : Table) (conns : List ConnectionStat)
    (priorLRU : AssocMap Int NameEntry) : Scraped :=
  conns.foldl (scrapeConn env t conns priorLRU) ⟨∅, ∅, [], 0⟩

def hasAttributableDependant (deps : List Dependant) : Bool := deps.any fun d => !d.foundation

/-! ## Counting -/

def earnWindow : Nat := 15

def forgetAfter (s : Source) : Nat := if s.threshold > earnWindow then s.threshold else earnWindow

/-- A peer in sight gains a hit; one out of sight too long is forgotten. -/
def advanceStreaks (s : Source) (deps : List Dependant) : AssocMap PeerKey StreakState :=
  let seen := insertAll ∅ (deps.map fun d => (d.key, d))
  let kept := s.streak.entries.filterMap fun e =>
    (if (seen.lookup e.1).isSome then none
      else if e.2.misses + 1 > forgetAfter s then none
      else some { e.2 with misses := e.2.misses + 1 }).map (e.1, ·)
  let hit := seen.entries.filterMap fun e =>
    (some (StreakState.mk (min (((s.streak.lookup e.1).map StreakState.hits).getD 0 + 1) s.threshold)
      0 e.2)).map (e.1, ·)
  insertAll (insertAll ∅ kept) hit

/-! ## Reporting -/

def serviceID (svcID : String) : AttrMap := .single "service.instance.id" (.string svcID)

def node (type : String) (id attributes : AttrMap) : Observed where
  type := type
  id := id
  attributes := attributes
  relationships := []
  scope := ""
  observedAt := zeroTime
  cadence := 0

def runsOn (svcID hostID : String) : Relation where
  type := "runs_on"
  fromType := "service.instance"
  fromID := serviceID svcID
  toType := "host"
  toID := .single "host.id" (.string hostID)
  attributes := .empty

/-- The edge of a peer. -/
def dependsOn (env : Env) (hostID : String) (k : PeerKey) : Relation where
  type := "depends_on"
  fromType := "service.instance"
  fromID := serviceID k.svcID
  toType := "network.endpoint"
  toID := env.targetID k.addr k.port hostID
  attributes := .empty

/-- `%v` of a value of a map -/
def anyString (env : Env) : Option Scalar → String
  | none => "<nil>"
  | some v => scalarString env.formatFloat v

def epDedup (env : Env) (epID : AttrMap) (port : Nat) : String :=
  anyString env (epID.get? "host.id") ++ "|" ++ anyString env (epID.get? "server.address") ++ ":"
    ++ toString port ++ "/tcp"

/-- An observation in the making, and which nodes it has already. -/
structure Building where
  entities : List Observed
  relations : List Relation
  svcDone : List String
  epDone : List String

def Building.service (hostID : String) (d : Dependant) (b : Building) : Building :=
  if d.svcID ∈ b.svcDone then b
  else if d.foundation then { b with svcDone := d.svcID :: b.svcDone }
  else
    { b with
      svcDone := d.svcID :: b.svcDone
      entities := b.entities
        ++ [node "service.instance" (serviceID d.svcID) (.single "service.name" (.string d.svcName))]
      relations := b.relations ++ [runsOn d.svcID hostID] }

def Building.endpoint (env : Env) (hostID : String) (d : Dependant) (b : Building) : Building :=
  let epID := env.targetID d.addr d.port hostID
  if epDedup env epID d.port ∈ b.epDone then b
  else
    { b with
      epDone := epDedup env epID d.port :: b.epDone
      entities := b.entities ++ [node "network.endpoint" epID .empty] }

def Building.edge (env : Env) (hostID : String) (d : Dependant) (b : Building) : Building :=
  { b with relations := b.relations ++ [dependsOn env hostID d.key] }

/-- One turn of the loop. -/
def Building.add (env : Env) (threshold : Nat) (hostID : String) (b : Building) (st : StreakState) :
    Building :=
  if st.hits < threshold then b
  else ((b.service hostID st.dep).endpoint env hostID st.dep).edge env hostID st.dep

/-- The earned edges with the nodes they need. -/
def buildObservation (env : Env) (streak : List StreakState) (threshold : Nat) (hostID : String) :
    Observation :=
  let b := streak.foldl (Building.add env threshold hostID) ⟨[], [], [], []⟩
  ⟨b.entities, b.relations⟩

def withScope (scope : String) (o : Observation) : Observation :=
  { o with entities := o.entities.map fun e => if e.scope = "" then { e with scope := scope } else e }

/-! ## A cycle, and a run of them -/

/-- What a scrape saw, unless it failed or was blind. -/
def seenBy (env : Env) (s : Source) (t : Table) : Option (List Dependant) :=
  match t.connections with
  | none => none
  | some conns =>
    if t.hostID = "" then none
    else
      let scraped := scrape env t conns s.nameLRU
      if scraped.unattributable > 0 ∧ ¬hasAttributableDependant scraped.out then none
      else some scraped.out

/-- The names that are kept: also a blind scrape has read them. -/
def namesAfter (env : Env) (s : Source) (t : Table) : AssocMap Int NameEntry :=
  match t.connections with
  | none => s.nameLRU
  | some conns => if t.hostID = "" then s.nameLRU else (scrape env t conns s.nameLRU).nextLRU

/-- One cycle; a scrape that counts for nothing yields no observation. -/
def observe (env : Env) (s : Source) (t : Table) : Source × Option Observation :=
  match seenBy env s t with
  | none => ({ s with nameLRU := namesAfter env s t }, none)
  | some deps =>
    let next := advanceStreaks s deps
    ({ s with streak := next, nameLRU := namesAfter env s t },
      some (withScope "senhub-agent/host-dep"
        (buildObservation env (t.range next) s.threshold t.hostID)))

/-- The source after a run of cycles, the newest first. -/
def run (env : Env) (s : Source) : List Table → Source
  | [] => s
  | t :: earlier => (observe env (run env s earlier) t).1

/-- What the scrapes of a run saw that count, the newest first. -/
def history (env : Env) (s : Source) : List Table → List (List Dependant)
  | [] => []
  | t :: earlier => (seenBy env (run env s earlier) t).toList ++ history env s earlier

/-- For each scrape whether it saw the peer. -/
def looks (k : PeerKey) (h : List (List Dependant)) : List Bool :=
  h.map fun deps => deps.any fun d => d.key = k

/-- The peers a run has seen. -/
def Met (h : List (List Dependant)) (k : PeerKey) : Prop := ∃ deps ∈ h, ∃ d ∈ deps, d.key = k

def identity (e : Observed) : String × AttrMap := (e.type, e.id)

/-- The observation has the edges of the peers that the history says, and nothing twice. -/
def Debounced (env : Env) (s : Source) (hostID : String) (h : List (List Dependant))
    (obs : Observation) : Prop :=
  (∀ k, Met h k → (dependsOn env hostID k ∈ obs.relations
      ↔ Earned s.threshold (max 15 s.threshold) (looks k h)))
    ∧ (obs.entities.map identity).Nodup ∧ obs.relations.Nodup

/-! ## The counters over a run -/

section

variable {env : Env} {s : Source} {t : Table} {deps : List Dependant} {k : PeerKey}

theorem mem_of_latest_key {d : Dependant}
    (h : latest k (deps.map fun d => (d.key, d)) = some d) : d ∈ deps ∧ d.key = k := by
  rw [← List.filterMap_eq_map, latest_filterMap_eq_some_iff] at h
  obtain ⟨before, d', after, heq, hd, -⟩ := h
  cases hd
  exact ⟨by rw [heq]; simp, rfl⟩

theorem isSome_latest_key :
    (latest k (deps.map fun d => (d.key, d))).isSome = deps.any fun d => d.key = k := by
  rw [Bool.eq_iff_iff, Option.isSome_iff_exists, List.any_eq_true]
  constructor
  · rintro ⟨d, hd⟩
    obtain ⟨hmem, hkey⟩ := mem_of_latest_key hd
    exact ⟨d, hmem, decide_eq_true hkey⟩
  · rintro ⟨d, hd, hkey⟩
    rw [← Option.ne_none_iff_exists']
    intro hnone
    exact latest_eq_none_iff.mp hnone _ (List.mem_map_of_mem hd) (of_decide_eq_true hkey)

/-- A peer that was seen gains a hit, any other a miss. -/
theorem lookup_advanceStreaks : (advanceStreaks s deps).lookup k
    = match latest k (deps.map fun d => (d.key, d)) with
      | some d => some ⟨min (((s.streak.lookup k).map StreakState.hits).getD 0 + 1) s.threshold, 0, d⟩
      | none => (s.streak.lookup k).bind fun st =>
        if st.misses + 1 > forgetAfter s then none else some { st with misses := st.misses + 1 } := by
  have hseen : ∀ k, (insertAll ∅ (deps.map fun d => (d.key, d))).lookup k
      = latest k (deps.map fun d => (d.key, d)) := by
    intro k
    rw [lookup_insertAll, AList.lookup_empty, Option.or_none]
  have hhit := latest_entries (insertAll ∅ (deps.map fun d => (d.key, d)))
    (fun k d => some (StreakState.mk
      (min (((s.streak.lookup k).map StreakState.hits).getD 0 + 1) s.threshold) 0 d)) k
  have hkept := latest_entries s.streak (fun k st =>
    if ((insertAll ∅ (deps.map fun d => (d.key, d))).lookup k).isSome then none
      else if st.misses + 1 > forgetAfter s then none
      else some { st with misses := st.misses + 1 }) k
  rw [hseen] at hhit
  simp only [hseen] at hkept
  unfold advanceStreaks
  simp only [hseen]
  rw [lookup_insertAll, lookup_insertAll, AList.lookup_empty, Option.or_none, hhit, hkept]
  cases latest k (deps.map fun d => (d.key, d)) with
  | some d => rfl
  | none => simp

/-- The two counters of a peer. -/
def counters (s : Source) (k : PeerKey) : Option Streak :=
  (s.streak.lookup k).map fun st => ⟨st.hits, st.misses⟩

/-- The counters are those of the history, and each is kept with a sighting of its own peer. -/
structure Tracks (s : Source) (h : List (List Dependant)) : Prop where
  counters_eq : ∀ k, counters s k = streakOf s.threshold (forgetAfter s) (looks k h)
  key_eq : ∀ {k st}, s.streak.lookup k = some st → st.dep.key = k

theorem Tracks.advance {h : List (List Dependant)} (htracks : Tracks s h) {names : AssocMap Int NameEntry} :
    Tracks { s with streak := advanceStreaks s deps, nameLRU := names } (deps :: h) := by
  constructor
  · intro k
    have hlooks : looks k (deps :: h)
        = (latest k (deps.map fun d => (d.key, d))).isSome :: looks k h := by
      rw [isSome_latest_key]
      rfl
    show ((advanceStreaks s deps).lookup k).map _ = streakOf s.threshold (forgetAfter s) _
    rw [hlooks, streakOf, ← htracks.counters_eq k, lookup_advanceStreaks]
    cases latest k (deps.map fun d => (d.key, d)) with
    | some d => cases hst : s.streak.lookup k <;> simp [counters, hst, Lib.advance]
    | none =>
      cases hst : s.streak.lookup k with
      | none => simp [counters, hst, Lib.advance]
      | some st =>
        simp only [counters, hst, Lib.advance, Option.map_some, Option.bind_some, Option.isSome_none]
        split <;> rfl
  · intro k st hst
    have hlookup : (advanceStreaks s deps).lookup k = some st := hst
    rw [lookup_advanceStreaks] at hlookup
    split at hlookup
    next d hd =>
      cases hlookup
      exact (mem_of_latest_key hd).2
    next =>
      obtain ⟨st', hst', hnext⟩ := Option.bind_eq_some_iff.mp hlookup
      split at hnext
      · cases hnext
      · have hkey := htracks.key_eq hst'
        cases hnext
        exact hkey

theorem threshold_run (tables : List Table) : (run env s tables).threshold = s.threshold := by
  induction tables with
  | nil => rfl
  | cons t earlier ih =>
    rw [← ih, run, observe]
    split <;> rfl

/-- Over a whole run the counters say what the history says. -/
theorem run_tracks (hnew : s.streak = ∅) (tables : List Table) :
    Tracks (run env s tables) (history env s tables) := by
  induction tables with
  | nil =>
    constructor
    · intro k
      simp [run, history, counters, hnew, looks, streakOf]
    · intro k st hst
      simp [run, hnew] at hst
  | cons t earlier ih =>
    rw [run, history, observe]
    cases seenBy env (run env s earlier) t with
    | none => exact ⟨ih.counters_eq, ih.key_eq⟩
    | some deps => exact ih.advance

end

/-! ## What is reported -/

section

variable {env : Env} {hostID : String} {threshold : Nat}

theorem serviceID_injective {svcID svcID' : String} (h : serviceID svcID = serviceID svcID') :
    svcID = svcID' := by
  simpa [serviceID, AttrMap.single] using h

def isDependsOn (r : Relation) : Bool := r.type = "depends_on"

/-- What the loop has built after the peers with these edges. -/
structure Built (env : Env) (hostID : String) (edges : List Relation) (b : Building) : Prop where
  entities_nodup : (b.entities.map identity).Nodup
  entities_known : ∀ e ∈ b.entities,
    (∃ svcID ∈ b.svcDone, identity e = ("service.instance", serviceID svcID))
      ∨ ∃ addr port, identity e = ("network.endpoint", env.targetID addr port hostID)
        ∧ epDedup env (env.targetID addr port hostID) port ∈ b.epDone
  edges_eq : b.relations.filter isDependsOn = edges
  runsOn_nodup : (b.relations.filter fun r => !isDependsOn r).Nodup
  runsOn_known : ∀ r ∈ b.relations.filter fun r => !isDependsOn r,
    ∃ svcID ∈ b.svcDone, r = runsOn svcID hostID

theorem nodup_snoc {α : Type} {l : List α} {a : α} (hl : l.Nodup) (ha : a ∉ l) : (l ++ [a]).Nodup :=
  List.concat_eq_append ▸ (List.nodup_concat l a).mpr ⟨ha, hl⟩

variable {b : Building} {edges : List Relation}

theorem Built.service (h : Built env hostID edges b) (d : Dependant) :
    Built env hostID edges (b.service hostID d) := by
  have hmore : ∀ {e}, e ∈ b.entities →
      (∃ svcID ∈ d.svcID :: b.svcDone, identity e = ("service.instance", serviceID svcID))
      ∨ ∃ addr port, identity e = ("network.endpoint", env.targetID addr port hostID)
        ∧ epDedup env (env.targetID addr port hostID) port ∈ b.epDone := by
    intro e he
    exact (h.entities_known e he).imp_left fun ⟨svcID, hmem, hid⟩ =>
      ⟨svcID, List.mem_cons_of_mem _ hmem, hid⟩
  have hruns : ∀ r ∈ b.relations.filter fun r => !isDependsOn r,
      ∃ svcID ∈ d.svcID :: b.svcDone, r = runsOn svcID hostID := by
    intro r hr
    obtain ⟨svcID, hmem, hrel⟩ := h.runsOn_known r hr
    exact ⟨svcID, List.mem_cons_of_mem _ hmem, hrel⟩
  have hfilter : [runsOn d.svcID hostID].filter isDependsOn = [] := rfl
  have hfilter' : ([runsOn d.svcID hostID].filter fun r => !isDependsOn r)
      = [runsOn d.svcID hostID] := rfl
  unfold Building.service
  split
  · exact h
  next hfresh =>
    split
    · exact ⟨h.entities_nodup, fun e he => hmore he, h.edges_eq, h.runsOn_nodup, hruns⟩
    · constructor
      · rw [List.map_append]
        refine nodup_snoc h.entities_nodup fun hmem => ?_
        obtain ⟨e, he, hid⟩ := List.mem_map.mp hmem
        rcases h.entities_known e he with ⟨svcID, hdone, hid'⟩ | ⟨addr, port, hid', -⟩
        · have hsame := congrArg Prod.snd (hid.symm.trans hid')
          exact hfresh (serviceID_injective hsame ▸ hdone)
        · have htype : "service.instance" = "network.endpoint" :=
            congrArg Prod.fst (hid.symm.trans hid')
          exact absurd htype (by decide)
      · intro e he
        rcases List.mem_append.mp he with he | he
        · exact hmore he
        · rw [List.mem_singleton.mp he]
          exact .inl ⟨d.svcID, List.mem_cons_self, rfl⟩
      · rw [List.filter_append, hfilter, List.append_nil, h.edges_eq]
      · rw [List.filter_append, hfilter']
        refine nodup_snoc h.runsOn_nodup fun hmem => ?_
        obtain ⟨svcID, hdone, hrel⟩ := h.runsOn_known _ hmem
        exact hfresh (serviceID_injective (congrArg Relation.fromID hrel) ▸ hdone)
      · rw [List.filter_append, hfilter']
        intro r hr
        rcases List.mem_append.mp hr with hr | hr
        · exact hruns r hr
        · exact ⟨d.svcID, List.mem_cons_self, List.mem_singleton.mp hr⟩

theorem Built.endpoint (h : Built env hostID edges b) (d : Dependant) :
    Built env hostID edges (b.endpoint env hostID d) := by
  unfold Building.endpoint
  dsimp only
  split
  · exact h
  next hfresh =>
    refine ⟨?_, ?_, h.edges_eq, h.runsOn_nodup, h.runsOn_known⟩
    · rw [List.map_append]
      refine nodup_snoc h.entities_nodup fun hmem => ?_
      obtain ⟨e, he, hid⟩ := List.mem_map.mp hmem
      rcases h.entities_known e he with ⟨svcID, -, hid'⟩ | ⟨addr, port, hid', hdone⟩
      · have htype : "network.endpoint" = "service.instance" :=
          congrArg Prod.fst (hid.symm.trans hid')
        exact absurd htype (by decide)
      · -- the same identity has the same port, so the same key
        have hsame : env.targetID d.addr d.port hostID = env.targetID addr port hostID :=
          congrArg Prod.snd (hid.symm.trans hid')
        rw [hsame, env.port_of_targetID hsame] at hfresh
        exact hfresh hdone
    · intro e he
      rcases List.mem_append.mp he with he | he
      · exact (h.entities_known e he).imp_right fun ⟨addr, port, hid, hdone⟩ =>
          ⟨addr, port, hid, List.mem_cons_of_mem _ hdone⟩
      · rw [List.mem_singleton.mp he]
        exact .inr ⟨d.addr, d.port, rfl, List.mem_cons_self⟩

theorem Built.edge (h : Built env hostID edges b) (d : Dependant) :
    Built env hostID (edges ++ [dependsOn env hostID d.key]) (b.edge env hostID d) := by
  have hpos : isDependsOn (dependsOn env hostID d.key) = true := rfl
  refine ⟨h.entities_nodup, h.entities_known, ?_, ?_, ?_⟩
  · simp [Building.edge, List.filter_append, h.edges_eq, hpos]
  · simpa [Building.edge, List.filter_append, hpos] using h.runsOn_nodup
  · simpa [Building.edge, List.filter_append, hpos] using h.runsOn_known

/-- The edges of the peers that have enough hits. -/
def edgesOf (env : Env) (threshold : Nat) (hostID : String) (streak : List StreakState) :
    List Relation :=
  (streak.filter fun st => threshold ≤ st.hits).map fun st => dependsOn env hostID st.dep.key

theorem built_foldl (streak : List StreakState) :
    Built env hostID (edgesOf env threshold hostID streak)
      (streak.foldl (Building.add env threshold hostID) ⟨[], [], [], []⟩) := by
  induction streak using List.reverseRecOn with
  | nil => exact ⟨List.nodup_nil, nofun, rfl, List.nodup_nil, nofun⟩
  | append_singleton streak st ih =>
    rw [List.foldl_append, List.foldl_cons, List.foldl_nil, Building.add]
    split
    next hlow =>
      have hsame : edgesOf env threshold hostID (streak ++ [st])
          = edgesOf env threshold hostID streak := by
        simp [edgesOf, List.filter_append, Nat.not_le.mpr hlow]
      rw [hsame]
      exact ih
    next hhigh =>
      have hmore : edgesOf env threshold hostID (streak ++ [st])
          = edgesOf env threshold hostID streak ++ [dependsOn env hostID st.dep.key] := by
        simp [edgesOf, List.filter_append, Nat.not_lt.mp hhigh]
      rw [hmore]
      exact ((ih.service st.dep).endpoint st.dep).edge st.dep

theorem Built.nodup_iff (h : Built env hostID edges b) : b.relations.Nodup ↔ edges.Nodup := by
  rw [← (List.filter_append_perm isDependsOn b.relations).nodup_iff, h.edges_eq, List.nodup_append]
  refine ⟨fun hall => hall.1, fun hedges => ⟨hedges, h.runsOn_nodup, fun r hr r' hr' heq => ?_⟩⟩
  rw [← h.edges_eq] at hr
  have hyes := (List.mem_filter.mp hr).2
  have hno := (List.mem_filter.mp hr').2
  rw [← heq, hyes] at hno
  cases hno

theorem Built.dependsOn_mem_iff (h : Built env hostID edges b) (k : PeerKey) :
    dependsOn env hostID k ∈ b.relations ↔ dependsOn env hostID k ∈ edges := by
  rw [← h.edges_eq, List.mem_filter]
  exact (and_iff_left rfl).symm

end

/-! ## The result -/

section

variable {env : Env} {s : Source} {t : Table} {h : List (List Dependant)}

variable {obs : Observation}

theorem observe_eq_some (hobs : (observe env s t).2 = some obs) :
    ∃ b, Built env t.hostID
        (edgesOf env s.threshold t.hostID (t.range (observe env s t).1.streak)) b
      ∧ obs.relations = b.relations ∧ obs.entities.map identity = b.entities.map identity := by
  unfold observe at hobs ⊢
  cases hseen : seenBy env s t with
  | none =>
    rw [hseen] at hobs
    cases hobs
  | some deps =>
    rw [hseen] at hobs
    cases hobs
    refine ⟨_, built_foldl _, rfl, ?_⟩
    simp only [withScope, List.map_map]
    refine List.map_congr_left fun e _ => ?_
    show identity (if e.scope = "" then _ else e) = identity e
    split <;> rfl

/-- The peers with enough hits, in the order of the range. -/
theorem Tracks.asserted (htracks : Tracks s h) (env : Env) (t : Table) (hpos : 0 < s.threshold) :
    ∃ peers : List PeerKey, peers.Nodup
      ∧ (∀ k, k ∈ peers ↔ Earned s.threshold (forgetAfter s) (looks k h))
      ∧ edgesOf env s.threshold t.hostID (t.range s.streak) = peers.map (dependsOn env t.hostID) := by
  have hkeys : ((t.range s.streak).map fun st => st.dep.key).Perm s.streak.keys := by
    have hperm := (t.range_perm s.streak).map fun st => st.dep.key
    rw [List.map_map] at hperm
    refine hperm.trans (List.Perm.of_eq (List.map_congr_left fun e he => ?_))
    exact htracks.key_eq (AList.mem_lookup_iff.mpr he)
  have hmem : ∀ st, st ∈ t.range s.streak ↔ s.streak.lookup st.dep.key = some st := by
    intro st
    rw [(t.range_perm s.streak).mem_iff, List.mem_map]
    constructor
    · rintro ⟨e, he, rfl⟩
      have hlookup := Option.mem_def.mp (AList.mem_lookup_iff.mpr he)
      rwa [htracks.key_eq hlookup]
    · intro hlookup
      exact ⟨⟨st.dep.key, st⟩, AList.mem_lookup_iff.mp hlookup, rfl⟩
  refine ⟨((t.range s.streak).filter fun st => s.threshold ≤ st.hits).map fun st => st.dep.key,
    ?_, fun k => ?_, ?_⟩
  · exact (hkeys.nodup_iff.mpr s.streak.nodupKeys).sublist (List.filter_sublist.map _)
  · rw [← asserted_iff hpos, ← htracks.counters_eq k, List.mem_map]
    constructor
    · rintro ⟨st, hst, rfl⟩
      obtain ⟨hrange, hhits⟩ := List.mem_filter.mp hst
      refine ⟨⟨st.hits, st.misses⟩, ?_, of_decide_eq_true hhits⟩
      rw [counters, (hmem st).mp hrange]
      rfl
    · rintro ⟨streak, hcounters, hhits⟩
      obtain ⟨st, hlookup, rfl⟩ := Option.map_eq_some_iff.mp hcounters
      have hkey := htracks.key_eq hlookup
      refine ⟨st, List.mem_filter.mpr ⟨(hmem st).mpr (by rwa [hkey]), decide_eq_true hhits⟩, hkey⟩
  · rw [edgesOf, List.map_map]
    rfl

theorem forgetAfter_eq (s : Source) : forgetAfter s = max 15 s.threshold := by
  unfold forgetAfter earnWindow
  split <;> omega

theorem met_of_earned {k : PeerKey} {threshold window : Nat} (hpos : 0 < threshold)
    (hearned : Earned threshold window (looks k h)) : Met h k := by
  obtain ⟨deps, hdeps, hany⟩ := List.mem_map.mp (hearned.seen hpos)
  obtain ⟨d, hd, hkey⟩ := List.any_eq_true.mp hany
  exact ⟨deps, hdeps, d, hd, of_decide_eq_true hkey⟩

theorem threshold_pos (threshold : Int) : 0 < (new threshold).threshold := by
  show 0 < if threshold < 1 then defaultThreshold else threshold.toNat
  split
  · exact Nat.zero_lt_succ _
  · omega

/-- What an observation has of the peers that have earned it. -/
structure Reports (env : Env) (hostID : String) (peers : List PeerKey) (obs : Observation) : Prop where
  peers_nodup : peers.Nodup
  edge_iff : ∀ k, dependsOn env hostID k ∈ obs.relations
    ↔ ∃ k' ∈ peers, dependsOn env hostID k' = dependsOn env hostID k
  entities_nodup : (obs.entities.map identity).Nodup
  relations_nodup_iff : obs.relations.Nodup
    ↔ ∀ k ∈ peers, ∀ k' ∈ peers, dependsOn env hostID k = dependsOn env hostID k' → k = k'

theorem exists_reports {threshold : Int} {earlier : List Table}
    (hobs : (observe env (run env (new threshold) earlier) t).2 = some obs) :
    ∃ peers, Reports env t.hostID peers obs
      ∧ ∀ k, k ∈ peers ↔ Earned (new threshold).threshold (max 15 (new threshold).threshold)
        (looks k (history env (new threshold) (t :: earlier))) := by
  obtain ⟨b, hbuilt, hrelations, hentities⟩ := observe_eq_some hobs
  have hthreshold : (run env (new threshold) (t :: earlier)).threshold = (new threshold).threshold :=
    threshold_run _
  have htracks : Tracks (run env (new threshold) (t :: earlier)) _ := run_tracks rfl (t :: earlier)
  have hpos : 0 < (run env (new threshold) (t :: earlier)).threshold := by
    rw [hthreshold]
    exact threshold_pos threshold
  obtain ⟨peers, hnodup, hearned, hedges⟩ := htracks.asserted env t hpos
  rw [forgetAfter_eq, hthreshold] at hearned
  rw [hthreshold] at hedges
  rw [threshold_run] at hbuilt
  have hbuilt' : Built env t.hostID (peers.map (dependsOn env t.hostID)) b := hedges ▸ hbuilt
  refine ⟨peers, ⟨hnodup, fun k => ?_, ?_, ?_⟩, hearned⟩
  · rw [hrelations, hbuilt'.dependsOn_mem_iff, List.mem_map]
  · rw [hentities]
    exact hbuilt'.entities_nodup
  · rw [hrelations, hbuilt'.nodup_iff, List.nodup_map_iff_inj_on hnodup]

end

/-- After any run, a scrape that counts reports the peers the history says and nothing twice, exactly
when no peer that is to be reported has its endpoint in common with another peer of the run. -/
theorem debounced_iff (env : Env) (threshold : Int) (earlier : List Table) (t : Table)
    {obs : Observation}
    (hobs : (observe env (run env (new threshold) earlier) t).2 = some obs) :
    Debounced env (new threshold) t.hostID (history env (new threshold) (t :: earlier)) obs
      ↔ ∀ k k', Met (history env (new threshold) (t :: earlier)) k →
        Earned (new threshold).threshold (max 15 (new threshold).threshold)
          (looks k' (history env (new threshold) (t :: earlier))) →
        dependsOn env t.hostID k = dependsOn env t.hostID k' → k = k' := by
  obtain ⟨peers, hreports, hpeers⟩ := exists_reports hobs
  constructor
  · rintro ⟨hedges, -, hnodup⟩ k k' hmet hearned hsame
    have hin : dependsOn env t.hostID k ∈ obs.relations :=
      (hreports.edge_iff k).mpr ⟨k', (hpeers k').mpr hearned, hsame.symm⟩
    have hearned' := (hedges k hmet).mp hin
    exact hreports.relations_nodup_iff.mp hnodup k ((hpeers k).mpr hearned') k'
      ((hpeers k').mpr hearned) hsame
  · intro hdistinct
    refine ⟨fun k hmet => ?_, hreports.entities_nodup, hreports.relations_nodup_iff.mpr ?_⟩
    · rw [hreports.edge_iff]
      constructor
      · rintro ⟨k', hk', hsame⟩
        have hearned := (hpeers k').mp hk'
        rwa [hdistinct k k' hmet hearned hsame.symm]
      · intro hearned
        exact ⟨k, (hpeers k).mpr hearned, rfl⟩
    · intro k hk k' hk' hsame
      exact hdistinct k k' (met_of_earned (threshold_pos threshold) ((hpeers k).mp hk))
        ((hpeers k').mp hk') hsame

/-- A host that unmaps one address. -/
def sampleEnv : Env where
  resolvablePeer _ := true
  excluded _ := false
  loopbackPeer _ := false
  targetID addr port _ :=
    ⟨[("network.transport", .string "tcp"),
      ("server.address", .string (if addr = "::ffff:10.0.0.1" then "10.0.0.1" else addr)),
      ("server.port", .int port)], by
      show List.Pairwise (· < ·) ["network.transport", "server.address", "server.port"]
      decide⟩
  port_of_targetID := by
    intro addr addr' port port' hostID h
    simp only [AttrMap.mk.injEq, List.cons.injEq, Prod.mk.injEq, Scalar.int.injEq] at h
    omega
  formatFloat _ := ""

/-- One process with a socket to port 443 of each address. -/
def sampleTable (addrs : List String) : Table where
  connections := some (addrs.map fun addr => ⟨.established, 50000, addr, 443, 7⟩)
  hostID := "h1"
  procName _ := "nginx"
  procCreated _ := none
  agentID := ""
  selfPID := 1
  ephemeral := (49152, 65535)
  resolveForPID _ _ _ := none
  range m := m.entries.map (·.2)
  range_perm _ := List.Perm.refl _

/-- Three scrapes see one peer, the fourth does not: its edge is there, once. -/
theorem debounced_one_peer : ∃ obs,
    (observe sampleEnv (run sampleEnv (new 3) (List.replicate 3 (sampleTable ["10.0.0.1"])))
      (sampleTable [])).2 = some obs
    ∧ Debounced sampleEnv (new 3) "h1"
      (history sampleEnv (new 3)
        (sampleTable [] :: List.replicate 3 (sampleTable ["10.0.0.1"]))) obs := by
  have hsome : (observe sampleEnv (run sampleEnv (new 3)
      (List.replicate 3 (sampleTable ["10.0.0.1"]))) (sampleTable [])).2.isSome = true := by
    decide +kernel
  obtain ⟨obs, hobs⟩ := Option.isSome_iff_exists.mp hsome
  have honly : ∀ deps ∈ history sampleEnv (new 3)
      (sampleTable [] :: List.replicate 3 (sampleTable ["10.0.0.1"])), ∀ d ∈ deps,
      d.key = ⟨"nginx@h1", "10.0.0.1", 443⟩ := by
    decide +kernel
  refine ⟨obs, hobs, (debounced_iff sampleEnv 3 _ _ hobs).mpr ?_⟩
  rintro k k' ⟨deps, hdeps, d, hd, rfl⟩ hearned -
  obtain ⟨deps', hdeps', d', hd', rfl⟩ := met_of_earned (threshold_pos 3) hearned
  rw [honly deps hdeps d hd, honly deps' hdeps' d' hd']

/-- Three scrapes see `10.0.0.1` and `::ffff:10.0.0.1`: one relation stands there twice. -/
theorem mapped_peer_twice : ∃ obs,
    (observe sampleEnv
      (run sampleEnv (new 3) (List.replicate 2 (sampleTable ["10.0.0.1", "::ffff:10.0.0.1"])))
      (sampleTable ["10.0.0.1", "::ffff:10.0.0.1"])).2 = some obs
    ∧ ¬Debounced sampleEnv (new 3) "h1"
      (history sampleEnv (new 3)
        (List.replicate 3 (sampleTable ["10.0.0.1", "::ffff:10.0.0.1"]))) obs := by
  have hsome : (observe sampleEnv
      (run sampleEnv (new 3) (List.replicate 2 (sampleTable ["10.0.0.1", "::ffff:10.0.0.1"])))
      (sampleTable ["10.0.0.1", "::ffff:10.0.0.1"])).2.isSome = true := by
    decide +kernel
  obtain ⟨obs, hobs⟩ := Option.isSome_iff_exists.mp hsome
  refine ⟨obs, hobs, fun hdebounced => ?_⟩
  obtain ⟨peers, hreports, hpeers⟩ := exists_reports hobs
  have hearned : ∀ addr ∈ ["10.0.0.1", "::ffff:10.0.0.1"],
      Earned (new 3).threshold (max 15 (new 3).threshold) (looks ⟨"nginx@h1", addr, 443⟩
        (history sampleEnv (new 3)
          (List.replicate 3 (sampleTable ["10.0.0.1", "::ffff:10.0.0.1"])))) := by
    decide +kernel
  have hsame : (⟨"nginx@h1", "10.0.0.1", 443⟩ : PeerKey) = ⟨"nginx@h1", "::ffff:10.0.0.1", 443⟩ :=
    hreports.relations_nodup_iff.mp hdebounced.2.2 _ ((hpeers _).mpr (hearned _ (by simp))) _
      ((hpeers _).mpr (hearned _ (by simp))) rfl
  exact absurd hsame (by decide)

end SenhubAgent.Entities.HostDep

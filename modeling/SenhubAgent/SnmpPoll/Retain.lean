import Mathlib.Data.List.Induction
import SenhubAgent.Entities.Observation
import SenhubAgent.Lib.DistinctBy

/-!
# Devices that answered lately

A discovery run hands the observations of the devices that answered to `retainRecentlySeen`, which
keeps each device for `discoveryMissGrace` runs and publishes what it keeps as one observation. The
counter of misses does what it is for: the devices kept are those that answered in one of the last
`discoveryMissGrace` runs, each with its latest observation (`kept_eq`).

`mergeObservations` takes two entities for one when their keys are equal, and a key is the type and
the identity's pairs in one text, with nothing escaped. So a fact is lost exactly when two
identities have one key (`retained_iff`).

What the run reports to the entity source besides (entities that left unobserved, devices that did
not answer) is left out. Maps are sorted by their keys, which the order of a range does not change.
-/

namespace SenhubAgent.SnmpPoll

open SenhubAgent.Lib SenhubAgent.Entities

def discoveryMissGrace : Nat := 3

/-! ## Merging -/

section Merge

variable (formatFloat : Float → String)

def idMergeKey (id : AttrMap) : String :=
  String.join (id.pairs.map fun p => p.1 ++ "=" ++ scalarString formatFloat p.2 ++ ";")

def entityMergeKey (e : Observed) : String := e.type ++ "|" ++ idMergeKey formatFloat e.id

def relationMergeKey (r : Relation) : String :=
  r.type ++ "|" ++ r.fromType ++ "|" ++ idMergeKey formatFloat r.fromID ++ "|" ++ r.toType ++ "|"
    ++ idMergeKey formatFloat r.toID

def mergeObservations (observations : List Observation) : Observation where
  entities := distinctBy (entityMergeKey formatFloat) [] (observations.flatMap Observation.entities)
  relations := distinctBy (relationMergeKey formatFloat) []
    (observations.flatMap Observation.relations)

end Merge

/-- What an entity is: its type and its identity. -/
def Observed.identity (e : Observed) : String × AttrMap := (e.type, e.id)

/-- What a relation is: its type and its endpoints. -/
def Relation.identity (r : Relation) : String × (String × AttrMap) × (String × AttrMap) :=
  (r.type, (r.fromType, r.fromID), (r.toType, r.toID))

variable {formatFloat : Float → String}

theorem entityMergeKey_congr (e e' : Observed) (h : Observed.identity e = Observed.identity e') :
    entityMergeKey formatFloat e = entityMergeKey formatFloat e' := by
  obtain ⟨htype, hid⟩ := Prod.mk.inj h
  rw [entityMergeKey, entityMergeKey, htype, hid]

theorem relationMergeKey_congr (r r' : Relation) (h : Relation.identity r = Relation.identity r') :
    relationMergeKey formatFloat r = relationMergeKey formatFloat r' := by
  obtain ⟨htype, hends⟩ := Prod.mk.inj h
  obtain ⟨hfrom, hto⟩ := Prod.mk.inj hends
  obtain ⟨hfromType, hfromID⟩ := Prod.mk.inj hfrom
  obtain ⟨htoType, htoID⟩ := Prod.mk.inj hto
  rw [relationMergeKey, relationMergeKey, htype, hfromType, hfromID, htoType, htoID]

/-! ## A run -/

/-- The devices that answered in a run, and when it was. -/
structure Run where
  fresh : List (String × Observation)
  keyed : SortedMap.Keyed fresh
  now : Instant

structure DiscoveredState where
  obs : Observation
  seenAt : Instant
  misses : Nat

def Run.answer (r : Run) (id : String) : Option Observation := SortedMap.get? id r.fresh

/-- The loop over the devices that answered. -/
def Run.refresh (r : Run) (discovered : List (String × DiscoveredState)) :
    List (String × DiscoveredState) :=
  r.fresh.foldl (fun m e => SortedMap.insert e.1 ⟨e.2, r.now, 0⟩ m) discovered

/-- A device in the loop over those that are known: it goes after `discoveryMissGrace` misses. -/
def Run.age (r : Run) (id : String) (st : DiscoveredState) : Option DiscoveredState :=
  match r.answer id with
  | some _ => some st
  | none =>
    let misses := st.misses + 1
    if misses ≥ discoveryMissGrace then none
    -- the time is set below, where the observation is copied
    else some ⟨st.obs, if st.seenAt = zeroTime then r.now else st.seenAt, misses⟩

def stampObservedAt (t : Instant) (obs : Observation) : Observation :=
  { obs with
    entities := obs.entities.map fun e =>
      if e.observedAt = zeroTime then { e with observedAt := t } else e }

/-- What a device adds to the observation: a replayed one keeps its time. -/
def Run.contribution (r : Run) (id : String) (st : DiscoveredState) : Observation :=
  match r.answer id with
  | some _ => st.obs
  | none => stampObservedAt st.seenAt st.obs

def retainRecentlySeen (formatFloat : Float → String) (r : Run)
    (discovered : List (String × DiscoveredState)) :
    List (String × DiscoveredState) × Observation :=
  let kept := SortedMap.filterEntries r.age (r.refresh discovered)
  (kept, kept.foldl (fun merged e =>
    mergeObservations formatFloat [merged, r.contribution e.1 e.2]) ⟨[], []⟩)

/-- The devices known after the runs, newest first. -/
def discoveredAfter (formatFloat : Float → String) : List Run → List (String × DiscoveredState)
  | [] => []
  | r :: earlier => (retainRecentlySeen formatFloat r (discoveredAfter formatFloat earlier)).1

/-! ## The devices kept -/

/-- The latest answer of a device, and how many runs ago it was. -/
def lastAnswer (id : String) : List Run → Option (Observation × Nat)
  | [] => none
  | r :: earlier =>
    match r.answer id with
    | some obs => some (obs, 0)
    | none => (lastAnswer id earlier).map fun a => (a.1, a.2 + 1)

/-- The latest observation of a device that answered in one of the last `discoveryMissGrace` runs. -/
def recentAnswer (id : String) (runs : List Run) : Option Observation :=
  (runs.take discoveryMissGrace).findSome? fun r => r.answer id

theorem findSome?_take_eq (id : String) (runs : List Run) (n : Nat) :
    (runs.take n).findSome? (fun r => r.answer id)
      = ((lastAnswer id runs).filter fun a => a.2 < n).map Prod.fst := by
  induction runs generalizing n with
  | nil => rw [List.take_nil]; rfl
  | cons r earlier ih =>
    cases n with
    | zero => cases lastAnswer id (r :: earlier) <;> rfl
    | succ n =>
      rw [List.take_succ_cons, List.findSome?_cons, lastAnswer]
      cases r.answer id with
      | some obs => simp
      | none =>
        rw [ih]
        cases lastAnswer id earlier with
        | none => rfl
        | some a => simp [Option.filter_some, apply_ite]

theorem refresh_spec (r : Run) {discovered : List (String × DiscoveredState)}
    (h : SortedMap.Keyed discovered) :
    SortedMap.Keyed (r.refresh discovered) ∧
      ∀ id, SortedMap.get? id (r.refresh discovered)
        = ((r.answer id).map fun obs => ⟨obs, r.now, 0⟩).or (SortedMap.get? id discovered) := by
  unfold Run.refresh Run.answer
  have hkeyed := r.keyed
  generalize r.fresh = es at hkeyed
  induction es generalizing discovered with
  | nil => exact ⟨h, fun id => rfl⟩
  | cons e es ih =>
    obtain ⟨hlt, hes⟩ := SortedMap.keyed_cons.mp hkeyed
    obtain ⟨hsorted, hget⟩ := ih (h.insert e.1 ⟨e.2, r.now, 0⟩) hes
    refine ⟨hsorted, fun id => ?_⟩
    rw [List.foldl_cons, hget, SortedMap.get?]
    by_cases hid : e.1 = id
    · subst hid
      rw [if_pos rfl, SortedMap.get?_eq_none fun x hx => (hlt x hx).ne', SortedMap.get?_insert_self]
      rfl
    · rw [if_neg hid, SortedMap.get?_insert_ne hid]

section

variable (formatFloat : Float → String)

variable (runs : List Run)

theorem keyed_discoveredAfter : SortedMap.Keyed (discoveredAfter formatFloat runs) := by
  induction runs with
  | nil => exact SortedMap.keyed_nil
  | cons r earlier ih => exact (refresh_spec r ih).1.filterEntries r.age

theorem get?_discoveredAfter_cons (r : Run) (earlier : List Run) (id : String) :
    SortedMap.get? id (discoveredAfter formatFloat (r :: earlier))
      = match r.answer id with
        | some obs => some ⟨obs, r.now, 0⟩
        | none => (SortedMap.get? id (discoveredAfter formatFloat earlier)).bind (r.age id) := by
  obtain ⟨hkeyed, hget⟩ := refresh_spec r (keyed_discoveredAfter formatFloat earlier)
  refine (hkeyed.get?_filterEntries r.age id).trans ?_
  rw [hget]
  cases hanswer : r.answer id with
  | some obs => simp [Run.age, hanswer]
  | none => simp

/-- **The counter of misses**: a device is kept while its last answer is fewer than
`discoveryMissGrace` runs ago. -/
theorem kept_lastAnswer (id : String) :
    (SortedMap.get? id (discoveredAfter formatFloat runs)).map (fun st => (st.obs, st.misses))
      = (lastAnswer id runs).filter fun a => a.2 < discoveryMissGrace := by
  induction runs with
  | nil => rfl
  | cons r earlier ih =>
    rw [get?_discoveredAfter_cons, lastAnswer]
    cases hanswer : r.answer id with
    | some obs => rfl
    | none =>
      cases hst : SortedMap.get? id (discoveredAfter formatFloat earlier) with
      | none =>
        rw [hst] at ih
        cases hlast : lastAnswer id earlier with
        | none => rfl
        | some a =>
          rw [hlast] at ih
          have hgone : ¬a.2 < discoveryMissGrace := fun hlt => by
            simp [Option.filter_some, hlt] at ih
          have hlater : ¬a.2 + 1 < discoveryMissGrace := fun hlt => hgone (Nat.lt_of_succ_lt hlt)
          simp [Option.filter_some, hlater]
      | some st =>
        rw [hst] at ih
        obtain ⟨hlast, -⟩ := Option.filter_eq_some_iff.mp ih.symm
        rw [hlast, Option.bind_some, Run.age, hanswer, Option.map_some, Option.filter_some]
        by_cases hlt : st.misses + 1 < discoveryMissGrace
        · rw [if_neg (Nat.not_le.mpr hlt), if_pos (decide_eq_true hlt)]
          rfl
        · rw [if_pos (Nat.le_of_not_lt hlt), if_neg (by simpa using hlt)]
          rfl

theorem kept_eq (id : String) :
    (SortedMap.get? id (discoveredAfter formatFloat runs)).map DiscoveredState.obs
      = recentAnswer id runs := by
  rw [recentAnswer, findSome?_take_eq, ← kept_lastAnswer formatFloat, Option.map_map]
  rfl

/-! ## The observation published -/

/-- The observation published after a run. -/
def published (r : Run) (earlier : List Run) : Observation :=
  (retainRecentlySeen formatFloat r (discoveredAfter formatFloat earlier)).2

theorem picks_merged (c : String × DiscoveredState → Observation)
    (es : List (String × DiscoveredState)) :
    let o := es.foldl (fun merged e => mergeObservations formatFloat [merged, c e]) ⟨[], []⟩
    Picks (entityMergeKey formatFloat) (es.flatMap fun e => (c e).entities) o.entities ∧
      Picks (relationMergeKey formatFloat) (es.flatMap fun e => (c e).relations) o.relations := by
  induction es using List.reverseRecOn with
  | nil => exact ⟨Picks.nil, Picks.nil⟩
  | append_singleton es e ih =>
    intro o
    have ho : o = mergeObservations formatFloat
        [es.foldl (fun merged e => mergeObservations formatFloat [merged, c e]) ⟨[], []⟩, c e] := by
      show List.foldl _ _ (es ++ [e]) = _
      rw [List.foldl_append, List.foldl_cons, List.foldl_nil]
    rw [ho, List.flatMap_append, List.flatMap_append]
    generalize es.foldl (fun merged e => mergeObservations formatFloat [merged, c e]) ⟨[], []⟩ = m at ih
    exact ⟨ih.1.append _, ih.2.append _⟩

/-- An entity of the latest observation of a device that answered lately. -/
def RecentEntity (runs : List Run) (e : Observed) : Prop :=
  ∃ id obs, recentAnswer id runs = some obs ∧ e ∈ obs.entities

def RecentRelation (runs : List Run) (rel : Relation) : Prop :=
  ∃ id obs, recentAnswer id runs = some obs ∧ rel ∈ obs.relations

/-- The union of the latest observations of the devices that answered lately, every entity and
relation once. A replayed entity differs from the observed one in its time only. -/
structure IsUnion (runs : List Run) (o : Observation) : Prop where
  entity_of : ∀ e ∈ o.entities, ∃ e₀, RecentEntity runs e₀ ∧ e = { e₀ with observedAt := e.observedAt }
  relation_of : ∀ rel ∈ o.relations, RecentRelation runs rel
  entity_once : o.entities.Pairwise fun e e' => Observed.identity e ≠ Observed.identity e'
  relation_once : o.relations.Pairwise fun r r' => Relation.identity r ≠ Relation.identity r'
  entity_kept : ∀ e, RecentEntity runs e → ∃ e' ∈ o.entities, Observed.identity e' = Observed.identity e
  relation_kept : ∀ rel, RecentRelation runs rel →
    ∃ rel' ∈ o.relations, Relation.identity rel' = Relation.identity rel

/-- No two entities and no two relations at hand are different and have one key. -/
def Separated (runs : List Run) : Prop :=
  (∀ e e', RecentEntity runs e → RecentEntity runs e' →
    entityMergeKey formatFloat e = entityMergeKey formatFloat e' →
      Observed.identity e = Observed.identity e') ∧
  ∀ rel rel', RecentRelation runs rel → RecentRelation runs rel' →
    relationMergeKey formatFloat rel = relationMergeKey formatFloat rel' →
      Relation.identity rel = Relation.identity rel'

theorem mem_contribution (r : Run) (id : String) (st : DiscoveredState) :
    (∀ e ∈ (r.contribution id st).entities,
      ∃ e₀ ∈ st.obs.entities, e = { e₀ with observedAt := e.observedAt }) ∧
    (∀ e₀ ∈ st.obs.entities,
      ∃ e ∈ (r.contribution id st).entities, e = { e₀ with observedAt := e.observedAt }) ∧
    (r.contribution id st).relations = st.obs.relations := by
  have hstamp : ∀ e₀ : Observed, (if e₀.observedAt = zeroTime then { e₀ with observedAt := st.seenAt }
      else e₀) = { e₀ with observedAt := (if e₀.observedAt = zeroTime then
        { e₀ with observedAt := st.seenAt } else e₀).observedAt } := by
    intro e₀
    split <;> rfl
  unfold Run.contribution
  split
  next => exact ⟨fun e he => ⟨e, he, rfl⟩, fun e he => ⟨e, he, rfl⟩, rfl⟩
  next =>
    refine ⟨fun e he => ?_, fun e₀ he₀ => ⟨_, List.mem_map_of_mem he₀, hstamp e₀⟩, rfl⟩
    obtain ⟨e₀, he₀, rfl⟩ := List.mem_map.mp he
    exact ⟨e₀, he₀, hstamp e₀⟩

/-- The devices kept are the ones with a recent answer. -/
theorem mem_discoveredAfter_iff (id : String) (obs : Observation) :
    (∃ st, (id, st) ∈ discoveredAfter formatFloat runs ∧ st.obs = obs) ↔
      recentAnswer id runs = some obs := by
  rw [← kept_eq formatFloat, Option.map_eq_some_iff]
  refine exists_congr fun st => and_congr_left fun _ => ?_
  exact ⟨(keyed_discoveredAfter formatFloat runs).get?, SortedMap.get?_mem⟩

/-- **What the grace publishes.** After every sequence of runs, the observation is the union of the
latest observations of the devices that answered lately, exactly when the keys of `mergeObservations`
separate their entities and relations. -/
theorem retained_iff (r : Run) (earlier : List Run) :
    IsUnion (r :: earlier) (published formatFloat r earlier) ↔ Separated formatFloat (r :: earlier) := by
  have hkept : ∀ id obs, (∃ st, (id, st) ∈ discoveredAfter formatFloat (r :: earlier) ∧ st.obs = obs) ↔
      recentAnswer id (r :: earlier) = some obs := mem_discoveredAfter_iff formatFloat (r :: earlier)
  obtain ⟨hentities, hrelations⟩ := picks_merged formatFloat (fun e => r.contribution e.1 e.2)
    (discoveredAfter formatFloat (r :: earlier))
  generalize hkd : discoveredAfter formatFloat (r :: earlier) = kept at *
  have hpub : published formatFloat r earlier = kept.foldl (fun merged e =>
      mergeObservations formatFloat [merged, r.contribution e.1 e.2]) ⟨[], []⟩ := by
    rw [← hkd]
    rfl
  rw [← hpub] at hentities hrelations
  -- what the devices contribute is what they observed lately
  have hfrom : ∀ e ∈ kept.flatMap (fun e => (r.contribution e.1 e.2).entities),
      ∃ e₀, RecentEntity (r :: earlier) e₀ ∧ e = { e₀ with observedAt := e.observedAt } := by
    intro e he
    obtain ⟨⟨id, st⟩, hst, hin⟩ := List.mem_flatMap.mp he
    obtain ⟨e₀, he₀, heq⟩ := (mem_contribution r id st).1 e hin
    exact ⟨e₀, ⟨id, st.obs, (hkept id st.obs).mp ⟨st, hst, rfl⟩, he₀⟩, heq⟩
  have hto : ∀ e₀, RecentEntity (r :: earlier) e₀ →
      ∃ e ∈ kept.flatMap (fun e => (r.contribution e.1 e.2).entities),
        e = { e₀ with observedAt := e.observedAt } := by
    rintro e₀ ⟨id, obs, hobs, he₀⟩
    obtain ⟨st, hst, rfl⟩ := (hkept id obs).mpr hobs
    obtain ⟨e, he, heq⟩ := (mem_contribution r id st).2.1 e₀ he₀
    exact ⟨e, List.mem_flatMap.mpr ⟨_, hst, he⟩, heq⟩
  have hrel : ∀ rel, rel ∈ kept.flatMap (fun e => (r.contribution e.1 e.2).relations) ↔
      RecentRelation (r :: earlier) rel := by
    intro rel
    rw [List.mem_flatMap]
    constructor
    · rintro ⟨⟨id, st⟩, hst, hin⟩
      exact ⟨id, st.obs, (hkept id st.obs).mp ⟨st, hst, rfl⟩, (mem_contribution r id st).2.2 ▸ hin⟩
    · rintro ⟨id, obs, hobs, hin⟩
      obtain ⟨st, hst, rfl⟩ := (hkept id obs).mpr hobs
      exact ⟨(id, st), hst, (mem_contribution r id st).2.2 ▸ hin⟩
  have hidentity : ∀ {e e₀ : Observed}, e = { e₀ with observedAt := e.observedAt } →
      Observed.identity e = Observed.identity e₀ := fun heq => by rw [heq]; rfl
  have hcoverE := hentities.covers_iff entityMergeKey_congr
    (fun e he => (hfrom e he).imp fun _ h => ⟨h.1, hidentity h.2⟩)
    (fun e₀ he₀ => (hto e₀ he₀).imp fun _ h => ⟨h.1, hidentity h.2⟩)
  have hcoverR := hrelations.covers_iff relationMergeKey_congr
    (fun rel hin => ⟨rel, (hrel rel).mp hin, rfl⟩) (fun rel h => ⟨rel, (hrel rel).mpr h, rfl⟩)
  constructor
  · intro h
    exact ⟨hcoverE.mp h.entity_kept, hcoverR.mp h.relation_kept⟩
  · rintro ⟨hE, hR⟩
    exact
      { entity_of := fun e he => hfrom e (hentities.taken e he)
        relation_of := fun rel hin => (hrel rel).mp (hrelations.taken rel hin)
        entity_once := hentities.pairwise_ne entityMergeKey_congr
        relation_once := hrelations.pairwise_ne relationMergeKey_congr
        entity_kept := hcoverE.mpr hE
        relation_kept := hcoverR.mpr hR }

end

theorem device_lt_interface : "network.device.id" < "network.interface.name" := by decide +kernel

/-- An interface of a device. -/
def port (device name : String) : Observed where
  type := "network.interface"
  id := ⟨[("network.device.id", .string device), ("network.interface.name", .string name)],
    List.pairwise_pair.mpr device_lt_interface⟩
  attributes := .empty
  relationships := []
  scope := ""
  observedAt := zeroTime
  cadence := 0

/-- Two devices identified by their system names, each with one interface. -/
def clashingRun : Run where
  fresh := [("name:a", ⟨[port "name:a" "1;network.interface.name=2"], []⟩),
    ("name:a;network.interface.name=1", ⟨[port "name:a;network.interface.name=1" "2"], []⟩)]
  keyed := List.pairwise_pair.mpr (by decide +kernel)
  now := 0

/-- The interface of the second device is taken for that of the first. -/
theorem interface_lost : ¬IsUnion [clashingRun] (published (fun _ => "") clashingRun []) := by
  intro h
  have hpublished : (published (fun _ => "") clashingRun []).entities
      = [port "name:a" "1;network.interface.name=2"] := by rfl
  have hrecent : RecentEntity [clashingRun] (port "name:a;network.interface.name=1" "2") :=
    ⟨"name:a;network.interface.name=1", _, by rfl, List.mem_singleton.mpr rfl⟩
  obtain ⟨e, he, hid⟩ := h.entity_kept _ hrecent
  rw [hpublished, List.mem_singleton] at he
  subst he
  simp [Observed.identity, port] at hid

end SenhubAgent.SnmpPoll

import Mathlib.Data.List.Induction
import SenhubAgent.Sensor.Sync

/-!
# Running probes and the configuration

A poller is matched to a block by the hash of the block's name and of the text of its
params. Names can be read back from that text (`ProbeConfig.idText_eq_iff`), so one poller
runs per name and every wanted block runs or is recorded as failed, whatever the calls before
were. What cannot be read back is the rest of the block: its type and its log strategies are
not in the text, and two different params can have one text. A poller whose block was edited
in that way is taken for the poller of the new block and keeps running as it was built.
`synced_iff` says that this is the only way a call can leave the running probes behind the
configuration.

`WellKept` is what every call keeps, `foldl_planBlock` says what phase 1 decides and
`foldl_startPending` what phase 3 does with it.
-/

namespace SenhubAgent.Sensor

open SenhubAgent.Lib SenhubAgent.Config

/-! ## What the running probes should be -/

/-- The first block of a name. -/
def firstBlock (probes : List ProbeConfig) (name : String) : Option ProbeConfig :=
  probes.find? (·.name = name)

/-- Two blocks that ask for the same probe. -/
structure SameProbe (a b : ProbeConfig) : Prop where
  name : a.name = b.name
  type : a.type = b.type
  params : a.params = b.params
  logStrategies : a.logStrategies = b.logStrategies

section

variable {H L : Type} [DecidableEq H] (hasher : Hasher H)

/-- The pollers run what the blocks ask for. -/
structure Synced (probes : List ProbeConfig) (s : State H L) : Prop where
  /-- at most one poller per name -/
  oneEach : (s.startedProbes.map (·.config.name)).Nodup
  built : ∀ p ∈ s.startedProbes, ∃ b, firstBlock probes p.config.name = some b ∧
    b.isEnabled = true ∧ SameProbe p.config b
  covered : ∀ name b, isValidProbeName name = true → firstBlock probes name = some b →
    b.isEnabled = true → (∃ p ∈ s.startedProbes, p.config.name = name) ∨
      ∃ f, s.failedProbes.lookup (b.id hasher) = some f ∧ f.config = b

/-- Every edit of the block of a running poller shows in the text of its params, unless it
leaves the probe the block asks for as it is. -/
def EditsShow (probes : List ProbeConfig) (s : State H L) : Prop :=
  ∀ p ∈ s.startedProbes, ∀ b, firstBlock probes p.config.name = some b → b.isEnabled = true →
    b.params.render hasher.formatFloat = p.config.params.render hasher.formatFloat →
    SameProbe p.config b

/-- What every call keeps. -/
structure WellKept (s : State H L) : Prop where
  ids : ∀ p ∈ s.startedProbes, p.probeId = p.config.id hasher
  names : ∀ p ∈ s.startedProbes, isValidProbeName p.config.name = true
  distinct : (s.startedProbes.map (·.probeId)).Nodup
  failedNames : ∀ id f, s.failedProbes.lookup id = some f → isValidProbeName f.config.name = true

variable {hasher}

/-! ## Phase 1 -/

/-- What a poller is matched by, and built from. -/
def Poller.key (p : Poller H) : H × ProbeConfig := (p.probeId, p.config)

theorem applyGovernance_keys (id : H) (b : ProbeConfig) (started : List (Poller H)) :
    (applyGovernance id b started).map Poller.key = started.map Poller.key := by
  induction started with
  | nil => rfl
  | cons p started ih =>
    unfold applyGovernance
    split
    · rfl
    · rw [List.map_cons, List.map_cons, ih]

/-- No poller has the identity of the block. -/
def notRunning (hasher : Hasher H) (started : List (Poller H)) (b : ProbeConfig) : Bool :=
  !started.any (·.probeId = b.id hasher)

variable {started : List (Poller H)} {probes : List ProbeConfig} {b : ProbeConfig}
    {s s' : State H L} {w : World L} {f : FailedProbe}

theorem notRunning_eq {started' : List (Poller H)}
    (h : started.map Poller.key = started'.map Poller.key) :
    notRunning hasher started = notRunning hasher started' := by
  have hkey : ∀ l : List (Poller H), notRunning hasher l =
      fun b => !(l.map Poller.key).any (·.1 = b.id hasher) := by
    intro l
    funext b
    rw [List.any_map]
    rfl
  rw [hkey, hkey, h]

/-- The blocks that are wanted, of a list whose invalid names are blanked: `seen` are the
names of the blocks before it. -/
def wanted : (seen : List String) → List ProbeConfig → List ProbeConfig
  | _, [] => []
  | seen, p :: ps =>
    if p.name = "" then wanted seen ps
    else if p.name ∈ seen then wanted seen ps
    else if !p.isEnabled then wanted (seen ++ [p.name]) ps
    else p :: wanted (seen ++ [p.name]) ps

theorem firstBlock_cons (q : ProbeConfig) (ps : List ProbeConfig) (name : String) :
    firstBlock (q :: ps) name = if q.name = name then some q else firstBlock ps name := by
  unfold firstBlock
  rw [List.find?_cons]
  by_cases hq : q.name = name <;> simp [hq]

theorem mem_wanted {seen : List String} {ps : List ProbeConfig} {p : ProbeConfig} :
    p ∈ wanted seen ps ↔ p.name ≠ "" ∧ p.name ∉ seen ∧ firstBlock ps p.name = some p ∧
      p.isEnabled = true := by
  induction ps generalizing seen with
  | nil => simp [wanted, firstBlock]
  | cons q ps ih =>
    rw [firstBlock_cons]
    unfold wanted
    split
    · grind
    split
    · grind
    split
    · grind
    · grind

theorem wanted_names_nodup (seen : List String) (ps : List ProbeConfig) :
    ((wanted seen ps).map (·.name)).Nodup := by
  induction ps generalizing seen with
  | nil => exact List.nodup_nil
  | cons q ps ih =>
    unfold wanted
    split
    · exact ih seen
    split
    · exact ih seen
    split
    · exact ih _
    · rw [List.map_cons, List.nodup_cons]
      refine ⟨?_, ih _⟩
      intro hmem
      obtain ⟨p, hp, hname⟩ := List.mem_map.mp hmem
      exact (mem_wanted.mp hp).2.1 (by simp [hname])

/-- Blanking does not touch the first block of a valid name. -/
theorem firstBlock_blank {name : String} (h : isValidProbeName name = true)
    (probes : List ProbeConfig) :
    firstBlock (probes.map blankInvalidName) name = firstBlock probes name := by
  induction probes with
  | nil => rfl
  | cons p ps ih =>
    rw [List.map_cons, firstBlock_cons, firstBlock_cons, ih]
    unfold blankInvalidName
    split
    · rfl
    · next hp =>
      have hblank : "" ≠ name := by
        rintro rfl
        exact absurd h (by decide)
      have hne : p.name ≠ name := by
        rintro rfl
        exact hp h
      rw [if_neg hblank, if_neg hne]

/-- The wanted blocks of a configuration: the enabled first blocks of the valid names. -/
theorem mem_wanted_blank :
    b ∈ wanted [] (probes.map blankInvalidName) ↔ isValidProbeName b.name = true ∧
      firstBlock probes b.name = some b ∧ b.isEnabled = true := by
  rw [mem_wanted]
  constructor
  · rintro ⟨hne, -, hfirst, hen⟩
    have hmem := List.mem_of_find?_eq_some hfirst
    obtain ⟨q, -, rfl⟩ := List.mem_map.mp hmem
    have hvalid : isValidProbeName (blankInvalidName q).name = true := by
      unfold blankInvalidName at hne ⊢
      split at hne
      · next hq => rw [if_pos hq]; exact hq
      · exact absurd rfl hne
    exact ⟨hvalid, by rw [← firstBlock_blank hvalid, hfirst], hen⟩
  · rintro ⟨hvalid, hfirst, hen⟩
    refine ⟨?_, List.not_mem_nil, by rw [firstBlock_blank hvalid, hfirst], hen⟩
    intro hblank
    rw [hblank] at hvalid
    exact absurd hvalid (by decide)

/-- What phase 1 decides, from any point of the loop on. -/
structure PlanSpec (hasher : Hasher H) (before after : Plan H) (blocks : List ProbeConfig) : Prop
    where
  ids : after.validProbeIds = before.validProbeIds ++ blocks.map (·.id hasher)
  toStart : after.toStart = before.toStart ++
    (blocks.filter (notRunning hasher before.started)).map fun b => (b.id hasher, b)
  keys : after.started.map Poller.key = before.started.map Poller.key

theorem foldl_planBlock (ps : List ProbeConfig) (plan : Plan H) :
    PlanSpec hasher plan (ps.foldl (planBlock hasher) plan) (wanted plan.processedNames ps) := by
  induction ps generalizing plan with
  | nil => exact ⟨by simp [wanted], by simp [wanted], rfl⟩
  | cons p ps ih =>
    rw [List.foldl_cons, wanted]
    by_cases hblank : p.name = ""
    · rw [if_pos hblank, planBlock, if_pos hblank]
      exact ih plan
    by_cases hseen : p.name ∈ plan.processedNames
    · rw [if_neg hblank, if_pos hseen, planBlock, if_neg hblank, if_pos hseen]
      exact ih plan
    rw [if_neg hblank, if_neg hseen, planBlock, if_neg hblank, if_neg hseen]
    by_cases hoff : (!p.isEnabled) = true
    · rw [if_pos hoff, if_pos hoff]
      exact ⟨(ih _).ids, (ih _).toStart, (ih _).keys⟩
    rw [if_neg hoff, if_neg hoff]
    by_cases hrun : plan.started.any (·.probeId = p.id hasher) = true
    · rw [if_pos hrun]
      have hkeys := applyGovernance_keys (p.id hasher) p plan.started
      refine ⟨?_, ?_, (ih _).keys.trans hkeys⟩
      · rw [(ih _).ids]
        simp
      · rw [(ih _).toStart, List.filter_cons_of_neg (by simp [notRunning, hrun])]
        rw [notRunning_eq hkeys]
    · rw [if_neg hrun]
      refine ⟨?_, ?_, (ih _).keys⟩
      · rw [(ih _).ids]
        simp
      · rw [(ih _).toStart, List.filter_cons_of_pos (by simpa [notRunning] using hrun)]
        simp

/-! ## Starting -/

/-- A start of the block succeeds. -/
structure Startable (w : World L) (lic : Option L) (b : ProbeConfig) : Prop where
  typed : b.type ≠ ""
  carried : w.isRegistered b.type = true
  authorized : authorize w lic b.type = .ok ()
  constructed : w.construct b = .ok ()
  starts : w.start b = .ok ()

omit [DecidableEq H] in
theorem newProbePoller_ok {poller : Poller H} (h : newProbePoller hasher w b = .ok poller) :
    b.type ≠ "" ∧ w.isRegistered b.type = true ∧ w.construct b = .ok () ∧
      poller = ⟨b.id hasher, b, b.governance⟩ := by
  unfold newProbePoller at h
  split at h
  · cases h
  next htype =>
  split at h
  · cases h
  next hcarried =>
  split at h
  · cases h
  next hconstruct => exact ⟨htype, by simpa using hcarried, hconstruct, (Except.ok.inj h).symm⟩

/-- A start leaves a poller that is there as it is, or appends one that was startable. -/
theorem startProbe_ok (h : startProbe hasher w s b = .ok s') :
    (s' = s ∧ ∃ p ∈ s.startedProbes, p.probeId = b.id hasher) ∨
      ((∀ p ∈ s.startedProbes, p.probeId ≠ b.id hasher) ∧ Startable w s.license b ∧
        s' = { s with startedProbes := s.startedProbes ++ [⟨b.id hasher, b, b.governance⟩] }) := by
  unfold startProbe at h
  split at h
  · next hrun =>
    cases h
    exact .inl ⟨rfl, by simpa using hrun⟩
  · next hrun =>
    dsimp only at h
    generalize hprobeType : (if b.type = "" then b.name else b.type) = probeType at h
    split at h
    · cases h
    split at h
    · cases h
    next hauthorized =>
    split at h
    · cases h
    next poller hpoller =>
    split at h
    · cases h
    next hstarts =>
    obtain ⟨htype, hcarried, hconstruct, rfl⟩ := newProbePoller_ok hpoller
    rw [if_neg htype] at hprobeType
    subst hprobeType
    cases h
    exact .inr ⟨by simpa using hrun, ⟨htype, hcarried, hauthorized, hconstruct, hstarts⟩, rfl⟩

/-- A start keeps what every call keeps. -/
theorem startProbe_wellKept (hkept : WellKept hasher s) (hb : isValidProbeName b.name = true)
    (h : startProbe hasher w s b = .ok s') : WellKept hasher s' := by
  obtain ⟨rfl, -⟩ | ⟨hnew, -, rfl⟩ := startProbe_ok h
  · exact hkept
  · refine ⟨?_, ?_, ?_, hkept.failedNames⟩
    · intro p hp
      rcases List.mem_append.mp hp with hp | hp
      · exact hkept.ids p hp
      · rw [List.mem_singleton.mp hp]
    · intro p hp
      rcases List.mem_append.mp hp with hp | hp
      · exact hkept.names p hp
      · rw [List.mem_singleton.mp hp]
        exact hb
    · have hfresh : b.id hasher ∉ s.startedProbes.map (·.probeId) := by
        intro hmem
        obtain ⟨p, hp, hid⟩ := List.mem_map.mp hmem
        exact hnew p hp hid
      simpa using hkept.distinct.concat hfresh

theorem WellKept.eraseFailed (hkept : WellKept hasher s) (id : H) :
    WellKept hasher { s with failedProbes := s.failedProbes.erase id } := by
  exact ⟨hkept.ids, hkept.names, hkept.distinct, fun id' f hf =>
    hkept.failedNames id' f (lookup_of_erase hf)⟩

theorem WellKept.insertFailed (hkept : WellKept hasher s) (id : H)
    (hf : isValidProbeName f.config.name = true) (wake : Bool) :
    WellKept hasher
      { s with failedProbes := s.failedProbes.insert id f, retryWake := wake } := by
  refine ⟨hkept.ids, hkept.names, hkept.distinct, fun id' f' hf' => ?_⟩
  obtain ⟨-, rfl⟩ | hold := lookup_of_insert hf'
  · exact hf
  · exact hkept.failedNames id' f' hold

/-! ## Phase 3 -/

/-- What starting one block does: `b` is the block under its identity `id`. -/
structure Started (before after : State H L) (id : H) (b : ProbeConfig) : Prop where
  grows : ∀ p ∈ before.startedProbes, p ∈ after.startedProbes
  origin : ∀ p ∈ after.startedProbes, p ∈ before.startedProbes ∨ p.config = b
  settled : (∃ p ∈ after.startedProbes, p.probeId = id) ∨
    ∃ f, after.failedProbes.lookup id = some f ∧ f.config = b
  others : ∀ id', id' ≠ id → after.failedProbes.lookup id' = before.failedProbes.lookup id'

theorem startPending_started (w : World L) (s : State H L) (b : ProbeConfig) :
    Started s (startPending hasher w s (b.id hasher, b)) (b.id hasher) b := by
  unfold startPending
  split
  · exact ⟨fun p hp => hp, fun p hp => .inl hp, .inr ⟨_, AList.lookup_insert _, rfl⟩,
      fun id' hid => AList.lookup_insert_ne hid⟩
  · next s' hs' =>
    obtain ⟨rfl, hrun⟩ | ⟨-, -, rfl⟩ := startProbe_ok hs'
    · exact ⟨fun p hp => hp, fun p hp => .inl hp, .inl hrun,
        fun id' hid => AList.lookup_erase_ne hid⟩
    · refine ⟨fun p hp => List.mem_append_left _ hp, fun p hp => ?_, .inl ?_,
        fun id' hid => AList.lookup_erase_ne hid⟩
      · rcases List.mem_append.mp hp with hp | hp
        · exact .inl hp
        · rw [List.mem_singleton.mp hp]
          exact .inr rfl
      · exact ⟨_, List.mem_append_right _ (List.mem_singleton_self _), rfl⟩

theorem startPending_wellKept (w : World L) (hkept : WellKept hasher s)
    (hb : isValidProbeName b.name = true) :
    WellKept hasher (startPending hasher w s (b.id hasher, b)) := by
  unfold startPending
  split
  · exact hkept.insertFailed _ hb _
  · next s' hs' => exact (startProbe_wellKept hkept hb hs').eraseFailed _

/-- Phase 3 over blocks with different identities. -/
structure AllStarted (hasher : Hasher H) (before after : State H L) (blocks : List ProbeConfig) :
    Prop where
  grows : ∀ p ∈ before.startedProbes, p ∈ after.startedProbes
  origin : ∀ p ∈ after.startedProbes, p ∈ before.startedProbes ∨ p.config ∈ blocks
  settled : ∀ b ∈ blocks, (∃ p ∈ after.startedProbes, p.probeId = b.id hasher) ∨
    ∃ f, after.failedProbes.lookup (b.id hasher) = some f ∧ f.config = b
  others : ∀ id, (∀ b ∈ blocks, id ≠ b.id hasher) →
    after.failedProbes.lookup id = before.failedProbes.lookup id
  wellKept : WellKept hasher after

theorem foldl_startPending (w : World L) {blocks : List ProbeConfig}
    (hvalid : ∀ b ∈ blocks, isValidProbeName b.name = true)
    (hids : (blocks.map (·.id hasher)).Nodup) (hkept : WellKept hasher s) :
    AllStarted hasher s ((blocks.map fun b => (b.id hasher, b)).foldl (startPending hasher w) s)
      blocks := by
  induction blocks generalizing s with
  | nil => exact ⟨fun p hp => hp, fun p hp => .inl hp, by simp, fun _ _ => rfl, hkept⟩
  | cons b blocks ih =>
    rw [List.map_cons, List.nodup_cons] at hids
    have hone : Started s (startPending hasher w s (b.id hasher, b)) (b.id hasher) b :=
      startPending_started w s b
    have hrest := ih (fun c hc => hvalid c (List.mem_cons_of_mem _ hc)) hids.2
      (startPending_wellKept w hkept (hvalid b List.mem_cons_self))
    rw [List.map_cons, List.foldl_cons]
    refine ⟨fun p hp => hrest.grows p (hone.grows p hp), ?_, ?_, ?_, hrest.wellKept⟩
    · intro p hp
      rcases hrest.origin p hp with hp | hp
      · rcases hone.origin p hp with hp | rfl
        · exact .inl hp
        · exact .inr List.mem_cons_self
      · exact .inr (List.mem_cons_of_mem _ hp)
    · intro c hc
      rcases List.mem_cons.mp hc with rfl | hc
      · -- the blocks after it do not touch its record
        rcases hone.settled with ⟨p, hp, hid⟩ | ⟨f, hf, hcfg⟩
        · exact .inl ⟨p, hrest.grows p hp, hid⟩
        · refine .inr ⟨f, ?_, hcfg⟩
          rw [hrest.others _ fun d hd heq => hids.1 (List.mem_map.mpr ⟨d, hd, heq.symm⟩), hf]
      · exact hrest.settled c hc
    · intro id hid
      rw [hrest.others id fun c hc => hid c (List.mem_cons_of_mem _ hc),
        hone.others id (hid b List.mem_cons_self)]

/-! ## The whole call -/

omit [DecidableEq H] in
/-- Two blocks with valid names have one identity only if they have one name and one text of
their params, as long as the hash does not collide. -/
theorem id_eq_iff (hinj : Function.Injective hasher.sha256) {a : ProbeConfig}
    (ha : isValidProbeName a.name = true) (hb : isValidProbeName b.name = true) :
    a.id hasher = b.id hasher ↔ a.name = b.name ∧
      a.params.render hasher.formatFloat = b.params.render hasher.formatFloat := by
  rw [ProbeConfig.id, ProbeConfig.id, hinj.eq_iff, ProbeConfig.idText_eq_iff ha hb]

omit [DecidableEq H] in
theorem wanted_ids_nodup (hinj : Function.Injective hasher.sha256) (probes : List ProbeConfig) :
    ((wanted [] (probes.map blankInvalidName)).map (·.id hasher)).Nodup := by
  have hnames := wanted_names_nodup [] (probes.map blankInvalidName)
  rw [List.Nodup, List.pairwise_map] at hnames ⊢
  refine hnames.imp_of_mem fun ha hb hne heq => hne ?_
  exact ((id_eq_iff hinj (mem_wanted_blank.mp ha).1 (mem_wanted_blank.mp hb).1).mp heq).1

/-- What a call of `SyncConfiguration` leaves when `blocks` are wanted. -/
structure SyncSpec (hasher : Hasher H) (blocks : List ProbeConfig) (before after : State H L) :
    Prop where
  /-- a poller that has the identity of a wanted block stays, built as it was -/
  stays : ∀ p ∈ before.startedProbes, ∀ b ∈ blocks, p.probeId = b.id hasher →
    ∃ q ∈ after.startedProbes, q.probeId = p.probeId ∧ q.config = p.config
  /-- a poller has the identity of a wanted block, and is an old one or built from it -/
  origin : ∀ q ∈ after.startedProbes, ∃ b ∈ blocks, q.probeId = b.id hasher ∧
    (q.config = b ∨ ∃ p ∈ before.startedProbes, p.config = q.config)
  settled : ∀ b ∈ blocks, (∃ p ∈ after.startedProbes, p.probeId = b.id hasher) ∨
    ∃ f, after.failedProbes.lookup (b.id hasher) = some f ∧ f.config = b
  wellKept : WellKept hasher after

omit [DecidableEq H] in
theorem mem_of_key {l l' : List (Poller H)} (h : l.map Poller.key = l'.map Poller.key)
    {p : Poller H} (hp : p ∈ l) : ∃ q ∈ l', q.probeId = p.probeId ∧ q.config = p.config := by
  have hkey : p.key ∈ l'.map Poller.key := h ▸ List.mem_map_of_mem hp
  obtain ⟨q, hq, heq⟩ := List.mem_map.mp hkey
  exact ⟨q, hq, congrArg Prod.fst heq, congrArg Prod.snd heq⟩

/-- Phase 2 keeps what every call keeps. -/
theorem WellKept.keep (hkept : WellKept hasher s)
    (hkeys : started.map Poller.key = s.startedProbes.map Poller.key) (ids : List H)
    (lic : Option L) :
    WellKept hasher
      { s with license := lic, startedProbes := started.filter (·.probeId ∈ ids) } := by
  refine ⟨fun p hp => ?_, fun p hp => ?_, ?_, hkept.failedNames⟩
  · obtain ⟨q, hq, hid, hcfg⟩ := mem_of_key hkeys (List.mem_filter.mp hp).1
    rw [← hid, ← hcfg]
    exact hkept.ids q hq
  · obtain ⟨q, hq, -, hcfg⟩ := mem_of_key hkeys (List.mem_filter.mp hp).1
    rw [← hcfg]
    exact hkept.names q hq
  · have hids : started.map (·.probeId) = s.startedProbes.map (·.probeId) := by
      have := congrArg (List.map Prod.fst) hkeys
      simpa [Poller.key, List.map_map, Function.comp_def] using this
    exact (hids ▸ hkept.distinct).sublist (List.filter_sublist.map _)

section

variable (hinj : Function.Injective hasher.sha256)

include hinj

theorem syncConfiguration_spec (w : World L) (config : Configuration) (hkept : WellKept hasher s) :
    SyncSpec hasher (wanted [] (config.probes.map blankInvalidName)) s
      (syncConfiguration hasher w config s) := by
  have hplan : PlanSpec hasher ⟨[], [], [], s.startedProbes⟩
      (planBlocks hasher s.startedProbes config.probes)
      (wanted [] (config.probes.map blankInvalidName)) := foldl_planBlock _ _
  have hvalid : ∀ b ∈ wanted [] (config.probes.map blankInvalidName),
      isValidProbeName b.name = true := fun b hb => (mem_wanted_blank.mp hb).1
  have hnodup := wanted_ids_nodup hinj config.probes
  unfold syncConfiguration
  generalize planBlocks hasher s.startedProbes config.probes = plan at hplan ⊢
  generalize wanted [] (config.probes.map blankInvalidName) = blocks at *
  obtain ⟨hids, htoStart, hkeys⟩ := hplan
  rw [List.nil_append] at hids htoStart
  dsimp only at hids htoStart hkeys ⊢
  rw [htoStart, hids]
  have hstarted : AllStarted hasher _ _ (blocks.filter (notRunning hasher s.startedProbes)) :=
    foldl_startPending w (fun b hb => hvalid b (List.mem_filter.mp hb).1)
    (hnodup.sublist (List.filter_sublist.map _))
    (hkept.keep hkeys (blocks.map (·.id hasher)) (revalidate w config s.license))
  generalize List.foldl (startPending hasher w) _ _ = after at hstarted ⊢
  have hstays : ∀ p ∈ s.startedProbes, ∀ b ∈ blocks, p.probeId = b.id hasher →
      ∃ q ∈ after.startedProbes, q.probeId = p.probeId ∧ q.config = p.config := by
    intro p hp b hb hid
    obtain ⟨q, hq, hqid, hqcfg⟩ := mem_of_key hkeys.symm hp
    refine ⟨q, hstarted.grows q (List.mem_filter.mpr ⟨hq, ?_⟩), hqid, hqcfg⟩
    rw [decide_eq_true_eq, hqid, hid]
    exact List.mem_map_of_mem hb
  have hlookup : ∀ id, (eraseWhere (fun id _ => decide (id ∉ blocks.map (·.id hasher)))
      after.failedProbes.keys after.failedProbes).lookup id =
        (after.failedProbes.lookup id).filter fun _ =>
          !(decide (id ∈ after.failedProbes.keys) && decide (id ∉ blocks.map (·.id hasher))) :=
    fun id => lookup_eraseWhere _ id _ _
  refine ⟨hstays, ?_, ?_, ?_⟩
  · intro q hq
    rcases hstarted.origin q hq with hold | hnew
    · obtain ⟨hmem, hid⟩ := List.mem_filter.mp hold
      rw [decide_eq_true_eq] at hid
      obtain ⟨b, hb, hbid⟩ := List.mem_map.mp hid
      obtain ⟨p, hp, -, hcfg⟩ := mem_of_key hkeys hmem
      exact ⟨b, hb, hbid.symm, .inr ⟨p, hp, hcfg⟩⟩
    · exact ⟨q.config, (List.mem_filter.mp hnew).1, hstarted.wellKept.ids q hq, .inl rfl⟩
  · intro b hb
    by_cases hrun : notRunning hasher s.startedProbes b = true
    · rcases hstarted.settled b (List.mem_filter.mpr ⟨hb, hrun⟩) with hstart | ⟨f, hf, hcfg⟩
      · exact .inl hstart
      · refine .inr ⟨f, ?_, hcfg⟩
        have hmem : b.id hasher ∈ blocks.map (·.id hasher) := List.mem_map_of_mem hb
        rw [hlookup, hf, Option.filter_some]
        simp only [hmem, not_true_eq_false, decide_false, Bool.and_false, Bool.not_false, if_true]
    · obtain ⟨p, hp, hid⟩ : ∃ p ∈ s.startedProbes, p.probeId = b.id hasher := by
        simpa [notRunning] using hrun
      obtain ⟨q, hq, hqid, -⟩ := hstays p hp b hb hid
      exact .inl ⟨q, hq, hqid.trans hid⟩
  · refine ⟨hstarted.wellKept.ids, hstarted.wellKept.names, hstarted.wellKept.distinct, ?_⟩
    intro id f hf
    rw [hlookup] at hf
    exact hstarted.wellKept.failedNames id f (Option.eq_some_of_filter_eq_some hf)

/-- A poller of the new set and the wanted block it stands for have one name. -/
theorem SyncSpec.name_eq (hspec : SyncSpec hasher (wanted [] (probes.map blankInvalidName)) s s')
    {q : Poller H} (hq : q ∈ s'.startedProbes) (hb : b ∈ wanted [] (probes.map blankInvalidName))
    (hid : q.probeId = b.id hasher) :
    q.config.name = b.name ∧
      q.config.params.render hasher.formatFloat = b.params.render hasher.formatFloat := by
  rw [← id_eq_iff hinj (hspec.wellKept.names q hq) (mem_wanted_blank.mp hb).1, ← hid]
  exact (hspec.wellKept.ids q hq).symm

/-- At most one poller per name, whatever was edited. -/
theorem SyncSpec.oneEach (hspec : SyncSpec hasher (wanted [] (probes.map blankInvalidName)) s s') :
    (s'.startedProbes.map (·.config.name)).Nodup := by
  have hdistinct := hspec.wellKept.distinct
  rw [List.Nodup, List.pairwise_map] at hdistinct ⊢
  refine hdistinct.imp_of_mem fun {p q} hp hq hne hname => hne ?_
  obtain ⟨b, hb, hpb, -⟩ := hspec.origin p hp
  obtain ⟨c, hc, hqc, -⟩ := hspec.origin q hq
  -- both stand for the first block of their name
  have hbc : some b = some c := by
    rw [← (mem_wanted_blank.mp hb).2.1, ← (mem_wanted_blank.mp hc).2.1,
      ← (hspec.name_eq hinj hp hb hpb).1, hname, (hspec.name_eq hinj hq hc hqc).1]
  rw [hpb, hqc, Option.some.inj hbc]

/-- One call leaves the running probes as the configuration asks for exactly when every edit
it brings shows. -/
theorem sync_synced_iff (w : World L) (config : Configuration) (hkept : WellKept hasher s) :
    Synced hasher config.probes (syncConfiguration hasher w config s) ↔
      EditsShow hasher config.probes s := by
  have hspec := syncConfiguration_spec hinj w config hkept
  constructor
  · intro hsynced p hp b hfirst hen htext
    have hname : b.name = p.config.name := by simpa using List.find?_some hfirst
    have hvalid : isValidProbeName b.name = true := hname ▸ hkept.names p hp
    have hid : p.probeId = b.id hasher := by
      rw [hkept.ids p hp, id_eq_iff hinj (hkept.names p hp) hvalid]
      exact ⟨hname.symm, htext.symm⟩
    obtain ⟨q, hq, -, hcfg⟩ := hspec.stays p hp b
      (mem_wanted_blank.mpr ⟨hvalid, by rw [hname, hfirst], hen⟩) hid
    obtain ⟨c, hc, -, hsame⟩ := hsynced.built q hq
    rw [hcfg, hfirst, Option.some.injEq] at hc
    rw [hc, ← hcfg]
    exact hsame
  · intro hedits
    refine ⟨hspec.oneEach hinj, fun q hq => ?_, fun name b hvalid hfirst hen => ?_⟩
    · obtain ⟨b, hb, hid, horigin⟩ := hspec.origin q hq
      obtain ⟨hname, htext⟩ := hspec.name_eq hinj hq hb hid
      obtain ⟨-, hfirst, hen⟩ := mem_wanted_blank.mp hb
      rw [← hname] at hfirst
      refine ⟨b, hfirst, hen, ?_⟩
      rcases horigin with hnew | ⟨p, hp, hcfg⟩
      · rw [hnew]
        exact ⟨rfl, rfl, rfl, rfl⟩
      · rw [← hcfg] at hfirst htext ⊢
        exact hedits p hp b hfirst hen htext.symm
    · have hname : b.name = name := by simpa using List.find?_some hfirst
      have hb := mem_wanted_blank.mpr
        (show _ ∧ firstBlock config.probes b.name = some b ∧ _ from
          ⟨hname ▸ hvalid, by rw [hname, hfirst], hen⟩)
      rcases hspec.settled b hb with ⟨p, hp, hid⟩ | hfailed
      · exact .inl ⟨p, hp, (hspec.name_eq hinj hp hb hid).1.trans hname⟩
      · exact .inr hfailed

end

/-! ## Runs -/

theorem retryProbe_wellKept (w : World L) (hkept : WellKept hasher s) (id : H)
    (hf : isValidProbeName f.config.name = true) :
    WellKept hasher (retryProbe hasher w s id f) := by
  unfold retryProbe
  split
  · exact hkept
  split
  · next s' hs' => exact (startProbe_wellKept hkept hf hs').eraseFailed id
  split
  · exact hkept.insertFailed id (by exact hf) s.retryWake
  · exact hkept

theorem retryFailedProbesOnce_wellKept (w : World L) (hkept : WellKept hasher s) :
    WellKept hasher (retryFailedProbesOnce hasher w s) := by
  have hentries : ∀ e ∈ s.failedProbes.entries, isValidProbeName e.2.config.name = true :=
    fun e he => hkept.failedNames e.1 e.2 (AList.mem_lookup_iff.mpr he)
  unfold retryFailedProbesOnce
  generalize s.failedProbes.entries = entries at hentries ⊢
  induction entries generalizing s with
  | nil => exact hkept
  | cons e entries ih =>
    exact ih (retryProbe_wellKept w hkept e.1 (hentries e List.mem_cons_self))
      fun e' he' => hentries e' (List.mem_cons_of_mem _ he')

theorem step_wellKept (hinj : Function.Injective hasher.sha256) (hkept : WellKept hasher s)
    (call : Call L) : WellKept hasher (step hasher s call) := by
  cases call with
  | sync w config => exact (syncConfiguration_spec hinj w config hkept).wellKept
  | retry w => exact retryFailedProbesOnce_wellKept w hkept
  | shutdown =>
    exact ⟨fun p hp => (List.not_mem_nil hp).elim, fun p hp => (List.not_mem_nil hp).elim,
      List.nodup_nil, hkept.failedNames⟩

theorem run_wellKept (hinj : Function.Injective hasher.sha256) (lic : Option L)
    (calls : List (Call L)) : WellKept hasher (run hasher lic calls) := by
  induction calls using List.reverseRecOn with
  | nil =>
    exact ⟨fun p hp => (List.not_mem_nil hp).elim, fun p hp => (List.not_mem_nil hp).elim,
      List.nodup_nil, fun id f hf => by simp [run, init] at hf⟩
  | append_singleton calls call ih =>
    rw [run, List.foldl_append]
    exact step_wellKept hinj ih call

/-- Over any sequence of calls, the running probes match the configuration after each
`SyncConfiguration` exactly when every edit each of them brings to the block of a running
poller shows in the text of its params. -/
theorem synced_iff (hinj : Function.Injective hasher.sha256) (lic : Option L)
    (calls : List (Call L)) :
    (∀ before w config after, calls = before ++ .sync w config :: after →
      Synced hasher config.probes (run hasher lic (before ++ [.sync w config]))) ↔
    ∀ before w config after, calls = before ++ .sync w config :: after →
      EditsShow hasher config.probes (run hasher lic before) := by
  have hone : ∀ before w config,
      Synced hasher config.probes (run hasher lic (before ++ [.sync w config])) ↔
        EditsShow hasher config.probes (run hasher lic before) := by
    intro before w config
    have hrun : run hasher lic (before ++ [.sync w config]) =
        syncConfiguration hasher w config (run hasher lic before) := by
      rw [run, List.foldl_append]
      rfl
    rw [hrun, sync_synced_iff hinj w config (run_wellKept hinj lic before)]
  simp only [hone]

end

/-! ## An edit that does not show

The two paths of a `filetail` probe were written as one item. Splitting it in two leaves the
text of the params as it was, and the probe goes on reading the one path. -/

def onePath : Params :=
  ⟨[("paths", .list [.str "/var/log/app.log /var/log/db.log"])], by decide⟩

def twoPaths : Params :=
  ⟨[("paths", .list [.str "/var/log/app.log", .str "/var/log/db.log"])], by decide⟩

def tailConfig (params : Params) : Configuration where
  probes := [⟨"app-logs", "filetail", params, noParams, none, []⟩]
  license := ""
  authenticationKey := ""

/-- A build with every probe type and no licence validator, on which every start succeeds. -/
def openWorld : World Unit where
  licenseValidator := none
  isRegistered := fun _ => true
  notInThisBuild := fun probeType => "unknown probe type " ++ probeType
  freeTierProbes := ["filetail"]
  quote := fun text => "\"" ++ text ++ "\""
  construct := fun _ => .ok ()
  shouldStart := fun _ => true
  schedule := fun _ => .ok ()

/-- The text itself as its hash. -/
def textHasher : Hasher (List Char) := ⟨fun _ => [], id⟩

/-- A first configuration always starts what it asks for. -/
theorem onePath_synced : Synced textHasher (tailConfig onePath).probes
    (run textHasher none [.sync openWorld (tailConfig onePath)]) := by
  refine (synced_iff (fun _ _ h => h : Function.Injective textHasher.sha256) none
    [.sync openWorld (tailConfig onePath)]).mpr ?_ [] _ _ [] rfl
  intro before w config after hcalls
  have hbefore : before = [] := by
    cases before with
    | nil => rfl
    | cons c before => simp at hcalls
  rw [hbefore]
  intro p hp
  exact absurd hp List.not_mem_nil

theorem twoPaths_not_synced : ¬ Synced textHasher (tailConfig twoPaths).probes
    (run textHasher none
      [.sync openWorld (tailConfig onePath), .sync openWorld (tailConfig twoPaths)]) := by
  intro hsynced
  have hstarted : ∃ p ∈ (run textHasher none [.sync openWorld (tailConfig onePath),
      .sync openWorld (tailConfig twoPaths)]).startedProbes,
      p.config.name = "app-logs" ∧ p.config.params = onePath := by
    refine ⟨_, List.mem_singleton.mpr rfl, rfl, rfl⟩
  obtain ⟨p, hp, hname, hparams⟩ := hstarted
  obtain ⟨b, hb, -, hsame⟩ := hsynced.built p hp
  rw [hname] at hb
  have hblock : b.params = twoPaths := by
    cases hb
    rfl
  exact absurd (hparams.symm.trans (hsame.params.trans hblock)) (by decide)

end SenhubAgent.Sensor

import SenhubAgent.DataStore.OneLive

/-!
# The instance kept for a name

That the active strategies are running, and configured by the first block of their name,
holds as long as no block works on an instance that an earlier block of the same refresh has
already settled (`Undisturbed`). `retrieveOrCreate` looks at the set from before the refresh, so
the second block of a name finds the old instance again, also after the first block kept it
or shut it down.

What an undisturbed block leaves alone is stated first (`Under.kept_block`,
`Under.untouched_block`); the invariant of the loop (`Settled`) says of every strategy kept so
far that it runs and which block decided about it.
-/

namespace SenhubAgent.DataStore

open SenhubAgent.Lib

variable {P I : Type} [DecidableEq I] {strategyId : String → P → I}

section Loop

variable {st : Store P} {r : Refresh P} {b : Block P} {s : Strategy P} {heap : List (Strategy P)}
    {i j : Nat} {n : String} {done : List (Block P)}

/-! ## Blocks that leave settled instances alone -/

/-- The block does not work on an instance an earlier block of the refresh has settled: if the
live instance of its name is kept already it is left as it is, and if a failed replacement
has shut it down the block does not end at it. -/
def Undisturbed (strategyId : String → P → I) (r : Refresh P) (b : Block P) : Prop :=
  ∀ i s, r.store.live b.name = some i → r.store.heap[i]? = some s →
    ((b.name, i) ∈ r.new → Leaves strategyId s b)
      ∧ (s.stopped = true → (∀ j, (b.name, j) ∉ r.new) → ¬ FallsBack strategyId s b)

omit [DecidableEq I] in
theorem Leaves.fallsBack (h : Leaves strategyId s b) : FallsBack strategyId s b := by
  rcases h with h | ⟨h, _⟩
  · exact .inl h
  · exact .inr (.inr h)

omit [DecidableEq I] in
/-- The strategies kept so far are as they were. -/
theorem Under.kept_retrieved (h : Under st r none) (hok : Undisturbed strategyId r b)
    {res : Option Nat} (hout : Outcome strategyId r.store b res heap) (hmem : (n, j) ∈ r.new) :
    heap[j]? = r.store.heap[j]? := by
  obtain ⟨s, hs, hname, _⟩ := h.keyed n j hmem
  by_cases hlive : r.store.live b.name = some j
  · -- the live instance, kept by an earlier block
    obtain ⟨_, s', hs', hname'⟩ := Store.live_some hlive
    rw [hs] at hs'
    cases hs'
    have hleaves : Leaves strategyId s b := (hok j s hlive hs).1 (hname'.symm.trans hname ▸ hmem)
    cases hout with
    | keeps config reported hlive' hs' _ _ _ hsame =>
      rw [hlive] at hlive'
      cases hlive'
      rw [hs] at hs'
      cases hs'
      obtain ⟨rfl, rfl⟩ := hsame hleaves
      rw [modify_config hs]
    | refused hnone => exact nomatch hlive.symm.trans hnone
    | makes _ _ _ hback => exact absurd hleaves.fallsBack (hback j s hlive hs)
  · rw [hout.others hs hlive, hs]

theorem take_kept (h : Under st r (some i)) (hmem : (n, j) ∈ r.new) :
    (r.take i).store.heap[j]? = r.store.heap[j]? ∧ (n, j) ∈ (r.take i).new := by
  obtain ⟨s, hs, _⟩ := h.result i rfl
  obtain ⟨t, ht, hname, _⟩ := h.keyed n j hmem
  unfold Refresh.take
  rw [hs]
  dsimp only
  cases hlook : r.new.lookup s.name with
  | none => exact ⟨rfl, List.mem_append_left _ hmem⟩
  | some kept =>
    dsimp only
    by_cases hne : kept = i
    · rw [if_neg (not_not_intro hne)]
      exact ⟨rfl, hmem⟩
    · rw [if_pos hne]
      refine ⟨?_, hmem⟩
      have hij : i ≠ j := by
        intro hij
        subst hij
        rw [hs] at ht
        cases ht
        have hkept := lookup_mem hlook
        rw [hname] at hkept
        exact hne (h.unique n kept i hkept hmem)
      show (r.store.shutdown i).heap[j]? = _
      rw [shutdown_get, ht, Option.map_some, if_neg hij]

/-- What an earlier block settled stays as it is. -/
theorem Under.kept_block (htidy : Tidy st) (h : Under st r none) (hok : Undisturbed strategyId r b)
    (hmem : (n, j) ∈ r.new) :
    (r.block strategyId b).store.heap[j]? = r.store.heap[j]? ∧ (n, j) ∈ (r.block strategyId b).new := by
  rcases h.block_cases strategyId htidy b with ⟨store, hout, heq, _⟩ | ⟨i, store, hout, heq, hgot⟩
  · rw [heq]
    exact ⟨h.kept_retrieved hok hout hmem, hmem⟩
  · obtain ⟨hheap, hnew⟩ := take_kept hgot hmem
    rw [heq]
    exact ⟨hheap.trans (h.kept_retrieved hok hout hmem), hnew⟩

theorem mem_take (h : Under st r (some i)) (hmem : (n, j) ∈ (r.take i).new) :
    (n, j) ∈ r.new ∨ j = i ∧ ∀ k, (n, k) ∉ r.new := by
  obtain ⟨s, hs, _⟩ := h.result i rfl
  unfold Refresh.take at hmem
  rw [hs] at hmem
  dsimp only at hmem
  cases hlook : r.new.lookup s.name with
  | some kept =>
    rw [hlook] at hmem
    dsimp only at hmem
    split at hmem
    next => exact .inl hmem
    next => exact .inl hmem
  | none =>
    rw [hlook] at hmem
    rcases List.mem_append.mp hmem with hmem | hmem
    · exact .inl hmem
    · cases List.mem_singleton.mp hmem
      exact .inr ⟨rfl, lookup_absent hlook⟩

/-- What was got is kept, unless its name is taken. -/
theorem take_new (hs : r.store.heap[i]? = some s) (habsent : ∀ k, (s.name, k) ∉ r.new) :
    (s.name, i) ∈ (r.take i).new ∧ (r.take i).store = r.store := by
  unfold Refresh.take
  rw [hs]
  dsimp only
  cases hlook : r.new.lookup s.name with
  | some kept => exact absurd (lookup_mem hlook) (habsent kept)
  | none => exact ⟨List.mem_append_right _ (List.mem_singleton.mpr rfl), rfl⟩

/-- A strategy of the block is started. -/
def Starts (b : Block P) : Prop := Builds b ∧ b.answers.start = none

/-- How the strategy kept for a block is configured: as the block says, or, where the block was
refused, as it was before or as a failed live update left it. -/
def ConfiguredBy (strategyId : String → P → I) (st : Store P) (i : Nat) (s : Strategy P)
    (b : Block P) : Prop :=
  Runs strategyId s b
    ∨ ¬ Builds b ∧ ∃ s₀, st.heap[i]? = some s₀ ∧ (s.config = s₀.config
      ∨ ∃ config reported, b.answers.update = .failed config reported ∧ s.config = config)

/-- The first block of the name from which a strategy could be had. -/
def Decides (blocks : List (Block P)) (n : String) (b : Block P) : Prop :=
  ∃ before after, blocks = before ++ b :: after ∧ b.name = n
    ∧ ∀ b' ∈ before, b'.name = n → ¬ Starts b'

/-- After the blocks `done` of a refresh in which each was undisturbed. -/
structure Settled (strategyId : String → P → I) (st : Store P) (done : List (Block P))
    (r : Refresh P) : Prop where
  kept : ∀ n i, (n, i) ∈ r.new → ∃ s, r.store.heap[i]? = some s ∧ s.stopped = false
    ∧ ∃ b, Decides done n b ∧ ConfiguredBy strategyId st i s b
  untouched : ∀ i ∈ st.active, ∀ s, r.store.heap[i]? = some s → s.stopped = false →
    (∀ j, (s.name, j) ∉ r.new) → st.heap[i]? = some s
  failed : ∀ b ∈ done, (∀ j, (b.name, j) ∉ r.new) → ¬ Starts b

theorem Decides.extend {b : Block P} (h : Decides done n b) (b' : Block P) :
    Decides (done ++ [b']) n b := by
  obtain ⟨before, after, rfl, hname, hbefore⟩ := h
  exact ⟨before, after ++ [b'], by simp, hname, hbefore⟩

omit [DecidableEq I] in
/-- No strategy was had: none of the block was started. -/
theorem Outcome.not_starts (h : Outcome strategyId r.store b none heap) : ¬ Starts b := by
  generalize hres : none = res at h
  intro hstarts
  cases h with
  | keeps => cases hres
  | refused _ hbuilds => exact hbuilds hstarts.1
  | makes =>
    rw [hstarts.2] at hres
    cases hres

omit [DecidableEq I] in
/-- The strategy that was had, for a name that had none: it runs, as the block says or as it
did before. -/
theorem Outcome.decided
    (h : Outcome strategyId r.store b (some i) heap) (hok : Undisturbed strategyId r b)
    (habsent : ∀ j, (b.name, j) ∉ r.new)
    (huntouched : ∀ s, r.store.live b.name = some i → r.store.heap[i]? = some s →
      s.stopped = false → st.heap[i]? = some s) :
    ∃ s, heap[i]? = some s ∧ s.stopped = false ∧ ConfiguredBy strategyId st i s b := by
  generalize hres : some i = res at h
  cases h with
  | refused => cases hres
  | @keeps _ s config reported hlive hs hback hruns hleft =>
    cases hres
    have hrunning : s.stopped = false := by
      cases hstopped : s.stopped with
      | false => rfl
      | true => exact absurd hback ((hok i s hlive hs).2 hstopped habsent)
    refine ⟨{ s with config := config, reported := reported }, ?_, hrunning, ?_⟩
    · rw [List.getElem?_modify_eq, hs]
      rfl
    · by_cases hkept : Same strategyId s b ∨ Updates s b
      · exact .inl (hruns hkept)
      · refine .inr ⟨?_, s, huntouched s hlive hs hrunning, ?_⟩
        · rcases hback with h | h | h
          · exact absurd (.inl h) hkept
          · exact absurd (.inr h) hkept
          · exact h
        · rcases hleft fun h => hkept (.inr h) with h | h
          · exact .inl h
          · exact .inr ⟨config, reported, h, rfl⟩
  | @makes made old hbuild hnone hold =>
    split at hres
    next hstart =>
      cases hres
      obtain ⟨_, hconfig, hstopped, _⟩ := buildStrategy_ok hbuild
      refine ⟨{ made with started := b.answers.start.isNone }, ?_, hstopped, .inl (.inl hconfig)⟩
      rw [← makes_length hnone hold, List.getElem?_concat_length]
    next => cases hres

/-- The block's name has a strategy once it had one. -/
theorem take_named (hs : r.store.heap[i]? = some s) : ∃ j, (s.name, j) ∈ (r.take i).new := by
  unfold Refresh.take
  rw [hs]
  dsimp only
  cases hlook : r.new.lookup s.name with
  | none => exact ⟨i, List.mem_append_right _ (List.mem_singleton.mpr rfl)⟩
  | some kept =>
    refine ⟨kept, ?_⟩
    dsimp only
    split
    next => exact lookup_mem hlook
    next => exact lookup_mem hlook

theorem ages_take (r : Refresh P) (i : Nat) : Ages r.store.heap (r.take i).store.heap := by
  unfold Refresh.take
  split
  next => exact .refl _
  next =>
    split
    next =>
      split
      next => exact ages_modify _ _ (fun _ => rfl) (fun _ => rfl) (fun _ _ => rfl)
      next => exact .refl _
    next => exact .refl _

theorem take_other (hij : i ≠ j) : (r.take i).store.heap[j]? = r.store.heap[j]? := by
  unfold Refresh.take
  split
  next => rfl
  next =>
    split
    next =>
      split
      next =>
        show (r.store.shutdown i).heap[j]? = _
        rw [shutdown_get]
        simp [hij]
      next => rfl
    next => rfl

omit [DecidableEq I] in
/-- Nothing was had, so the live strategy was shut down. -/
theorem Outcome.shut_down (h : Outcome strategyId st b none heap) (hlive : st.live b.name = some i)
    (hs : heap[i]? = some s) : s.stopped = true := by
  generalize hres : none = res at h
  cases h with
  | keeps => cases hres
  | refused hno => exact nomatch hlive.symm.trans hno
  | @makes made old _ hnone hold =>
    have hlen := makes_length hnone hold
    obtain ⟨config, reported, rfl⟩ := hold i hlive
    obtain ⟨_, t, ht, _⟩ := Store.live_some hlive
    have hlt := (List.getElem?_eq_some_iff.mp ht).1
    rw [List.getElem?_append_left (by omega), List.getElem?_modify_eq, ht] at hs
    cases hs
    rfl

/-- A running strategy of the old set whose name has none yet was not touched. -/
theorem Under.untouched_block (htidy : Tidy st) (h : Under st r none) (hi : i ∈ st.active)
    (hs : (r.block strategyId b).store.heap[i]? = some s) (hstopped : s.stopped = false)
    (habsent : ∀ j, (s.name, j) ∉ (r.block strategyId b).new) : r.store.heap[i]? = some s := by
  obtain ⟨s₀, hs₀, _⟩ := htidy.started i hi
  obtain ⟨s₁, hs₁, _⟩ := h.ages i s₀ hs₀
  rcases h.block_cases strategyId htidy b with ⟨store, hout, heq, _⟩ | ⟨k, store, hout, heq, _⟩
  · rw [heq] at hs
    by_cases hlive : r.store.live b.name = some i
    · exact absurd (hout.shut_down hlive hs) (by rw [hstopped]; exact Bool.false_ne_true)
    · have hsame := (hout.others hs₁ hlive).symm.trans hs
      exact hs₁.trans hsame
  · rw [heq] at hs habsent
    obtain ⟨t, ht, hname, _⟩ := hout.result
    obtain ⟨s₂, hs₂, hname₂, _⟩ := hout.ages i s₁ hs₁
    obtain ⟨s₃, hs₃, hname₃, _⟩ := ages_take { r with store := store } k i s₂ hs₂
    rw [hs] at hs₃
    cases hs₃
    -- the strategy that was had has the block's name, this one has not
    have hother : s₂.name ≠ b.name := by
      intro hsame
      obtain ⟨j, hj⟩ := take_named (r := { r with store := store }) ht
      rw [hname, ← hsame, ← hname₃] at hj
      exact habsent j hj
    have hki : k ≠ i := by
      intro hki
      subst hki
      rw [hs₂] at ht
      cases ht
      exact hother hname
    have hlive : r.store.live b.name ≠ some i := by
      intro hlive
      obtain ⟨_, s', hs', hname'⟩ := Store.live_some hlive
      rw [hs₁] at hs'
      cases hs'
      exact hother (hname₂.trans hname')
    rw [take_other hki] at hs
    exact hs₁.trans ((hout.others hs₁ hlive).symm.trans hs)

/-- The strategy kept for a name in this turn. -/
theorem Settled.decided (htidy : Tidy st) (h : Under st r none) (hok : Undisturbed strategyId r b)
    (hset : Settled strategyId st done r) (hmem : (n, i) ∈ (r.block strategyId b).new)
    (hnew : (n, i) ∉ r.new) :
    ∃ s, (r.block strategyId b).store.heap[i]? = some s ∧ s.stopped = false
      ∧ ∃ b', Decides (done ++ [b]) n b' ∧ ConfiguredBy strategyId st i s b' := by
  rcases h.block_cases strategyId htidy b with ⟨store, _, heq, _⟩ | ⟨k, store, hout, heq, hgot⟩
  · rw [heq] at hmem
    exact absurd hmem hnew
  · rw [heq] at hmem ⊢
    rcases mem_take hgot hmem with hmem | ⟨rfl, habsent⟩
    · exact absurd hmem hnew
    · obtain ⟨t, ht, hname, _⟩ := hout.result
      obtain ⟨t', ht', hname', _⟩ := hgot.take.keyed n i hmem
      obtain ⟨t'', ht'', hname'', _⟩ := ages_take { r with store := store } i i t ht
      rw [ht'] at ht''
      cases ht''
      obtain rfl : n = b.name := hname'.symm.trans (hname''.trans hname)
      have huntouched : ∀ s, r.store.live b.name = some i → r.store.heap[i]? = some s →
          s.stopped = false → st.heap[i]? = some s := by
        intro s hlive hs hstopped
        obtain ⟨hact, s', hs', hsname⟩ := Store.live_some hlive
        rw [hs] at hs'
        cases hs'
        rw [h.active] at hact
        exact hset.untouched i hact s hs hstopped (hsname ▸ habsent)
      obtain ⟨s, hs, hstopped, hconf⟩ := hout.decided hok habsent huntouched
      have hsname : s.name = b.name := by
        rw [ht] at hs
        cases hs
        exact hname
      refine ⟨s, ?_, hstopped, b, ⟨done, [], by simp, rfl, fun b' hb' hsame => ?_⟩, hconf⟩
      · have hstore := (take_new (r := { r with store := store }) hs (hsname ▸ habsent)).2
        rw [hstore]
        exact hs
      · exact hset.failed b' hb' (hsame ▸ habsent)

theorem Settled.block (htidy : Tidy st) (h : Under st r none) (hok : Undisturbed strategyId r b)
    (hset : Settled strategyId st done r) :
    Settled strategyId st (done ++ [b]) (r.block strategyId b) := by
  refine ⟨fun n i hmem => ?_, fun i hi s hs hstopped habsent => ?_, fun b' hb' habsent => ?_⟩
  · by_cases hold : (n, i) ∈ r.new
    · obtain ⟨s, hs, hstopped, b', hb', hconf⟩ := hset.kept n i hold
      refine ⟨s, ?_, hstopped, b', hb'.extend b, hconf⟩
      rw [(h.kept_block htidy hok hold).1]
      exact hs
    · exact hset.decided htidy h hok hmem hold
  · have hs' := h.untouched_block htidy hi hs hstopped habsent
    refine hset.untouched i hi s hs' hstopped fun j hj => ?_
    exact habsent j (h.kept_block htidy hok hj).2
  · have hbefore : ∀ j, (b'.name, j) ∉ r.new := fun j hj => habsent j (h.kept_block htidy hok hj).2
    rcases List.mem_append.mp hb' with hb' | hb'
    · exact hset.failed b' hb' hbefore
    · cases List.mem_singleton.mp hb'
      rcases h.block_cases strategyId htidy b with ⟨store, hout, _⟩ | ⟨k, store, hout, heq, _⟩
      · exact hout.not_starts
      · obtain ⟨t, ht, hname, _⟩ := hout.result
        obtain ⟨j, hj⟩ := take_named (r := { r with store := store }) ht
        rw [hname, ← heq] at hj
        exact absurd hj (habsent j)

omit [DecidableEq I] in
theorem settled_start (st : Store P) (blocks : List (Block P)) :
    Settled strategyId st [] (Refresh.start st blocks) :=
  ⟨nofun, fun _ _ _ hs _ _ => hs, nofun⟩

/-- No block of the refresh works on an instance an earlier one has settled. -/
def Calm (strategyId : String → P → I) (st : Store P) (blocks : List (Block P)) : Prop :=
  Admits (fun r b => some (r.block strategyId b)) (Undisturbed strategyId)
    (Refresh.start st blocks) blocks

theorem Settled.blocks (htidy : Tidy st) : ∀ (blocks done : List (Block P)) {r : Refresh P},
    Under st r none → Settled strategyId st done r →
    Admits (fun r b => some (r.block strategyId b)) (Undisturbed strategyId) r blocks →
    Settled strategyId st (done ++ blocks) (blocks.foldl (Refresh.block strategyId) r) := by
  intro blocks
  induction blocks with
  | nil =>
    intro done r _ hset _
    rw [List.append_nil]
    exact hset
  | cons b blocks ih =>
    intro done r h hset hcalm
    obtain ⟨hok, hrest⟩ := hcalm
    have hnext := ih (done ++ [b]) (h.block htidy b) (hset.block htidy h hok) hrest
    rw [List.append_assoc] at hnext
    exact hnext

end Loop

/-! ## Every sequence of refreshes -/

/-- The store after the refreshes of a history. -/
def refreshed (strategyId : String → P → I) (history : List (List (Block P))) : Store P :=
  history.foldl (onConfigRefreshed strategyId) {}

theorem tidy_empty : Tidy ({} : Store P) := ⟨nofun, nofun, nofun⟩

theorem refreshed_tidy (strategyId : String → P → I) (history : List (List (Block P))) :
    Tidy (refreshed strategyId history) := by
  have hrun := runSchedule_total (onConfigRefreshed strategyId) history {}
  exact runSchedule_keeps (fun st blocks st' h hstep => by
    cases hstep
    exact h.refresh blocks) history tidy_empty hrun

/-- After every refresh the active strategies were started, no two share a name and all others
that were started have been shut down. If no block of the last refresh worked on an instance an
earlier block had settled, the active ones run, each as the first block of its name says from
which a strategy could be had, or as before where that block was refused. -/
theorem refreshes_one_live (strategyId : String → P → I) (history : List (List (Block P)))
    (blocks : List (Block P)) :
    Tidy (onConfigRefreshed strategyId (refreshed strategyId history) blocks)
      ∧ (Calm strategyId (refreshed strategyId history) blocks →
        ∀ i ∈ (onConfigRefreshed strategyId (refreshed strategyId history) blocks).active,
          ∃ s, (onConfigRefreshed strategyId (refreshed strategyId history) blocks).heap[i]? = some s
            ∧ s.stopped = false ∧ ∃ b, Decides blocks s.name b
              ∧ ConfiguredBy strategyId (refreshed strategyId history) i s b) := by
  have htidy := refreshed_tidy strategyId history
  refine ⟨htidy.refresh blocks, fun hcalm i hi => ?_⟩
  have hunder := Under.blocks strategyId htidy blocks (under_start _ blocks)
  have hset := (settled_start _ blocks).blocks htidy blocks [] (under_start _ blocks) hcalm
  obtain ⟨⟨n, j⟩, hmem, hj⟩ := List.mem_map.mp hi
  obtain rfl : i = j := hj.symm
  obtain ⟨s, hs, hstopped, b, hdecides, hconf⟩ := hset.kept n i hmem
  obtain ⟨s', hs', hname, _⟩ := hunder.keyed n i hmem
  rw [hs] at hs'
  cases hs'
  refine ⟨s, (finish_kept hmem).2.trans hs, hstopped, b, ?_, hconf⟩
  rw [hname]
  exact hdecides

/-- A block of the output "x" that is built and started, and one that is refused. -/
def accepted (n : Nat) : Block Nat :=
  { name := "x", params := n, answers := ⟨.failed 0 0, .made false n, none, none⟩ }

def rejected (n : Nat) : Block Nat :=
  { name := "x", params := n, answers := ⟨.failed 0 0, .error "refused", none, none⟩ }

theorem refreshes_one_live_replaced :
    Tidy (onConfigRefreshed Prod.mk (refreshed Prod.mk [[accepted 0]]) [accepted 1, accepted 1])
      ∧ (onConfigRefreshed Prod.mk (refreshed Prod.mk [[accepted 0]]) [accepted 1, accepted 1]).active
        = [1]
      ∧ ∃ s, (onConfigRefreshed Prod.mk (refreshed Prod.mk [[accepted 0]])
          [accepted 1, accepted 1]).heap[1]? = some s ∧ s.stopped = false := by
  obtain ⟨htidy, hlive⟩ := refreshes_one_live Prod.mk [[accepted 0]] [accepted 1, accepted 1]
  have hcalm : Calm Prod.mk (refreshed Prod.mk [[accepted 0]]) [accepted 1, accepted 1] := by
    refine ⟨fun i s hlive hs => ⟨nofun, fun hstopped => ?_⟩,
      fun i s hlive hs => ⟨fun hmem => ?_, fun _ habsent => ?_⟩, trivial⟩
    · cases hlive
      cases hs
      cases hstopped
    · cases hlive
      exact absurd hmem (by decide)
    · exact absurd (List.mem_singleton.mpr rfl) (habsent 1)
  obtain ⟨s, hs, hstopped, _⟩ := hlive hcalm 1 (by decide)
  exact ⟨htidy, rfl, s, hs, hstopped⟩

/-- Two blocks of one name. Both refused: the strategy kept runs with neither's parameters. The
first the running strategy's, the second not: the strategy kept has been shut down. -/
theorem repeatedName_not_first :
    ((onConfigRefreshed Prod.mk (refreshed Prod.mk [[accepted 0]]) [rejected 1, rejected 2]).active
        = [0]
      ∧ ((onConfigRefreshed Prod.mk (refreshed Prod.mk [[accepted 0]])
          [rejected 1, rejected 2]).heap.map fun s => (s.config, s.reported)) = [(0, 0)])
    ∧ (onConfigRefreshed Prod.mk (refreshed Prod.mk [[accepted 0]]) [accepted 0, accepted 1]).active
        = [0]
      ∧ ((onConfigRefreshed Prod.mk (refreshed Prod.mk [[accepted 0]])
          [accepted 0, accepted 1]).heap.map fun s => s.stopped) = [true, true] :=
  ⟨⟨rfl, rfl⟩, rfl, rfl⟩

end SenhubAgent.DataStore

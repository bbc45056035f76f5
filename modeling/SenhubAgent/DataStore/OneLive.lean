import SenhubAgent.DataStore.Refresh

/-!
# What a refresh leaves behind

Whatever the storage list and whatever the calls answer: after a refresh every active strategy
was started, no two share a name, and every other strategy that was started has been shut
down (`Tidy`).

The proof says once what `retrieveOrCreate` can do to the heap (`Outcome`); the invariant of
the loop over the blocks (`Under`) and what the end of a refresh makes of it follow from that.
-/

namespace SenhubAgent.DataStore

open SenhubAgent.Lib

variable {P I : Type} [DecidableEq I] {strategyId : String → P → I}

/-! ## What a block meets -/

/-- The strategy is configured as the block says. -/
def Same (strategyId : String → P → I) (s : Strategy P) (b : Block P) : Prop :=
  strategyId s.name s.reported = strategyId b.name b.params

/-- A live update of the strategy succeeds. -/
def Updates (s : Strategy P) (b : Block P) : Prop :=
  s.updatable = true ∧ ∃ reported, b.answers.update = .applied reported

/-- A strategy can be built from the block. -/
def Builds (b : Block P) : Prop := ∃ s, buildStrategy b = .ok s

/-- The strategy runs with the block's parameters. -/
def Runs (strategyId : String → P → I) (s : Strategy P) (b : Block P) : Prop :=
  s.config = b.params ∨ Same strategyId s b

/-- The block ends at the strategy it found, not at a new one. -/
def FallsBack (strategyId : String → P → I) (s : Strategy P) (b : Block P) : Prop :=
  Same strategyId s b ∨ Updates s b ∨ ¬ Builds b

/-- The block leaves the strategy it found as it is. -/
def Leaves (strategyId : String → P → I) (s : Strategy P) (b : Block P) : Prop :=
  Same strategyId s b
    ∨ ¬ Builds b ∧ (s.updatable = true → b.answers.update = .failed s.config s.reported)

/-! ## What `retrieveOrCreate` does -/

variable {b : Block P} {s : Strategy P} {heap : List (Strategy P)}

theorem buildStrategy_ok (h : buildStrategy b = .ok s) :
    s.name = b.name ∧ s.config = b.params ∧ s.stopped = false ∧ s.started = false := by
  unfold buildStrategy at h
  split at h
  next => cases h
  next => cases h
  next => cases h
  next =>
    split at h
    next => cases h
    next => cases h; exact ⟨rfl, rfl, rfl, rfl⟩

namespace Store

theorem live_some {st : Store P} {name : String} {i : Nat} (h : st.live name = some i) :
    i ∈ st.active ∧ ∃ s, st.heap[i]? = some s ∧ s.name = name := by
  refine ⟨List.mem_of_find?_eq_some h, ?_⟩
  have hname := List.find?_some h
  rw [Option.any_eq_true] at hname
  obtain ⟨s, hs, hname⟩ := hname
  exact ⟨s, hs, beq_iff_eq.mp hname⟩

theorem create_refused {f : StrategyFailure} (h : buildStrategy b = .error f) (st : Store P)
    (replaced : Option Nat) :
    (st.create replaced b).1 = replaced ∧ (st.create replaced b).2.heap = st.heap
      ∧ (st.create replaced b).2.active = st.active := by
  unfold create
  rw [h]
  exact ⟨rfl, rfl, rfl⟩

theorem create_made (h : buildStrategy b = .ok s) (st : Store P) (replaced : Option Nat) :
    (st.create replaced b).1 = (if b.answers.start.isNone then some st.heap.length else none)
      ∧ (st.create replaced b).2.heap
        = (match replaced with
          | some i => (st.shutdown i).heap
          | none => st.heap) ++ [{ s with started := b.answers.start.isNone }]
      ∧ (st.create replaced b).2.active = st.active := by
  have hfresh : s.started = false := (buildStrategy_ok h).2.2.2
  have hlen : ∀ i, (st.shutdown i).heap.length = st.heap.length := fun i => List.length_modify ..
  unfold create
  rw [h]
  cases hstart : b.answers.start with
  | none =>
    cases replaced with
    | none => exact ⟨rfl, rfl, rfl⟩
    | some i => exact ⟨congrArg some (hlen i), rfl, rfl⟩
  | some err =>
    have hs : { s with started := false } = s := by rw [← hfresh]
    simp only [Option.isNone_some]
    rw [hs]
    cases replaced with
    | none => exact ⟨rfl, rfl, rfl⟩
    | some i => exact ⟨rfl, rfl, rfl⟩

end Store

/-- The two ways a heap is changed: the found strategy is adjusted, or it is shut down and a
new one added. -/
inductive Outcome (strategyId : String → P → I) (st : Store P) (b : Block P) :
    Option Nat → List (Strategy P) → Prop
  /-- the strategy found is kept, perhaps with another configuration -/
  | keeps {i : Nat} {s : Strategy P} (config reported : P) (hlive : st.live b.name = some i)
      (hs : st.heap[i]? = some s) (hback : FallsBack strategyId s b)
      (hruns : Same strategyId s b ∨ Updates s b →
        Runs strategyId { s with config := config, reported := reported } b)
      (hleft : ¬ Updates s b → config = s.config ∨ b.answers.update = .failed config reported)
      (hleaves : Leaves strategyId s b → config = s.config ∧ reported = s.reported) :
      Outcome strategyId st b (some i)
        (st.heap.modify i fun s => { s with config := config, reported := reported })
  /-- there is none, and none could be made -/
  | refused (hlive : st.live b.name = none) (hbuilds : ¬ Builds b) :
      Outcome strategyId st b none st.heap
  /-- a new one was made, and the one found was shut down -/
  | makes {s : Strategy P} {old : List (Strategy P)} (hs : buildStrategy b = .ok s)
      (hnone : st.live b.name = none → old = st.heap)
      (hold : ∀ i, st.live b.name = some i → ∃ config reported, old = st.heap.modify i fun s =>
        { s with config := config, reported := reported, stopped := true })
      (hback : ∀ i s, st.live b.name = some i → st.heap[i]? = some s → ¬ FallsBack strategyId s b) :
      Outcome strategyId st b (if b.answers.start.isNone then some st.heap.length else none)
        (old ++ [{ s with started := b.answers.start.isNone }])

theorem not_builds {f : StrategyFailure} (h : buildStrategy b = .error f) : ¬ Builds b := by
  intro hbuilds
  obtain ⟨s, hs⟩ := hbuilds
  rw [h] at hs
  cases hs

/-- Setting the configuration a strategy has. -/
theorem modify_config {i : Nat} (hs : heap[i]? = some s) :
    heap.modify i (fun t => { t with config := s.config, reported := s.reported }) = heap := by
  apply List.ext_getElem?
  intro j
  rw [List.getElem?_modify]
  by_cases hj : i = j
  · subst hj
    rw [hs]
    simp
  · simp [hj]

omit [DecidableEq I] in
/-- The last part of `retrieveOrCreate`, with the found strategy possibly changed by a failed
update. -/
theorem create_outcome {st : Store P} {i : Nat} (hlive : st.live b.name = some i)
    (hs : st.heap[i]? = some s) (hsame : ¬ Same strategyId s b) (hupdates : ¬ Updates s b)
    (config reported : P) (hleft : s.updatable = true → b.answers.update = .failed config reported)
    (hleft' : s.updatable = false → config = s.config ∧ reported = s.reported) {st' : Store P}
    (hheap : st'.heap = st.heap.modify i fun s => { s with config := config, reported := reported })
    (hactive : st'.active = st.active) :
    Outcome strategyId st b (st'.create (some i) b).1 (st'.create (some i) b).2.heap
      ∧ (st'.create (some i) b).2.active = st.active := by
  cases hbuild : buildStrategy b with
  | error f =>
    obtain ⟨h1, h2, h3⟩ := Store.create_refused hbuild st' (some i)
    rw [h1, h2, h3, hheap]
    refine ⟨.keeps config reported hlive hs (.inr (.inr (not_builds hbuild))) ?_ ?_ ?_, hactive⟩
    · intro h
      rcases h with h | h
      · exact absurd h hsame
      · exact absurd h hupdates
    · intro _
      cases hup : s.updatable with
      | false => exact .inl (hleft' hup).1
      | true => exact .inr (hleft hup)
    · intro h
      rcases h with h | ⟨_, h⟩
      · exact absurd h hsame
      · cases hup : s.updatable with
        | false => exact hleft' hup
        | true =>
          have hfailed := (hleft hup).symm.trans (h hup)
          cases hfailed
          exact ⟨rfl, rfl⟩
  | ok made =>
    obtain ⟨h1, h2, h3⟩ := Store.create_made hbuild st' (some i)
    have hlen : st'.heap.length = st.heap.length := by rw [hheap, List.length_modify]
    rw [h1, h2, h3, hlen]
    refine ⟨.makes hbuild (fun h => ?_) (fun j hj => ?_) (fun j t hj ht hback => ?_), hactive⟩
    · rw [hlive] at h
      cases h
    · rw [hlive] at hj
      cases hj
      refine ⟨config, reported, ?_⟩
      show st'.heap.modify i _ = _
      rw [hheap, List.modify_modify_eq]
      rfl
    · rw [hlive] at hj
      cases hj
      rw [hs] at ht
      cases ht
      rcases hback with h | h | h
      · exact hsame h
      · exact hupdates h
      · exact h ⟨made, hbuild⟩

theorem retrieveOrCreate_outcome (strategyId : String → P → I) (st : Store P) (b : Block P) :
    Outcome strategyId st b (st.retrieveOrCreate strategyId b).1
        (st.retrieveOrCreate strategyId b).2.heap
      ∧ (st.retrieveOrCreate strategyId b).2.active = st.active := by
  unfold Store.retrieveOrCreate
  cases hlive : st.live b.name with
  | none =>
    cases hbuild : buildStrategy b with
    | error f =>
      obtain ⟨h1, h2, h3⟩ := Store.create_refused hbuild st none
      rw [h1, h2, h3]
      exact ⟨.refused hlive (not_builds hbuild), rfl⟩
    | ok made =>
      obtain ⟨h1, h2, h3⟩ := Store.create_made hbuild st none
      rw [h1, h2, h3]
      refine ⟨.makes hbuild (fun _ => rfl) (fun j hj => ?_) (fun j t hj => ?_), rfl⟩
      · rw [hlive] at hj
        cases hj
      · rw [hlive] at hj
        cases hj
  | some i =>
    obtain ⟨_, s, hs, _⟩ := Store.live_some hlive
    dsimp only
    rw [hs]
    dsimp only
    split
    next hsame =>
      have hkeeps : Outcome strategyId st b (some i) _ := .keeps s.config s.reported hlive hs
        (.inl hsame) (fun _ => .inr hsame) (fun _ => .inl rfl) (fun _ => ⟨rfl, rfl⟩)
      rw [modify_config hs] at hkeeps
      exact ⟨hkeeps, rfl⟩
    next hsame =>
      split
      next hup =>
        cases hupdate : b.answers.update with
        | applied reported =>
          have happlied : Updates s b := ⟨hup, reported, hupdate⟩
          refine ⟨.keeps b.params reported hlive hs (.inr (.inl happlied)) (fun _ => .inl rfl)
            (fun h => absurd happlied h) ?_, rfl⟩
          intro h
          rcases h with h | ⟨_, h⟩
          · exact absurd h hsame
          · have hfailed := hupdate.symm.trans (h hup)
            cases hfailed
        | failed config reported =>
          have hfails : ¬ Updates s b := by
            intro h
            obtain ⟨_, rep, h⟩ := h
            cases hupdate.symm.trans h
          exact create_outcome hlive hs hsame hfails config reported (fun _ => hupdate)
            (fun h => absurd (h.symm.trans hup) Bool.false_ne_true) rfl rfl
      next hup =>
        have hfails : ¬ Updates s b := fun h => hup h.1
        exact create_outcome hlive hs hsame hfails s.config s.reported (fun h => absurd h hup)
          (fun _ => ⟨rfl, rfl⟩) (modify_config hs).symm rfl

/-! ## What that means for each strategy -/

/-- Strategies keep their name and stay started, and stay shut down. -/
def Ages (heap heap' : List (Strategy P)) : Prop :=
  ∀ (j : Nat) (s : Strategy P), heap[j]? = some s → ∃ s' : Strategy P, heap'[j]? = some s'
    ∧ s'.name = s.name
    ∧ s'.started = s.started ∧ (s.stopped = true → s'.stopped = true)

theorem Ages.refl (heap : List (Strategy P)) : Ages heap heap :=
  fun _ s hs => ⟨s, hs, rfl, rfl, id⟩

theorem Ages.trans {h₁ h₂ h₃ : List (Strategy P)} (h : Ages h₁ h₂) (h' : Ages h₂ h₃) :
    Ages h₁ h₃ := by
  intro j s hs
  obtain ⟨s', hs', hname, hstarted, hstopped⟩ := h j s hs
  obtain ⟨s'', hs'', hname', hstarted', hstopped'⟩ := h' j s' hs'
  exact ⟨s'', hs'', hname'.trans hname, hstarted'.trans hstarted, fun h => hstopped' (hstopped h)⟩

theorem Ages.length_le {heap' : List (Strategy P)} (h : Ages heap heap') :
    heap.length ≤ heap'.length := by
  refine Nat.le_of_not_lt fun hlt => ?_
  obtain ⟨s, hs, _⟩ := h heap'.length heap[heap'.length] (List.getElem?_eq_getElem hlt)
  rw [List.getElem?_eq_none (Nat.le_refl _)] at hs
  cases hs

theorem ages_modify (heap : List (Strategy P)) (i : Nat) {f : Strategy P → Strategy P}
    (hname : ∀ s, (f s).name = s.name) (hstarted : ∀ s, (f s).started = s.started)
    (hstopped : ∀ s, s.stopped = true → (f s).stopped = true) : Ages heap (heap.modify i f) := by
  intro j s hs
  rw [List.getElem?_modify, hs]
  by_cases hj : i = j
  · exact ⟨f s, by simp [hj], hname s, hstarted s, hstopped s⟩
  · exact ⟨s, by simp [hj], rfl, rfl, id⟩

theorem ages_append (heap more : List (Strategy P)) : Ages heap (heap ++ more) := by
  intro j s hs
  have hlt := (List.getElem?_eq_some_iff.mp hs).1
  exact ⟨s, by rw [List.getElem?_append_left hlt]; exact hs, rfl, rfl, id⟩

section Effect

omit [DecidableEq I]

variable {st : Store P} {b : Block P} {res : Option Nat} {heap : List (Strategy P)}

theorem Outcome.ages (h : Outcome strategyId st b res heap) : Ages st.heap heap := by
  cases h with
  | keeps config reported =>
    exact ages_modify _ _ (fun _ => rfl) (fun _ => rfl) (fun _ h => h)
  | refused => exact .refl _
  | @makes s old _ hnone hold =>
    refine Ages.trans ?_ (ages_append old _)
    cases hlive : st.live b.name with
    | none => rw [hnone hlive]; exact .refl _
    | some i =>
      obtain ⟨config, reported, rfl⟩ := hold i hlive
      exact ages_modify _ _ (fun _ => rfl) (fun _ => rfl) (fun _ _ => rfl)

/-- Only the strategy found is touched. -/
theorem Outcome.others (h : Outcome strategyId st b res heap) {j : Nat} (hs : st.heap[j]? = some s)
    (hj : st.live b.name ≠ some j) : heap[j]? = some s := by
  cases h with
  | keeps config reported hlive =>
    rw [List.getElem?_modify_ne _ _ (fun hij => hj (by rw [hlive, hij]))]
    exact hs
  | refused => exact hs
  | @makes s' old _ hnone hold =>
    have hold' : old[j]? = some s := by
      cases hlive : st.live b.name with
      | none => rw [hnone hlive]; exact hs
      | some i =>
        obtain ⟨config, reported, rfl⟩ := hold i hlive
        rw [List.getElem?_modify_ne _ _ (fun hij => hj (by rw [hlive, hij]))]
        exact hs
    rw [List.getElem?_append_left (List.getElem?_eq_some_iff.mp hold').1]
    exact hold'

theorem makes_length {old : List (Strategy P)} (hnone : st.live b.name = none → old = st.heap)
    (hold : ∀ i, st.live b.name = some i → ∃ config reported, old = st.heap.modify i fun s =>
      { s with config := config, reported := reported, stopped := true }) :
    old.length = st.heap.length := by
  cases hlive : st.live b.name with
  | none => rw [hnone hlive]
  | some i =>
    obtain ⟨config, reported, rfl⟩ := hold i hlive
    rw [List.length_modify]

/-- A strategy added by the block; if it was started it is the result. -/
theorem Outcome.added (h : Outcome strategyId st b res heap) {j : Nat} (hj : st.heap.length ≤ j)
    (hs : heap[j]? = some s) : s.stopped = false ∧ (s.started = true → res = some j) := by
  cases h with
  | keeps config reported =>
    rw [List.getElem?_eq_none (by rw [List.length_modify]; exact hj)] at hs
    cases hs
  | refused =>
    rw [List.getElem?_eq_none hj] at hs
    cases hs
  | @makes made old hbuild hnone hold =>
    have hlen := makes_length hnone hold
    obtain rfl : j = st.heap.length := by
      have hlt := (List.getElem?_eq_some_iff.mp hs).1
      rw [List.length_append, List.length_singleton, hlen] at hlt
      omega
    rw [← hlen, List.getElem?_concat_length] at hs
    cases hs
    exact ⟨(buildStrategy_ok hbuild).2.2.1, fun hstarted => by rw [if_pos hstarted]⟩

/-- The result is the strategy found, or a new one that was started. -/
theorem Outcome.result {i : Nat} (h : Outcome strategyId st b (some i) heap) :
    ∃ s, heap[i]? = some s ∧ s.name = b.name
      ∧ (st.live b.name = some i ∨ st.heap.length ≤ i ∧ s.started = true) := by
  generalize hres : some i = res at h
  cases h with
  | keeps config reported hlive hs =>
    cases hres
    obtain ⟨_, s', hs', hname⟩ := Store.live_some hlive
    refine ⟨{ s' with config := config, reported := reported }, ?_, hname, .inl hlive⟩
    rw [List.getElem?_modify_eq, hs']
    rfl
  | refused => cases hres
  | @makes made old hbuild hnone hold =>
    split at hres
    next hstart =>
      cases hres
      refine ⟨{ made with started := b.answers.start.isNone }, ?_, (buildStrategy_ok hbuild).1,
        .inr ⟨Nat.le_refl _, hstart⟩⟩
      rw [← makes_length hnone hold, List.getElem?_concat_length]
    next => cases hres

end Effect

/-! ## The loop over the blocks -/

/-- Whatever happened, after a refresh: every active strategy was started, no two share a name,
and every other one that was started has been shut down. -/
structure Tidy (st : Store P) : Prop where
  started : ∀ i ∈ st.active, ∃ s, st.heap[i]? = some s ∧ s.started = true
  unique : ∀ i ∈ st.active, ∀ j ∈ st.active, ∀ s t, st.heap[i]? = some s → st.heap[j]? = some t →
    s.name = t.name → i = j
  stopped : ∀ i s, st.heap[i]? = some s → s.started = true → i ∉ st.active → s.stopped = true

/-- A refresh of `st` under way; `got` is a strategy it has not decided about yet. -/
structure Under (st : Store P) (r : Refresh P) (got : Option Nat) : Prop where
  active : r.store.active = st.active
  ages : Ages st.heap r.store.heap
  /-- what is kept was started, and is what was active or new -/
  keyed : ∀ n i, (n, i) ∈ r.new → ∃ s, r.store.heap[i]? = some s ∧ s.name = n ∧ s.started = true
    ∧ (i ∈ st.active ∨ st.heap.length ≤ i ∧ s.stopped = false)
  unique : ∀ n i j, (n, i) ∈ r.new → (n, j) ∈ r.new → i = j
  /-- a new strategy is kept or has been shut down -/
  fresh : ∀ i s, st.heap.length ≤ i → r.store.heap[i]? = some s → s.started = true →
    (s.name, i) ∈ r.new ∨ s.stopped = true ∨ got = some i
  result : ∀ i, got = some i → ∃ s, r.store.heap[i]? = some s ∧ s.started = true
    ∧ (i ∈ st.active ∨ st.heap.length ≤ i ∧ s.stopped = false)

section Loop

variable {st : Store P} {r : Refresh P} {b : Block P}

variable {new : List (String × Nat)} {i : Nat} {n : String}

theorem lookup_mem (h : new.lookup n = some i) : (n, i) ∈ new := by
  obtain ⟨l₁, l₂, rfl, _⟩ := List.lookup_eq_some_iff.mp h
  exact List.mem_append_right _ (List.mem_cons_self ..)

theorem lookup_absent (h : new.lookup n = none) (i : Nat) : (n, i) ∉ new := by
  intro hmem
  have hne := List.lookup_eq_none_iff.mp h (n, i) hmem
  simp at hne

omit [DecidableEq I] in
/-- `retrieveOrCreate` gives a strategy to decide about. -/
theorem Under.retrieved (htidy : Tidy st) (h : Under st r none) {res : Option Nat}
    (hout : Outcome strategyId r.store b res heap) {store : Store P} (hheap : store.heap = heap)
    (hactive : store.active = r.store.active) : Under st { r with store := store } res := by
  subst hheap
  have hlen := h.ages.length_le
  refine ⟨hactive.trans h.active, h.ages.trans hout.ages, fun n i hmem => ?_, h.unique,
    fun i s hi hs hstarted => ?_, fun i hres => ?_⟩
  · obtain ⟨s, hs, hname, hstarted, hwhere⟩ := h.keyed n i hmem
    obtain ⟨s', hs', hname', hstarted', _⟩ := hout.ages i s hs
    refine ⟨s', hs', hname'.trans hname, hstarted'.trans hstarted, ?_⟩
    rcases hwhere with hwhere | ⟨hnew, hstopped⟩
    · exact .inl hwhere
    · -- a strategy of this refresh is not the one found
      refine .inr ⟨hnew, ?_⟩
      have hlive : r.store.live b.name ≠ some i := by
        intro hlive
        have hact := (Store.live_some hlive).1
        rw [h.active] at hact
        obtain ⟨s₀, hs₀, _⟩ := htidy.started i hact
        have hlt := (List.getElem?_eq_some_iff.mp hs₀).1
        omega
      have hsame := hs'.symm.trans (hout.others hs hlive)
      cases hsame
      exact hstopped
  · by_cases hold : i < r.store.heap.length
    · obtain ⟨s', hs', hname, hstarted', hstopped⟩ :=
        hout.ages i _ (List.getElem?_eq_getElem hold)
      rw [hs] at hs'
      cases hs'
      rcases h.fresh i _ hi (List.getElem?_eq_getElem hold) (hstarted'.symm.trans hstarted)
        with hk | hk | hk
      · rw [hname]
        exact .inl hk
      · exact .inr (.inl (hstopped hk))
      · cases hk
    · exact .inr (.inr ((hout.added (Nat.le_of_not_lt hold) hs).2 hstarted))
  · subst hres
    obtain ⟨s, hs, _, hwhere⟩ := hout.result
    rcases hwhere with hlive | ⟨hnew, hstarted⟩
    · have hact := (Store.live_some hlive).1
      rw [h.active] at hact
      obtain ⟨s₀, hs₀, hstarted⟩ := htidy.started i hact
      obtain ⟨s', hs', _, hstarted', _⟩ := (h.ages.trans hout.ages) i s₀ hs₀
      exact ⟨s', hs', hstarted'.trans hstarted, .inl hact⟩
    · exact ⟨s, hs, hstarted, .inr ⟨Nat.le_trans hlen hnew, (hout.added hnew hs).1⟩⟩

theorem shutdown_get (st : Store P) (i j : Nat) :
    (st.shutdown i).heap[j]? = (st.heap[j]?).map fun s => if i = j then { s with stopped := true } else s :=
  List.getElem?_modify ..

theorem Under.take (h : Under st r (some i)) : Under st (r.take i) none := by
  obtain ⟨s, hs, hstarted, hwhere⟩ := h.result i rfl
  unfold Refresh.take
  rw [hs]
  dsimp only
  cases hlook : r.new.lookup s.name with
  | some kept =>
    have hkept := lookup_mem hlook
    dsimp only
    by_cases hne : kept = i
    · -- the same strategy again
      rw [if_neg (not_not_intro hne)]
      refine ⟨h.active, h.ages, h.keyed, h.unique, fun j t hj ht hstarted => ?_, nofun⟩
      rcases h.fresh j t hj ht hstarted with hk | hk | hk
      · exact .inl hk
      · exact .inr (.inl hk)
      · cases hk
        rw [hs] at ht
        cases ht
        exact .inl (hne ▸ hkept)
    · rw [if_pos hne]
      have hold : ∀ n j, (n, j) ∈ r.new → i ≠ j := by
        intro n j hmem hij
        subst hij
        obtain ⟨t, ht, hname, _⟩ := h.keyed n i hmem
        rw [hs] at ht
        cases ht
        rw [hname] at hkept
        exact hne (h.unique n kept i hkept hmem)
      refine ⟨h.active, h.ages.trans ?_, fun n j hmem => ?_, h.unique, fun j t hj ht hstarted => ?_, nofun⟩
      · exact ages_modify _ _ (fun _ => rfl) (fun _ => rfl) (fun _ _ => rfl)
      · obtain ⟨t, ht, hrest⟩ := h.keyed n j hmem
        refine ⟨t, ?_, hrest⟩
        show (r.store.shutdown i).heap[j]? = some t
        rw [shutdown_get, ht, Option.map_some, if_neg (hold n j hmem)]
      · change (r.store.shutdown i).heap[j]? = some t at ht
        rw [shutdown_get] at ht
        obtain ⟨t₀, ht₀, rfl⟩ := Option.map_eq_some_iff.mp ht
        by_cases hij : i = j
        · rw [if_pos hij]
          exact .inr (.inl rfl)
        · rw [if_neg hij] at hstarted ⊢
          rcases h.fresh j t₀ hj ht₀ hstarted with hk | hk | hk
          · exact .inl hk
          · exact .inr (.inl hk)
          · cases hk
            exact absurd rfl hij
  | none =>
    have habsent := lookup_absent hlook
    refine ⟨h.active, h.ages, fun n j hmem => ?_, fun n j k hj hk => ?_,
      fun j t hj ht hstarted => ?_, nofun⟩
    · rcases List.mem_append.mp hmem with hmem | hmem
      · exact h.keyed n j hmem
      · cases List.mem_singleton.mp hmem
        exact ⟨s, hs, rfl, hstarted, hwhere⟩
    · rcases List.mem_append.mp hj with hj | hj
      · rcases List.mem_append.mp hk with hk | hk
        · exact h.unique n j k hj hk
        · cases List.mem_singleton.mp hk
          exact absurd hj (habsent j)
      · cases List.mem_singleton.mp hj
        rcases List.mem_append.mp hk with hk | hk
        · exact absurd hk (habsent k)
        · cases List.mem_singleton.mp hk
          rfl
    · rcases h.fresh j t hj ht hstarted with hk | hk | hk
      · exact .inl (List.mem_append_left _ hk)
      · exact .inr (.inl hk)
      · cases hk
        rw [hs] at ht
        cases ht
        exact .inl (List.mem_append_right _ (List.mem_singleton.mpr rfl))

/-- A turn of the loop: nothing was had, or a strategy to decide about. -/
theorem Under.block_cases (strategyId : String → P → I) (htidy : Tidy st) (h : Under st r none)
    (b : Block P) :
    (∃ store, Outcome strategyId r.store b none store.heap
      ∧ r.block strategyId b = { r with store := store } ∧ Under st { r with store := store } none)
    ∨ ∃ i store, Outcome strategyId r.store b (some i) store.heap
      ∧ r.block strategyId b = Refresh.take { r with store := store } i
      ∧ Under st { r with store := store } (some i) := by
  obtain ⟨hout, hactive⟩ := retrieveOrCreate_outcome strategyId r.store b
  have hgot := h.retrieved htidy hout rfl hactive
  unfold Refresh.block
  rcases hres : r.store.retrieveOrCreate strategyId b with ⟨_ | i, store⟩
  · rw [hres] at hout hgot
    exact .inl ⟨store, hout, rfl, hgot⟩
  · rw [hres] at hout hgot
    exact .inr ⟨i, store, hout, rfl, hgot⟩

theorem Under.block (htidy : Tidy st) (h : Under st r none) (b : Block P) :
    Under st (r.block strategyId b) none := by
  rcases h.block_cases strategyId htidy b with ⟨store, _, heq, hgot⟩ | ⟨i, store, _, heq, hgot⟩
  · rw [heq]
    exact hgot
  · rw [heq]
    exact hgot.take

/-! ## The end of a refresh -/

theorem foldl_shutdown : ∀ (dropped : List Nat) (st : Store P),
    (dropped.foldl Store.shutdown st).active = st.active
      ∧ ∀ j, (dropped.foldl Store.shutdown st).heap[j]?
        = (st.heap[j]?).map fun s => if j ∈ dropped then { s with stopped := true } else s := by
  intro dropped
  induction dropped with
  | nil => intro st; exact ⟨rfl, fun j => by simp⟩
  | cons i dropped ih =>
    intro st
    obtain ⟨hactive, hheap⟩ := ih (st.shutdown i)
    refine ⟨hactive, fun j => ?_⟩
    rw [List.foldl_cons, hheap, shutdown_get, Option.map_map]
    congr 1
    funext s
    by_cases hij : i = j
    · simp [hij]
    · have hji : ¬ j = i := fun h => hij h.symm
      simp [hij, hji]

theorem finish_get (r : Refresh P) (j : Nat) :
    r.finish.heap[j]? = (r.store.heap[j]?).map fun s =>
      if j ∈ r.store.active ∧ j ∉ r.new.map Prod.snd then { s with stopped := true } else s := by
  unfold Refresh.finish
  rw [(foldl_shutdown _ r.store).2]
  simp only [List.mem_filter, Bool.not_eq_true', List.contains_eq_mem, decide_eq_false_iff_not]

/-- A kept strategy is not touched at the end. -/
theorem finish_kept (hmem : (n, i) ∈ r.new) :
    i ∈ r.finish.active ∧ r.finish.heap[i]? = r.store.heap[i]? := by
  have hin : i ∈ r.new.map Prod.snd := List.mem_map.mpr ⟨(n, i), hmem, rfl⟩
  refine ⟨hin, ?_⟩
  rw [finish_get]
  simp [hin]

theorem Under.finish (htidy : Tidy st) (h : Under st r none) : Tidy r.finish := by
  have hactive : ∀ i ∈ r.finish.active, ∃ n, (n, i) ∈ r.new := by
    intro i hi
    obtain ⟨⟨n, j⟩, hmem, hj⟩ := List.mem_map.mp hi
    cases hj
    exact ⟨n, hmem⟩
  refine ⟨fun i hi => ?_, fun i hi j hj s t hs ht hname => ?_, fun i s hs hstarted hi => ?_⟩
  · obtain ⟨n, hmem⟩ := hactive i hi
    obtain ⟨s, hs, _, hstarted, _⟩ := h.keyed n i hmem
    exact ⟨s, (finish_kept hmem).2.trans hs, hstarted⟩
  · obtain ⟨n, hmem⟩ := hactive i hi
    obtain ⟨m, hmem'⟩ := hactive j hj
    obtain ⟨s', hs', hn, _⟩ := h.keyed n i hmem
    obtain ⟨t', ht', hm, _⟩ := h.keyed m j hmem'
    rw [(finish_kept hmem).2, hs'] at hs
    rw [(finish_kept hmem').2, ht'] at ht
    cases hs
    cases ht
    rw [hn, hm] at hname
    subst hname
    exact h.unique n i j hmem hmem'
  · rw [finish_get] at hs
    obtain ⟨s₀, hs₀, rfl⟩ := Option.map_eq_some_iff.mp hs
    split at hstarted
    next hdropped => rw [if_pos hdropped]
    next hdropped =>
      rw [if_neg hdropped]
      -- not active before either, or new
      have hbefore : i ∉ st.active := fun hin => hdropped ⟨h.active ▸ hin, hi⟩
      by_cases hold : i < st.heap.length
      · obtain ⟨s', hs', _, hstarted', hstopped⟩ := h.ages i _ (List.getElem?_eq_getElem hold)
        rw [hs₀] at hs'
        cases hs'
        exact hstopped (htidy.stopped i _ (List.getElem?_eq_getElem hold)
          (hstarted'.symm.trans hstarted) hbefore)
      · rcases h.fresh i s₀ (Nat.le_of_not_lt hold) hs₀ hstarted with hk | hk | hk
        · exact absurd (finish_kept hk).1 hi
        · exact hk
        · cases hk

theorem under_start (st : Store P) (blocks : List (Block P)) :
    Under st (Refresh.start st blocks) none :=
  ⟨rfl, .refl _, nofun, nofun,
    fun _ _ hi hs _ => absurd (List.getElem?_eq_some_iff.mp hs).1 (Nat.not_lt_of_le hi), nofun⟩

theorem Under.blocks (strategyId : String → P → I) (htidy : Tidy st) : ∀ (blocks : List (Block P)) {r : Refresh P},
    Under st r none → Under st (blocks.foldl (Refresh.block strategyId) r) none := by
  intro blocks
  induction blocks with
  | nil => intro r h; exact h
  | cons b blocks ih => intro r h; exact ih (h.block htidy b)

theorem Tidy.refresh (h : Tidy st) (blocks : List (Block P)) :
    Tidy (onConfigRefreshed strategyId st blocks) :=
  (Under.blocks strategyId h blocks (under_start st blocks)).finish h

end Loop

end SenhubAgent.DataStore

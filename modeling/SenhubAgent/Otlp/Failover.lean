import Mathlib.Data.Nat.Basic
import SenhubAgent.Lib.FirstHit
import SenhubAgent.Otlp.ExportError

/-!
# Endpoint failover: one delivered batch, one endpoint

`failoverCore.do` tries the endpoints in order of preference, skipping those in
cooldown; a failed one is put in cooldown and the next is tried. When all of
them are cooling down, a second pass tries them all. The metric and the log
decorator both route a batch through it.

"Failed" means `err != nil` there, and that is not the same as "not delivered":
an answer that holds nothing but partial-success reports *is* a delivery
(`partial_success.go`). The layers that know this sit above the failover, so

> `failover_once_iff`: a delivered batch stays with the endpoint that took it
> exactly when no endpoint the call reaches answers with reports only, or it is
> the last endpoint of the pass that tries them all.

It also gives up too early. An error should mean that every endpoint was tried and
failed; the pass that tries them all runs only if the first pass tried none, so

> `failover_exhausts_iff`: an error means that, exactly when the endpoints are
> all cooling down, or none is, or one that is not answers nil.

Both passes walk a list of candidates through the first that answers nil
(`throughFirst`); the indices tried and the indices put in cooldown are recorded
in the run. Clock readings are inputs: one at the start of the call, one after
each failed attempt.
-/

namespace SenhubAgent.Otlp

open SenhubAgent.Lib

/-! ## The failover core -/

structure EndpointState where
  endpoint : String
  downUntil : Int
  deriving DecidableEq, Repr

structure FailoverCore where
  states : List EndpointState
  cooldown : Int
  active : Nat
  switches : Nat
  deriving DecidableEq, Repr

/-- The cooldown deadline of an endpoint, in Unix nanoseconds. -/
def FailoverCore.downUntil (c : FailoverCore) (idx : Nat) : Int :=
  match c.states[idx]? with
  | some st => st.downUntil
  | none => 0

def FailoverCore.storeDownUntil (c : FailoverCore) (idx : Nat) (t : Int) : FailoverCore :=
  { c with states := c.states.modify idx fun st => { st with downUntil := t } }

/-- `markActive`: the endpoint now serving, and the count of switches. -/
def FailoverCore.markActive (c : FailoverCore) (idx : Nat) : FailoverCore :=
  { c with active := idx, switches := if c.active = idx then c.switches else c.switches + 1 }

/-- What one call of `do` depends on: the clock at its start, the answer of each
endpoint, and the clock after an attempt that failed. -/
structure FailoverCall where
  nowNano : Int
  attempt : Nat → Option GoErr
  clock : Nat → Int

/-- The core as it stands, the endpoints tried and those put in cooldown so far,
and the error to return. -/
structure FailoverRun where
  core : FailoverCore
  tried : List Nat := []
  cooled : List Nat := []
  served : Bool := false
  lastErr : Option GoErr := none

/-- The pass that skips the endpoints in cooldown. -/
def firstPass (call : FailoverCall) : List Nat → FailoverRun → FailoverRun
  | [], r => r
  | idx :: rest, r =>
    if r.core.downUntil idx > call.nowNano then firstPass call rest r
    else
      match call.attempt idx with
      | none => { r with
          core := r.core.markActive idx
          tried := r.tried ++ [idx]
          served := true }
      | some err => firstPass call rest { r with
          core := r.core.storeDownUntil idx (call.clock idx + r.core.cooldown)
          tried := r.tried ++ [idx]
          cooled := r.cooled ++ [idx]
          lastErr := some err }

/-- The pass that tries them all. -/
def secondPass (call : FailoverCall) : List Nat → FailoverRun → FailoverRun
  | [], r => r
  | idx :: rest, r =>
    match call.attempt idx with
    | none => { r with
        core := (r.core.storeDownUntil idx 0).markActive idx
        tried := r.tried ++ [idx]
        served := true }
    | some err => secondPass call rest { r with
        tried := r.tried ++ [idx]
        lastErr := some err }

/-- `failoverCore.do`. -/
def failoverDo (c : FailoverCore) (call : FailoverCall) : FailoverRun :=
  let idxs := List.range c.states.length
  let r := firstPass call idxs { core := c }
  if r.tried.isEmpty then secondPass call idxs r else r

/-- The error `do` returns. -/
def FailoverRun.err (r : FailoverRun) : Option GoErr :=
  if r.served then none
  else some (r.lastErr.getD (.leaf "otlp failover: no endpoints configured"))

/-- A failover decorator over exporters of batches `β`: one per endpoint. -/
structure FailoverExporter (β : Type) where
  core : FailoverCore
  exps : List (β → Option GoErr)
  paired : exps.length = core.states.length

/-- The call a batch makes: each endpoint's own exporter is sent the batch. -/
def FailoverExporter.call {β : Type} (f : FailoverExporter β) (batch : β) (nowNano : Int)
    (clock : Nat → Int) : FailoverCall where
  nowNano := nowNano
  attempt := fun i => match f.exps[i]? with
    | some e => e batch
    | none => none
  clock := clock

/-- One export through the decorator; `failoverMetricExporter.Export` and
`failoverLogExporter.Export` are this, at their own batch type. -/
def FailoverExporter.export {β : Type} (f : FailoverExporter β) (batch : β) (nowNano : Int)
    (clock : Nat → Int) : FailoverRun :=
  failoverDo f.core (f.call batch nowNano clock)

/-! ## What a call tries -/

section Passes

variable (call : FailoverCall)

/-- The endpoint answered nil. -/
def FailoverCall.ok (i : Nat) : Bool := (call.attempt i).isNone

theorem storeDownUntil_other {c : FailoverCore} {i j : Nat} (h : i ≠ j) (t : Int) :
    (c.storeDownUntil i t).downUntil j = c.downUntil j := by
  unfold FailoverCore.storeDownUntil FailoverCore.downUntil
  simp [h]

/-- Whether the first pass skips an endpoint. -/
def FailoverCall.cooling (c : FailoverCore) (i : Nat) : Bool := decide (c.downUntil i > call.nowNano)

/-- An attempt only writes its own deadline, so the later endpoints read what they held
at the start. -/
theorem filter_cooling_store (c : FailoverCore) {idx : Nat} {rest : List Nat} (h : idx ∉ rest)
    (t : Int) :
    (rest.filter fun i => !call.cooling (c.storeDownUntil idx t) i)
      = rest.filter fun i => !call.cooling c i := by
  apply List.filter_congr
  intro j hj
  have hne : idx ≠ j := fun he => h (he ▸ hj)
  simp only [FailoverCall.cooling, storeDownUntil_other hne]

/-- The first pass walks the endpoints out of cooldown, puts each one it fails on in
cooldown, and serves the batch when one of them answers nil. Induction on the indices
left. -/
theorem firstPass_spec :
    ∀ (idxs : List Nat) (r : FailoverRun), idxs.Nodup →
      (firstPass call idxs r).tried
        = r.tried ++ throughFirst call.ok (idxs.filter fun i => !call.cooling r.core i) ∧
      (firstPass call idxs r).cooled
        = r.cooled ++ (throughFirst call.ok (idxs.filter fun i => !call.cooling r.core i)).filter
            (fun i => !call.ok i) ∧
      (firstPass call idxs r).served
        = (r.served || (idxs.filter fun i => !call.cooling r.core i).any call.ok) := by
  intro idxs
  induction idxs with
  | nil => intro r _; simp [firstPass, throughFirst]
  | cons idx rest ih =>
    intro r hnd
    obtain ⟨hidx, hrest⟩ := List.nodup_cons.mp hnd
    unfold firstPass
    by_cases hcool : r.core.downUntil idx > call.nowNano
    · have hfilter : ((idx :: rest).filter fun i => !call.cooling r.core i)
          = rest.filter fun i => !call.cooling r.core i := by
        simp [FailoverCall.cooling, hcool]
      rw [if_pos hcool, hfilter]
      exact ih r hrest
    · have hfilter : ((idx :: rest).filter fun i => !call.cooling r.core i)
          = idx :: rest.filter fun i => !call.cooling r.core i := by
        simp [FailoverCall.cooling, hcool]
      rw [if_neg hcool, hfilter]
      cases hans : call.attempt idx with
      | none => simp [throughFirst, FailoverCall.ok, hans]
      | some err =>
        have hsame := filter_cooling_store call r.core hidx (call.clock idx + r.core.cooldown)
        obtain ⟨ht, hc, hs⟩ := ih { r with
          core := r.core.storeDownUntil idx (call.clock idx + r.core.cooldown)
          tried := r.tried ++ [idx]
          cooled := r.cooled ++ [idx]
          lastErr := some err } hrest
        rw [ht, hc, hs]
        simp only [hsame, throughFirst, FailoverCall.ok, hans, Option.isNone_some,
          Bool.false_eq_true, if_false, List.append_assoc, List.singleton_append,
          Bool.not_false, List.filter_cons_of_pos, List.any_cons, Bool.false_or]
        exact ⟨trivial, trivial, trivial⟩

theorem secondPass_spec :
    ∀ (idxs : List Nat) (r : FailoverRun),
      (secondPass call idxs r).tried = r.tried ++ throughFirst call.ok idxs ∧
      (secondPass call idxs r).cooled = r.cooled ∧
      (secondPass call idxs r).served = (r.served || idxs.any call.ok) := by
  intro idxs
  induction idxs with
  | nil => intro r; simp [secondPass, throughFirst]
  | cons idx rest ih =>
    intro r
    unfold secondPass
    cases hans : call.attempt idx with
    | none => simp [throughFirst, FailoverCall.ok, hans]
    | some err =>
      obtain ⟨ht, hc, hs⟩ := ih { r with tried := r.tried ++ [idx], lastErr := some err }
      rw [ht, hc, hs]
      simp [throughFirst, FailoverCall.ok, hans]

end Passes

/-! ## A delivered batch and the endpoint that took it -/

/-- An answer of nothing but partial-success reports: the batch was delivered. -/
def reportsOnly : Option GoErr → Bool
  | none => false
  | some err => !(splitPartialSuccess err).1.isEmpty && (splitPartialSuccess err).2.isNone

/-- The endpoint took the batch. -/
def tookBatch (answer : Option GoErr) : Bool := answer.isNone || reportsOnly answer

section Once

variable (c : FailoverCore) (call : FailoverCall)

/-- The endpoint that takes the batch is the last one sent it, and is not put in
cooldown by this call. -/
def FailoverRun.Once (r : FailoverRun) : Prop :=
  ∀ i ∈ r.tried, tookBatch (call.attempt i) = true →
    (∃ front, r.tried = front ++ [i]) ∧ i ∉ r.cooled

/-- The endpoints out of cooldown when the call starts. -/
def upEndpoints : List Nat :=
  (List.range c.states.length).filter fun i => !call.cooling c i

/-- The endpoints the call is ready to try, in order. -/
def candidates : List Nat :=
  if (upEndpoints c call).isEmpty then List.range c.states.length else upEndpoints c call

/-- The call gets as far as endpoint `i`: none it prefers to `i` answers nil. -/
def Reaches (i : Nat) : Prop :=
  i ∈ candidates c call ∧ ∀ j ∈ candidates c call, j < i → call.ok j = false

theorem failoverDo_up (h : (upEndpoints c call).isEmpty = false) :
    (failoverDo c call).tried = throughFirst call.ok (upEndpoints c call) ∧
    (failoverDo c call).cooled
      = (throughFirst call.ok (upEndpoints c call)).filter (fun i => !call.ok i) ∧
    (failoverDo c call).served = (upEndpoints c call).any call.ok := by
  obtain ⟨ht, hc, hs⟩ := firstPass_spec call (List.range c.states.length) { core := c }
    List.nodup_range
  have hne : ((firstPass call (List.range c.states.length) { core := c }).tried).isEmpty
      = false := by
    rw [ht]
    unfold upEndpoints at h
    cases hup : (List.range c.states.length).filter fun i => !call.cooling c i with
    | nil => rw [hup] at h; cases h
    | cons x xs =>
      unfold throughFirst
      split <;> rfl
  unfold failoverDo
  simp only [hne, Bool.false_eq_true, if_false]
  exact ⟨ht, hc, hs⟩

theorem failoverDo_down (h : (upEndpoints c call).isEmpty = true) :
    (failoverDo c call).tried = throughFirst call.ok (List.range c.states.length) ∧
    (failoverDo c call).cooled = [] ∧
    (failoverDo c call).served = (List.range c.states.length).any call.ok := by
  obtain ⟨ht, hc, hs⟩ := firstPass_spec call (List.range c.states.length) { core := c }
    List.nodup_range
  have hup : ((List.range c.states.length).filter fun i => !call.cooling c i) = [] :=
    List.isEmpty_iff.mp h
  rw [hup] at ht hc hs
  simp only [throughFirst, List.append_nil, List.filter_nil, List.any_nil, Bool.or_false] at ht hc hs
  obtain ⟨ht', hc', hs'⟩ := secondPass_spec call (List.range c.states.length)
    (firstPass call (List.range c.states.length) { core := c })
  unfold failoverDo
  simp only [ht, List.isEmpty_nil, if_true]
  rw [ht', hc', hs', ht, hc, hs]
  exact ⟨List.nil_append _, rfl, Bool.false_or _⟩

theorem failoverDo_candidates :
    (failoverDo c call).tried = throughFirst call.ok (candidates c call) ∧
    (failoverDo c call).served = (candidates c call).any call.ok := by
  unfold candidates
  cases h : (upEndpoints c call).isEmpty with
  | true =>
    obtain ⟨ht, -, hs⟩ := failoverDo_down c call h
    rw [ht, hs, if_pos rfl]
    exact ⟨rfl, rfl⟩
  | false =>
    obtain ⟨ht, -, hs⟩ := failoverDo_up c call h
    rw [ht, hs, if_neg (by simp)]
    exact ⟨rfl, rfl⟩

theorem candidates_pairwise : (candidates c call).Pairwise (· < ·) := by
  unfold candidates
  split
  · exact List.pairwise_lt_range
  · exact List.Pairwise.filter _ List.pairwise_lt_range

theorem mem_tried_iff (i : Nat) : i ∈ (failoverDo c call).tried ↔ Reaches c call i := by
  rw [(failoverDo_candidates c call).1]
  exact mem_throughFirst call.ok (candidates_pairwise c call) i

theorem reportsOnly_not_ok {i : Nat} (h : reportsOnly (call.attempt i) = true) :
    call.ok i = false := by
  unfold FailoverCall.ok
  cases hans : call.attempt i with
  | none => rw [hans] at h; cases h
  | some err => rfl

/-- Only a nil answer is left when there are no reports. -/
theorem tookBatch_cases {i : Nat} (h : tookBatch (call.attempt i) = true) :
    call.ok i = true ∨ reportsOnly (call.attempt i) = true := by
  rcases Bool.or_eq_true_iff.mp h with hnil | hrep
  · exact Or.inl hnil
  · exact Or.inr hrep

/-- **When a delivered batch stays where it was delivered.** -/
theorem failoverDo_once_iff :
    (failoverDo c call).Once call ↔
      ∀ i, Reaches c call i → reportsOnly (call.attempt i) = true →
        (upEndpoints c call).isEmpty = true ∧ i + 1 = c.states.length := by
  constructor
  · intro honce i hreach hrep
    have hmem := (mem_tried_iff c call i).mpr hreach
    obtain ⟨⟨front, hfront⟩, hcooled⟩ := honce i hmem (by simp [tookBatch, hrep])
    have hok := reportsOnly_not_ok call hrep
    cases h : (upEndpoints c call).isEmpty with
    | false =>
      -- the first pass puts every endpoint it gets an error from in cooldown
      obtain ⟨ht, hc, -⟩ := failoverDo_up c call h
      refine absurd ?_ hcooled
      rw [hc]
      exact List.mem_filter.mpr ⟨ht ▸ hmem, by simp [hok]⟩
    | true =>
      refine ⟨rfl, ?_⟩
      rw [(failoverDo_down c call h).1] at hfront
      have hrange := throughFirst_miss_last call.ok hfront hok
      have hlen := congrArg List.length hrange
      have hlast := congrArg List.getLast? hrange
      simp only [List.length_range, List.length_append, List.length_cons, List.length_nil] at hlen
      rw [hlen, List.getLast?_range, List.getLast?_concat] at hlast
      simp only [Nat.zero_add, Nat.add_eq_zero_iff, Nat.one_ne_zero, and_false, if_false,
        Nat.add_one_sub_one, Option.some.injEq] at hlast
      omega
  · intro hcond i hmem htook
    have hreach := (mem_tried_iff c call i).mp hmem
    rcases tookBatch_cases call htook with hok | hrep
    · cases h : (upEndpoints c call).isEmpty with
      | false =>
        obtain ⟨ht, hc, -⟩ := failoverDo_up c call h
        rw [ht] at hmem ⊢
        refine ⟨throughFirst_hit_last call.ok hmem hok, ?_⟩
        rw [hc]
        intro hin
        have hnot := (List.mem_filter.mp hin).2
        simp [hok] at hnot
      | true =>
        obtain ⟨ht, hc, -⟩ := failoverDo_down c call h
        rw [ht] at hmem ⊢
        exact ⟨throughFirst_hit_last call.ok hmem hok, by rw [hc]; exact List.not_mem_nil⟩
    · obtain ⟨hdown, hlast⟩ := hcond i hreach hrep
      obtain ⟨ht, hc, -⟩ := failoverDo_down c call hdown
      refine ⟨?_, by rw [hc]; exact List.not_mem_nil⟩
      -- `i` is the greatest index, so nothing is walked after it
      rw [ht, ← hlast, List.range_succ] at hmem ⊢
      refine ⟨List.range i, throughFirst_greatest call.ok ?_ hmem⟩
      rw [← List.range_succ]
      exact List.pairwise_lt_range

end Once

/-- **A delivered batch stays with the endpoint that took it** exactly when no
endpoint the call reaches answers with reports only, except the last one of the
pass that tries them all. -/
theorem failover_once_iff {β : Type} (f : FailoverExporter β) (batch : β) (nowNano : Int)
    (clock : Nat → Int) :
    (f.export batch nowNano clock).Once (f.call batch nowNano clock) ↔
      ∀ i, Reaches f.core (f.call batch nowNano clock) i →
        reportsOnly ((f.call batch nowNano clock).attempt i) = true →
        (∀ j < f.exps.length, (f.call batch nowNano clock).cooling f.core j = true) ∧
          i + 1 = f.exps.length := by
  have hall : (upEndpoints f.core (f.call batch nowNano clock)).isEmpty = true ↔
      ∀ j < f.exps.length, (f.call batch nowNano clock).cooling f.core j = true := by
    rw [List.isEmpty_iff, upEndpoints, List.filter_eq_nil_iff, f.paired]
    simp
  unfold FailoverExporter.export
  rw [failoverDo_once_iff, hall, f.paired]

/-- A primary that takes the batch and reports two refused records, and a standby
that takes the batch: the standby is sent it too, and the primary is put in
cooldown. -/
def reportingPair : FailoverExporter Unit where
  core :=
    { states := [⟨"https://primary:4318", 0⟩, ⟨"https://standby:4318", 0⟩]
      cooldown := 30000000000
      active := 0
      switches := 0 }
  exps := [fun _ => some (.leaf "OTLP partial success: bad unit (2 metric data points rejected)"),
    fun _ => none]
  paired := rfl

theorem failover_resends_delivered :
    tookBatch ((reportingPair.call () 1 fun _ => 2).attempt 0) = true ∧
    (reportingPair.export () 1 fun _ => 2).tried = [0, 1] ∧
    (reportingPair.export () 1 fun _ => 2).cooled = [0] ∧
    ¬ (reportingPair.export () 1 fun _ => 2).Once (reportingPair.call () 1 fun _ => 2) := by
  have htook : tookBatch ((reportingPair.call () 1 fun _ => 2).attempt 0) = true := by decide
  have htried : (reportingPair.export () 1 fun _ => 2).tried = [0, 1] := by decide
  have hcooled : (reportingPair.export () 1 fun _ => 2).cooled = [0] := by decide
  refine ⟨htook, htried, hcooled, fun honce => ?_⟩
  have hnot := (honce 0 (by rw [htried]; decide) htook).2
  rw [hcooled] at hnot
  exact hnot (by decide)

/-! ## Giving up -/

section Exhausts

variable (call : FailoverCall) (c : FailoverCore)

/-- `do` returns an error only if it tried every endpoint and each failed, and nil
exactly when the last attempt it made succeeded. -/
structure Exhausts : Prop where
  giveUp : (failoverDo c call).err ≠ none →
    ∀ i < c.states.length, i ∈ (failoverDo c call).tried ∧ call.ok i = false
  lastServes : (failoverDo c call).err = none ↔
    ∃ front i, (failoverDo c call).tried = front ++ [i] ∧ call.ok i = true

theorem err_eq_none_iff :
    (failoverDo c call).err = none ↔ ∃ i ∈ candidates c call, call.ok i = true := by
  unfold FailoverRun.err
  rw [(failoverDo_candidates c call).2]
  cases h : (candidates c call).any call.ok with
  | true => simpa using h
  | false => simpa using h

theorem mem_upEndpoints {i : Nat} :
    i ∈ upEndpoints c call ↔ i < c.states.length ∧ call.cooling c i = false := by
  unfold upEndpoints
  rw [List.mem_filter, List.mem_range, Bool.not_eq_true']

/-- **When an error means that every endpoint is down**: the endpoints are not partly
in cooldown, or one that is out of it answers nil. -/
theorem failover_exhausts_iff :
    Exhausts call c ↔
      ((∃ i < c.states.length, call.cooling c i = true) →
        (∃ i < c.states.length, call.cooling c i = false) →
        ∃ i < c.states.length, call.cooling c i = false ∧ call.ok i = true) := by
  constructor
  · rintro h ⟨i, hi, hcool⟩ ⟨j, hj, hup⟩
    by_contra hnone
    have hup' : (upEndpoints c call).isEmpty = false := by
      rw [List.isEmpty_eq_false_iff_exists_mem]
      exact ⟨j, (mem_upEndpoints call c).mpr ⟨hj, hup⟩⟩
    have hcand : candidates c call = upEndpoints c call := by
      unfold candidates
      rw [hup', if_neg (by simp)]
    have herr : (failoverDo c call).err ≠ none := by
      rw [ne_eq, err_eq_none_iff, hcand]
      rintro ⟨k, hk, hok⟩
      obtain ⟨hlt, hkup⟩ := (mem_upEndpoints call c).mp hk
      exact hnone ⟨k, hlt, hkup, hok⟩
    -- the endpoint in cooldown is not tried
    have htried := (h.giveUp herr i hi).1
    rw [(failoverDo_candidates c call).1, hcand] at htried
    have hup := (mem_upEndpoints call c).mp (mem_of_mem_throughFirst call.ok htried)
    rw [hcool] at hup
    cases hup.2
  · intro hcond
    refine ⟨?_, ?_⟩
    · intro herr
      rw [ne_eq, err_eq_none_iff] at herr
      have hmiss : ∀ i ∈ candidates c call, call.ok i = false := by
        intro i hi
        by_contra hok
        exact herr ⟨i, hi, by simpa using hok⟩
      have hall : ∀ i < c.states.length, i ∈ candidates c call := by
        intro i hi
        unfold candidates
        cases hup : (upEndpoints c call).isEmpty with
        | true => rw [if_pos rfl]; exact List.mem_range.mpr hi
        | false =>
          rw [if_neg (by simp), mem_upEndpoints]
          refine ⟨hi, ?_⟩
          by_contra hcool
          obtain ⟨j, hj⟩ := List.isEmpty_eq_false_iff_exists_mem.mp hup
          obtain ⟨hjlt, hjup⟩ := (mem_upEndpoints call c).mp hj
          obtain ⟨k, hk, hkup, hok⟩ := hcond ⟨i, hi, by simpa using hcool⟩ ⟨j, hjlt, hjup⟩
          have := hmiss k (by
            unfold candidates
            rw [hup, if_neg (by simp)]
            exact (mem_upEndpoints call c).mpr ⟨hk, hkup⟩)
          rw [hok] at this
          cases this
      intro i hi
      rw [(failoverDo_candidates c call).1, throughFirst_of_miss call.ok hmiss]
      exact ⟨hall i hi, hmiss i (hall i hi)⟩
    · rw [err_eq_none_iff, (failoverDo_candidates c call).1, throughFirst_ends_hit_iff]

end Exhausts

/-- A primary that fails, and a standby that has recovered but is still cooling down. -/
def recoveredStandby : FailoverCore where
  states := [⟨"https://primary:4318", 0⟩, ⟨"https://standby:4318", 20⟩]
  cooldown := 30
  active := 0
  switches := 0

def primaryDown : FailoverCall where
  nowNano := 10
  attempt := fun i => if i = 0 then some (.leaf "connection refused") else none
  clock := fun _ => 11

theorem recoveredStandby_not_tried :
    (failoverDo recoveredStandby primaryDown).tried = [0] ∧
      ¬ Exhausts primaryDown recoveredStandby := by
  have htried : (failoverDo recoveredStandby primaryDown).tried = [0] := by decide
  refine ⟨htried, fun h => ?_⟩
  have hserved : (failoverDo recoveredStandby primaryDown).served = false := by decide
  have herr : (failoverDo recoveredStandby primaryDown).err ≠ none := by
    unfold FailoverRun.err
    rw [hserved]
    simp
  have hlast := (h.giveUp herr 1 (by decide)).1
  rw [htried] at hlast
  exact absurd hlast (by decide)

end SenhubAgent.Otlp

import SenhubAgent.Lib.Distribute
import SenhubAgent.Otlp.LogsSplit

/-!
# The splitting logs exporter: every record exactly once

> `export_partitions`: one export deals its batch out over *accepted*,
> *undelivered*, *rejected* and *dropped*, every record to exactly one of them,
> and the error it returns names exactly these; unless the batch was not split
> at all, and then the downstream error is returned as it is.

The bins are read off the calls and their answers (`SplitState.bin`); what the
code counts (`rejected`, `dropped`, the `record_too_large` counter) is tied to
them by `SplitState.Balanced`. One step of the recursion is `Settled`: the part
it was given has been dealt out and the counts still agree. A call settles its
whole part in one bin (`settled_call`) unless it was refused for its size, and
then the two halves settle it between them (`deliver_steps`, by induction on
the calls left).
-/

namespace SenhubAgent.Otlp

open SenhubAgent.Lib (Distributes)

/-! ## Where a record ended up -/

/-- How a call ended: an answer that holds nothing but rejections is an
acceptance. -/
inductive Verdict where
  | accepted | sizeRefusal | retryable | permanent
  deriving DecidableEq, Repr

def verdict (fromError : GoErr → Option GrpcStatus) : Option GoErr → Verdict
  | none => .accepted
  | some err =>
    match (splitPartialSuccess err).2 with
    | none => .accepted
    | some rest =>
      if isSizeRefusal fromError rest then .sizeRefusal
      else if (classifyExportError fromError rest).isRetryable then .retryable
      else .permanent

inductive Outcome where
  | accepted | undelivered | rejected | dropped
  deriving DecidableEq, Repr

/-- The records a call for `part` settles by itself. A retryable failure leaves
them with the caller, and a size refusal settles a single record only. -/
def Verdict.settles (part : List Record) : Verdict → Outcome → List Record
  | .accepted, .accepted => part
  | .permanent, .rejected => part
  | .sizeRefusal, .dropped => if part.length = 1 then part else []
  | _, _ => []

/-- Where a call that is not halved puts its part. -/
def Verdict.outcome : Verdict → Outcome
  | .accepted => .accepted
  | .sizeRefusal => .dropped
  | .retryable => .undelivered
  | .permanent => .rejected

/-! ## What one step of an export can do -/

/-- A call logged with its answer, and reported when it holds a rejection. -/
def SplitState.answered (st : SplitState) (part : List Record) (answer : Option GoErr) :
    SplitState :=
  match answer with
  | none => st.call part none
  | some err => (st.call part (some err)).report (splitPartialSuccess err).1 err

/-- A part can be left unsent for three reasons only. -/
def UnsentErr (err : GoErr) : Prop :=
  (∃ c : CtxErr, err = c.err) ∨ err = errSplitCallCap

/-- The elementary steps of an export, with the records each of them settles. -/
inductive SplitStep (env : ExportEnv) : SplitState → List Record → SplitState → Prop where
  | tick (st : SplitState) : SplitStep env st [] { st with checks := st.checks + 1 }
  | budget (st : SplitState) (b : Int) : SplitStep env st [] { st with budget := b }
  | unsent (st : SplitState) (part : List Record) (err : GoErr) (h : UnsentErr err) :
      SplitStep env st part (st.keep part err)
  | accept (st : SplitState) (part : List Record) (answer : Option GoErr)
      (hv : verdict env.fromError answer = .accepted) :
      SplitStep env st part (st.answered part answer)
  | retry (st : SplitState) (part : List Record) (err rest : GoErr)
      (hrest : (splitPartialSuccess err).2 = some rest)
      (hv : verdict env.fromError (some err) = .retryable) :
      SplitStep env st part ((st.answered part (some err)).keep part rest)
  | reject (st : SplitState) (part : List Record) (err rest : GoErr)
      (hrest : (splitPartialSuccess err).2 = some rest)
      (hv : verdict env.fromError (some err) = .permanent) :
      SplitStep env st part ((st.answered part (some err)).reject part rest)
  | drop (st : SplitState) (r : Record) (err : GoErr)
      (hv : verdict env.fromError (some err) = .sizeRefusal) :
      SplitStep env st [r] (st.answered [r] (some err)).drop
  | halve (st : SplitState) (part : List Record) (err : GoErr)
      (hv : verdict env.fromError (some err) = .sizeRefusal) (hlen : part.length ≠ 1) :
      SplitStep env st [] (st.answered part (some err))

/-- A run of steps and the records it settles, in order. -/
inductive SplitSteps (env : ExportEnv) : SplitState → List Record → SplitState → Prop where
  | nil (st : SplitState) : SplitSteps env st [] st
  | cons {st st₁ st₂ : SplitState} {xs ys : List Record} :
      SplitStep env st xs st₁ → SplitSteps env st₁ ys st₂ → SplitSteps env st (xs ++ ys) st₂

variable {env : ExportEnv} {xs ys : List Record} {st₁ st₂ st₃ : SplitState} {err : GoErr}

theorem SplitSteps.single {st st' : SplitState} (h : SplitStep env st xs st') :
    SplitSteps env st xs st' := by
  rw [← List.append_nil xs]
  exact .cons h (.nil st')

theorem SplitSteps.trans (h₁ : SplitSteps env st₁ xs st₂) (h₂ : SplitSteps env st₂ ys st₃) :
    SplitSteps env st₁ (xs ++ ys) st₃ := by
  induction h₁ with
  | nil => exact h₂
  | cons hstep _ ih =>
    rw [List.append_assoc]
    exact .cons hstep (ih h₂)

/-- A step that settles nothing comes for free. -/
theorem SplitSteps.cons_nil (h₁ : SplitStep env st₁ [] st₂) (h₂ : SplitSteps env st₂ ys st₃) :
    SplitSteps env st₁ ys st₃ :=
  .cons h₁ h₂

theorem verdict_rest (fromError : GoErr → Option GrpcStatus) {rest : GoErr}
    (hrest : (splitPartialSuccess err).2 = some rest) :
    verdict fromError (some err) =
      if isSizeRefusal fromError rest then .sizeRefusal
      else if (classifyExportError fromError rest).isRetryable then .retryable
      else .permanent := by
  simp only [verdict, hrest]

/-- Nothing but reports is left of an accepted answer. -/
theorem verdict_accepted_rest (fromError : GoErr → Option GrpcStatus)
    (hv : verdict fromError (some err) = .accepted) : (splitPartialSuccess err).2 = none := by
  cases hrest : (splitPartialSuccess err).2 with
  | none => rfl
  | some rest =>
    rw [verdict_rest fromError hrest] at hv
    split at hv
    next => cases hv
    next => split at hv <;> cases hv

/-- A refused part, its call included, is a run of steps once `deliver` is. -/
theorem refusedForSize_steps {left : Nat}
    (hdeliver : ∀ (part : List Record) (st : SplitState), SplitSteps env st part (deliver env left part st))
    (part : List Record) (st : SplitState) (hv : verdict env.fromError (some err) = .sizeRefusal) :
    SplitSteps env st part (refusedForSize (deliver env left) part (st.answered part (some err))) := by
  unfold refusedForSize
  split
  next r => exact .single (.drop st r err hv)
  next hnot =>
    have hlen : part.length ≠ 1 := by
      intro h
      obtain ⟨r, hr⟩ := List.length_eq_one_iff.mp h
      exact hnot r hr
    have hhalves : ∀ st', SplitSteps env st' part
        (deliver env left (part.drop (part.length / 2))
          (deliver env left (part.take (part.length / 2)) st')) := by
      intro st'
      have htwo := (hdeliver (part.take (part.length / 2)) st').trans
        (hdeliver (part.drop (part.length / 2)) _)
      rw [List.take_append_drop] at htwo
      exact htwo
    exact .cons_nil (.halve st part err hv hlen) (.cons_nil (.budget _ _) (hhalves _))

/-- **`deliver` is a run of steps that settles its part.** Induction on the calls
left: every round of the recursion spends one. -/
theorem deliver_steps (env : ExportEnv) :
    ∀ (left : Nat) (part : List Record) (st : SplitState),
      SplitSteps env st part (deliver env left part st) := by
  intro left
  induction left with
  | zero =>
    intro part st
    unfold deliver
    refine .cons_nil (.tick st) ?_
    cases hctx : env.ctxErr st.checks with
    | some c => exact .single (.unsent _ part _ (Or.inl ⟨c, rfl⟩))
    | none => exact .single (.unsent _ part _ (Or.inr rfl))
  | succ left ih =>
    intro part st
    unfold deliver
    refine .cons_nil (.tick st) ?_
    cases hctx : env.ctxErr st.checks with
    | some c => exact .single (.unsent _ part _ (Or.inl ⟨c, rfl⟩))
    | none =>
      simp only
      split
      next => exact .single (.unsent _ part _ (Or.inr rfl))
      next =>
        cases hans : env.downstream st.log part with
        | none => exact .single (.accept _ part none rfl)
        | some err =>
          simp only
          cases hrest : (splitPartialSuccess err).2 with
          | none =>
            exact .single (.accept _ part (some err) (by simp [verdict, hrest]))
          | some rest =>
            have hv := verdict_rest env.fromError hrest
            simp only
            split
            next hsize =>
              rw [if_pos hsize] at hv
              exact refusedForSize_steps ih part _ hv
            next hsize =>
              rw [if_neg hsize] at hv
              split
              next hretry =>
                rw [if_pos hretry] at hv
                exact .single (.retry _ part err rest hrest hv)
              next hretry =>
                rw [if_neg hretry] at hv
                exact .single (.reject _ part err rest hrest hv)

/-! ## The recursion never stops for lack of calls -/

theorem answered_calls (st : SplitState) (part : List Record) (answer : Option GoErr) :
    (st.answered part answer).run.calls = st.run.calls + 1 ∧
    (st.answered part answer).run.maxCalls = st.run.maxCalls := by
  unfold SplitState.answered
  split
  next => exact ⟨rfl, rfl⟩
  next err =>
    unfold SplitState.report
    split
    next => exact ⟨rfl, rfl⟩
    next => exact ⟨rfl, rfl⟩

/-! ## The accounting -/

section Accounting

variable (env : ExportEnv)

def Call.settles (c : Call) (o : Outcome) : List Record :=
  (verdict env.fromError c.answer).settles c.part o

/-- The records of each outcome: the undelivered ones as the run lists them, the
others read off the calls. -/
def SplitState.bin (st : SplitState) : Outcome → List Record
  | .undelivered => st.run.undelivered
  | o => st.log.flatMap fun c => c.settles env o

/-- The counts of the run agree with the calls it made. -/
structure SplitState.Balanced (st : SplitState) : Prop where
  rejected : st.run.rejected = (st.bin env .rejected).length
  dropped : st.run.dropped = (st.bin env .dropped).length
  tooLarge : st.recordTooLarge = (st.bin env .dropped).length

/-- `Settled st st' part`: between `st` and `st'` the records of `part` were
dealt out, and the counts still agree with the calls. -/
def Settled (st st' : SplitState) (part : List Record) : Prop :=
  (∃ d, Distributes part d ∧ ∀ o, st'.bin env o = st.bin env o ++ d o) ∧
  (st.Balanced env → st'.Balanced env)

theorem Settled.trans (h₁ : Settled env st₁ st₂ xs) (h₂ : Settled env st₂ st₃ ys) :
    Settled env st₁ st₃ (xs ++ ys) := by
  obtain ⟨⟨d, hd, hbin⟩, hbal⟩ := h₁
  obtain ⟨⟨e, he, hbin'⟩, hbal'⟩ := h₂
  refine ⟨⟨fun o => d o ++ e o, hd.append he, fun o => ?_⟩, fun h => hbal' (hbal h)⟩
  rw [hbin' o, hbin o, List.append_assoc]

variable {st st' : SplitState} {part : List Record} {answer : Option GoErr} {v : Verdict}

theorem Settled.refl (hbin : ∀ o, st'.bin env o = st.bin env o)
    (hrej : st'.run.rejected = st.run.rejected) (hdrop : st'.run.dropped = st.run.dropped)
    (htoo : st'.recordTooLarge = st.recordTooLarge) : Settled env st st' [] := by
  refine ⟨⟨fun _ => [], Distributes.nil, fun o => ?_⟩, fun h => ?_⟩
  · rw [hbin o, List.append_nil]
  · constructor
    · rw [hrej, hbin]; exact h.rejected
    · rw [hdrop, hbin]; exact h.dropped
    · rw [htoo, hbin]; exact h.tooLarge

/-- The bins after one more call that leaves `kept` with the caller. -/
theorem bin_call (st : SplitState) {kept : List Record} (hv : verdict env.fromError answer = v)
    (hlog : st'.log = st.log ++ [⟨part, answer⟩])
    (hund : st'.run.undelivered = st.run.undelivered ++ kept) (o : Outcome) :
    st'.bin env o
      = st.bin env o ++ (if o = .undelivered then kept else v.settles part o) := by
  subst hv
  cases o with
  | undelivered => exact hund
  | accepted | rejected | dropped => simp [SplitState.bin, hlog, Call.settles]
/-- **A call settles its part.** `hlen` leaves out the refusal of a part that can
still be halved. -/
theorem settled_call (hv : verdict env.fromError answer = v)
    (hlen : v = .sizeRefusal → part.length = 1) (hlog : st'.log = st.log ++ [⟨part, answer⟩])
    (hund : st'.run.undelivered = st.run.undelivered ++ (if v = .retryable then part else []))
    (hrej : st'.run.rejected = st.run.rejected + (v.settles part .rejected).length)
    (hdrop : st'.run.dropped = st.run.dropped + (v.settles part .dropped).length)
    (htoo : st'.recordTooLarge = st.recordTooLarge + (v.settles part .dropped).length) :
    Settled env st st' part := by
  have hbin := bin_call env st hv hlog hund
  refine ⟨⟨_, Distributes.single v.outcome part, fun o => ?_⟩, fun h => ?_⟩
  · rw [hbin o]
    congr 1
    cases v with
    | accepted | retryable | permanent => cases o <;> rfl
    | sizeRefusal => cases o <;> simp [Verdict.settles, Verdict.outcome, hlen rfl]
  · constructor
    · rw [hrej, hbin, h.rejected, List.length_append]; rfl
    · rw [hdrop, hbin, h.dropped, List.length_append]; rfl
    · rw [htoo, hbin, h.tooLarge, List.length_append]; rfl

/-- A refused part that can still be halved is not settled by its call. -/
theorem settled_refused (hv : verdict env.fromError answer = .sizeRefusal) (hlen : part.length ≠ 1)
    (hlog : st'.log = st.log ++ [⟨part, answer⟩]) (hund : st'.run.undelivered = st.run.undelivered)
    (hrej : st'.run.rejected = st.run.rejected) (hdrop : st'.run.dropped = st.run.dropped)
    (htoo : st'.recordTooLarge = st.recordTooLarge) : Settled env st st' [] := by
  refine Settled.refl env (fun o => ?_) hrej hdrop htoo
  rw [bin_call env st hv hlog (hund.trans (List.append_nil _).symm) o]
  cases o <;> simp [Verdict.settles, hlen]

/-- A part that is not even sent stays with the caller. -/
theorem settled_keep (st : SplitState) (part : List Record) (err : GoErr) :
    Settled env st (st.keep part err) part := by
  have hbin : ∀ o, (st.keep part err).bin env o
      = st.bin env o ++ (if Outcome.undelivered = o then part else []) := fun o => by
    cases o <;> simp [SplitState.bin, SplitState.keep]
  refine ⟨⟨_, Distributes.single .undelivered part, hbin⟩, fun h => ?_⟩
  constructor
  · rw [hbin, if_neg (by decide), List.append_nil]; exact h.rejected
  · rw [hbin, if_neg (by decide), List.append_nil]; exact h.dropped
  · rw [hbin, if_neg (by decide), List.append_nil]; exact h.tooLarge

/-- What a reported call changes besides the log. -/
theorem answered_fields (st : SplitState) (part : List Record) (answer : Option GoErr) :
    (st.answered part answer).log = st.log ++ [⟨part, answer⟩] ∧
    (st.answered part answer).run.undelivered = st.run.undelivered ∧
    (st.answered part answer).run.rejected = st.run.rejected ∧
    (st.answered part answer).run.dropped = st.run.dropped ∧
    (st.answered part answer).recordTooLarge = st.recordTooLarge := by
  unfold SplitState.answered
  split
  next => exact ⟨rfl, rfl, rfl, rfl, rfl⟩
  next err =>
    unfold SplitState.report
    split
    next => exact ⟨rfl, rfl, rfl, rfl, rfl⟩
    next => exact ⟨rfl, rfl, rfl, rfl, rfl⟩

theorem SplitStep.settled (h : SplitStep env st xs st') : Settled env st st' xs := by
  cases h with
  | tick | budget => exact Settled.refl env (fun o => by cases o <;> rfl) rfl rfl rfl
  | unsent part err => exact settled_keep env st _ _
  | accept part answer hv =>
    obtain ⟨hlog, hund, hrej, hdrop, htoo⟩ := answered_fields st xs answer
    exact settled_call env hv (fun h => by cases h) hlog (by simp [hund]) hrej hdrop htoo
  | retry part err rest hrest hv =>
    obtain ⟨hlog, hund, hrej, hdrop, htoo⟩ := answered_fields st xs (some err)
    -- from here on only these fields of the answered state matter
    generalize st.answered xs (some err) = st₁ at *
    refine settled_call env hv (fun h => by cases h) hlog ?_ hrej hdrop htoo
    show st₁.run.undelivered ++ xs = _
    rw [hund, if_pos rfl]
  | reject part err rest hrest hv =>
    obtain ⟨hlog, hund, hrej, hdrop, htoo⟩ := answered_fields st xs (some err)
    generalize st.answered xs (some err) = st₁ at *
    refine settled_call env hv (fun h => by cases h) hlog (by simp [hund, SplitState.reject])
      ?_ hdrop htoo
    show st₁.run.rejected + xs.length = _
    rw [hrej]
    rfl
  | drop r err hv =>
    obtain ⟨hlog, hund, hrej, hdrop, htoo⟩ := answered_fields st [r] (some err)
    generalize st.answered [r] (some err) = st₁ at *
    refine settled_call env hv (fun _ => rfl) hlog (by simp [hund, SplitState.drop]) hrej ?_ ?_
    · show st₁.run.dropped + 1 = _
      rw [hdrop]
      rfl
    · show st₁.recordTooLarge + 1 = _
      rw [htoo]
      rfl
  | halve part err hv hlen =>
    obtain ⟨hlog, hund, hrej, hdrop, htoo⟩ := answered_fields st part (some err)
    exact settled_refused env hv hlen hlog hund hrej hdrop htoo

theorem SplitSteps.settled (h : SplitSteps env st xs st') : Settled env st st' xs := by
  induction h with
  | nil st => exact Settled.refl env (fun _ => rfl) rfl rfl rfl
  | cons hstep _ ih => exact (hstep.settled env).trans env ih

/-! ## Chunks -/

theorem splitLoop_flatten (maxBytes : Int) :
    ∀ (rs cur : List Record) (size : Nat),
      (splitLoop maxBytes cur size rs).flatten = cur ++ rs := by
  intro rs
  induction rs with
  | nil => intro cur size; simp [splitLoop]
  | cons r rs ih =>
    intro cur size
    unfold splitLoop
    simp only
    split
    next => rw [List.flatten_cons, ih]; rfl
    next => rw [ih, List.append_assoc]; rfl

variable (records : List Record)

/-- Cutting loses nothing and keeps the order. -/
theorem splitRecordsByBytes_flatten (maxBytes : Int) :
    (splitRecordsByBytes records maxBytes).flatten = records := by
  unfold splitRecordsByBytes
  split
  next h => rw [List.isEmpty_iff.mp h]; rfl
  next => exact splitLoop_flatten maxBytes records [] 0

theorem deliverAll_steps :
    ∀ (chunks : List (List Record)) (st : SplitState),
      SplitSteps env st chunks.flatten
        (chunks.foldl (fun st chunk => deliver env st.run.maxCalls chunk st) st) := by
  intro chunks
  induction chunks with
  | nil => intro st; exact .nil st
  | cons c cs ih =>
    intro st
    rw [List.flatten_cons, List.foldl_cons]
    exact (deliver_steps env _ c st).trans (ih _)

/-! ## The whole export -/

/-- The error names what is left to act on: a split error lists exactly the
undelivered records and the two counts; any other value says there are none. -/
def Names (err : Option ExportErr) (b : Outcome → List Record) : Prop :=
  match err with
  | some (.split se) =>
    se.undelivered = b .undelivered ∧ se.rejected = (b .rejected).length ∧
      se.dropped = (b .dropped).length
  | _ => b .undelivered = [] ∧ b .rejected = []

theorem result_names (h : st.Balanced env) : Names st.run.result (st.bin env) := by
  unfold SplitRun.result
  split
  next hnone =>
    simp only [Bool.and_eq_true, List.isEmpty_iff, beq_iff_eq] at hnone
    have hrej : st.bin env .rejected = [] :=
      List.eq_nil_of_length_eq_zero (h.rejected ▸ hnone.2)
    cases errorsJoin st.run.reports with
    | none => exact ⟨hnone.1, hrej⟩
    | some e => exact ⟨hnone.1, hrej⟩
  next => exact ⟨rfl, h.rejected, h.dropped⟩

/-- The batch fitted one chunk and its call failed, not for its size. -/
def Unsplit (budget : Int) (records : List Record) (err : GoErr) : Prop :=
  (splitRecordsByBytes records budget).length ≤ 1 ∧ env.downstream [] records = some err ∧
    ∃ rest, (splitPartialSuccess err).2 = some rest ∧ isSizeRefusal env.fromError rest = false

theorem start_bin (budget : Int) (o : Outcome) :
    (SplitState.start records budget).bin env o = [] := by
  cases o <;> rfl

/-- The bins after a first call for the whole batch. -/
theorem bin_start_call (budget : Int) (answer : Option GoErr) (o : Outcome) :
    ((SplitState.start records budget).call records answer).bin env o
      = if o = .undelivered then [] else (verdict env.fromError answer).settles records o := by
  cases o <;> simp [SplitState.bin, SplitState.call, SplitState.start, Call.settles]

theorem start_balanced (budget : Int) :
    (SplitState.start records budget).Balanced env :=
  ⟨rfl, rfl, rfl⟩

/-- An export that ran as steps accounts for its batch. -/
theorem steps_account {records : List Record} {budget : Int}
    (h : SplitSteps env (SplitState.start records budget) records st) :
    Distributes records (st.bin env) ∧ st.Balanced env := by
  obtain ⟨⟨d, hd, hbin⟩, hbal⟩ := h.settled env
  have heq : st.bin env = d := by
    funext o
    rw [hbin o, start_bin, List.nil_append]
  exact ⟨heq ▸ hd, hbal (start_balanced env records budget)⟩

/-- An export is unsplit and returns the downstream error, or it ran as steps
and returns the result of its run, or the whole batch was accepted in one call
or was empty. -/
theorem splitExport_cases (budget : Int) (records : List Record) :
    (∃ err, Unsplit env budget records err ∧
      splitExport env budget records
        = (some (.plain err), (SplitState.start records budget).call records (some err))) ∨
    ((¬ ∃ err, Unsplit env budget records err) ∧
      ((SplitSteps env (SplitState.start records budget) records
          (splitExport env budget records).2 ∧
        (splitExport env budget records).1 = (splitExport env budget records).2.run.result) ∨
       (∃ answer, (verdict env.fromError answer = .accepted ∨ records = []) ∧
        splitExport env budget records
          = (answer.map .plain, (SplitState.start records budget).call records answer)))) := by
  unfold splitExport
  by_cases hchunks : (splitRecordsByBytes records budget).length ≤ 1
  · rw [if_pos hchunks]
    have hlog : (SplitState.start records budget).log = [] := rfl
    rw [hlog]
    cases hans : env.downstream [] records with
    | none =>
      refine Or.inr ⟨?_, Or.inr ⟨none, Or.inl rfl, rfl⟩⟩
      rintro ⟨err, _, herr, _⟩
      rw [hans] at herr
      cases herr
    | some err =>
      simp only
      cases hrest : (splitPartialSuccess err).2 with
      | none =>
        refine Or.inr ⟨?_, Or.inr ⟨some err, Or.inl (by simp [verdict, hrest]), rfl⟩⟩
        rintro ⟨err', _, herr, rest, hr, _⟩
        rw [hans, Option.some.injEq] at herr
        rw [← herr, hrest] at hr
        cases hr
      | some rest =>
        simp only
        cases hsize : isSizeRefusal env.fromError rest with
        | false => exact Or.inl ⟨err, ⟨hchunks, hans, rest, hrest, hsize⟩, by simp⟩
        | true =>
          have hnot : ¬ ∃ err, Unsplit env budget records err := by
            rintro ⟨err', _, herr, rest', hr, hs⟩
            rw [hans, Option.some.injEq] at herr
            rw [← herr, hrest, Option.some.injEq] at hr
            rw [← hr, hsize] at hs
            cases hs
          refine Or.inr ⟨hnot, ?_⟩
          by_cases hempty : records = []
          · exact Or.inr ⟨some err, Or.inr hempty, by simp [hempty]⟩
          · have hv : verdict env.fromError (some err) = .sizeRefusal := by
              rw [verdict_rest env.fromError hrest, if_pos hsize]
            have hne : records.isEmpty = false := by
              rw [List.isEmpty_eq_false_iff]; exact hempty
            refine Or.inl ?_
            simp only [hne, Bool.not_true, Bool.or_self, Bool.false_eq_true, if_false]
            exact ⟨refusedForSize_steps (deliver_steps env _) records _ hv, trivial⟩
  · rw [if_neg hchunks]
    refine Or.inr ⟨fun hunsplit => hchunks hunsplit.choose_spec.1, Or.inl ⟨?_, rfl⟩⟩
    have hall := deliverAll_steps env (splitRecordsByBytes records budget)
      (SplitState.start records budget)
    rw [splitRecordsByBytes_flatten] at hall
    exact hall

/-- **Every record exactly once.** For every wrapped exporter, context, batch and
working budget: when the batch fitted one chunk and failed other than for its
size, the export made that one call and returned its error as it is; otherwise
the batch is dealt out over accepted calls, undelivered, rejected and dropped,
the error names exactly the last three, and every drop moved the
`record_too_large` counter. A bin keeps the order of the batch, and the accepted
bin is the concatenation of the accepted calls, so no record is in two of them. -/
theorem export_partitions (budget : Int) (records : List Record) :
    (∃ err, Unsplit env budget records err ∧
      splitExport env budget records
        = (some (.plain err), (SplitState.start records budget).call records (some err))) ∨
    ((¬ ∃ err, Unsplit env budget records err) ∧
      Distributes records ((splitExport env budget records).2.bin env) ∧
      ((splitExport env budget records).2.bin env .accepted).Sublist records ∧
      ((splitExport env budget records).2.bin env .undelivered).Sublist records ∧
      Names (splitExport env budget records).1 ((splitExport env budget records).2.bin env) ∧
      (splitExport env budget records).2.recordTooLarge
        = ((splitExport env budget records).2.bin env .dropped).length) := by
  rcases splitExport_cases env budget records with hun | ⟨hnot, hcase⟩
  · exact Or.inl hun
  · refine Or.inr ⟨hnot, ?_⟩
    rcases hcase with ⟨hsteps, hres⟩ | ⟨answer, hok, hout⟩
    · obtain ⟨hdist, hbal⟩ := steps_account env hsteps
      refine ⟨hdist, hdist.sublist _, hdist.sublist _, ?_, hbal.tooLarge⟩
      rw [hres]
      exact result_names env hbal
    · rw [hout]
      have hbin : ∀ o, ((SplitState.start records budget).call records answer).bin env o
          = if Outcome.accepted = o then records else [] := by
        intro o
        rw [bin_start_call]
        rcases hok with hv | rfl
        · rw [hv]; cases o <;> rfl
        · cases verdict env.fromError answer <;> cases o <;> rfl
      have hdist : Distributes records
          (((SplitState.start records budget).call records answer).bin env) := by
        rw [show ((SplitState.start records budget).call records answer).bin env
            = fun o => if Outcome.accepted = o then records else [] from funext hbin]
        exact Distributes.single Outcome.accepted records
      refine ⟨hdist, hdist.sublist _, hdist.sublist _, ?_, by rw [hbin]; rfl⟩
      cases answer with
      | none => exact ⟨hbin _, hbin _⟩
      | some err => exact ⟨hbin _, hbin _⟩

end Accounting

end SenhubAgent.Otlp

import SenhubAgent.Otlp.LogExporter
import SenhubAgent.Otlp.SplitAccount

/-!
# What a split export tells its caller

The splitting exporter tells its caller two things through one error value: the
partial-success reports and what was left to do. When nothing is left to do it
returns the reports alone, as the answers they came in. An answer that joined a
report with a refusal for size is kept as such a report, and the refusal in it,
which the split has already dealt with, is read by the caller as the failure of
the whole batch (`Misreported`).

> `splitExport_ends`: every export ends in one of four ways, and the answer agrees
> with what became of the records in all of them but that one.

What makes it a complete list is that every failure a split error carries survives
the splitter that takes the reports out (`SplitState.Reported`), so no split error is
ever read as a success.
-/

namespace SenhubAgent.Otlp

open SenhubAgent.Lib (Distributes)

section Report

variable (env : ExportEnv) (budget : Int)

/-- The batch was split and nothing is left to do (no split error comes back),
but a call was answered with reports and a failure at once. -/
def Misreported (records : List Record) : Prop :=
  records ≠ [] ∧ (¬ ∃ err, Unsplit env budget records err) ∧
  (∀ se, (splitExport env budget records).1 ≠ some (.split se)) ∧
  ∃ c ∈ (splitExport env budget records).2.log, ∃ err, c.answer = some err ∧
    (splitPartialSuccess err).1 ≠ [] ∧ (splitPartialSuccess err).2 ≠ none

/-! ## What a split run reports -/

/-- The error a call leaves among the reports. -/
def Call.report (c : Call) : Option GoErr :=
  c.answer.filter fun err => !(splitPartialSuccess err).1.isEmpty

/-- The reports are the answers that held one, every failure is a failure still
once reports are taken out, and there is one whenever something is left. -/
structure SplitState.Reported (st : SplitState) : Prop where
  reports : st.run.reports = st.log.filterMap Call.report
  clean : ∀ f ∈ st.run.failures, f.Clean
  failed : st.run.undelivered ≠ [] ∨ st.run.rejected ≠ 0 → st.run.failures ≠ []

variable {env} {budget} {st st' : SplitState} {err : GoErr} {xs records : List Record}

theorem answered_reported (h : st.Reported) (part : List Record) (answer : Option GoErr) :
    (st.answered part answer).Reported := by
  cases answer with
  | none =>
    exact ⟨h.reports.trans (by simp [SplitState.answered, SplitState.call, Call.report]),
      h.clean, h.failed⟩
  | some err =>
    have hlog : ((st.call part (some err)).log).filterMap Call.report
        = st.run.reports ++ (Call.report ⟨part, some err⟩).toList := by
      rw [h.reports]
      simp only [SplitState.call, List.filterMap_append, List.filterMap_cons, List.filterMap_nil]
      cases Call.report ⟨part, some err⟩ <;> rfl
    simp only [SplitState.answered, SplitState.report]
    split
    next hfound =>
      refine ⟨?_, h.clean, h.failed⟩
      rw [hlog, Call.report, Option.filter_some, hfound]
      exact (List.append_nil _).symm
    next hfound =>
      refine ⟨?_, h.clean, h.failed⟩
      rw [hlog, Call.report, Option.filter_some, eq_false_of_ne_true hfound]
      rfl

theorem UnsentErr.clean (h : UnsentErr err) : err.Clean := by
  rcases h with ⟨c, rfl⟩ | rfl
  · cases c with
    | canceled | deadlineExceeded => exact GoErr.Clean.leaf (by decide)
  · exact GoErr.Clean.leaf (by decide)

/-- A run that adds a clean failure, whatever else it leaves to do. -/
theorem SplitState.Reported.fail (h : st.Reported) (herr : err.Clean) (hlog : st'.log = st.log)
    (hreports : st'.run.reports = st.run.reports)
    (hfailures : st'.run.failures = st.run.failures ++ [err]) : st'.Reported := by
  refine ⟨by rw [hreports, hlog, h.reports], fun f hf => ?_, fun _ => ?_⟩
  · rw [hfailures] at hf
    rcases List.mem_append.mp hf with hf | hf
    · exact h.clean f hf
    · exact List.mem_singleton.mp hf ▸ herr
  · rw [hfailures]
    exact List.append_ne_nil_of_right_ne_nil _ (List.cons_ne_nil _ _)

theorem keep_reported (h : st.Reported) (part : List Record) (herr : err.Clean) :
    (st.keep part err).Reported := h.fail herr rfl rfl rfl

theorem reject_reported (h : st.Reported) (part : List Record) (herr : err.Clean) :
    (st.reject part err).Reported := h.fail herr rfl rfl rfl

theorem drop_reported (h : st.Reported) : st.drop.Reported :=
  ⟨h.reports, h.clean, h.failed⟩

theorem SplitStep.reported (h : SplitStep env st xs st') (hst : st.Reported) : st'.Reported := by
  cases h with
  | tick | budget => exact ⟨hst.reports, hst.clean, hst.failed⟩
  | unsent part err herr => exact keep_reported hst xs herr.clean
  | accept part answer hv => exact answered_reported hst xs answer
  | retry part err rest hrest hv =>
    exact keep_reported (answered_reported hst xs (some err)) xs (splitPartialSuccess_rest err hrest)
  | reject part err rest hrest hv =>
    exact reject_reported (answered_reported hst xs (some err)) xs
      (splitPartialSuccess_rest err hrest)
  | drop r err hv => exact drop_reported (answered_reported hst [r] (some err))
  | halve part err hv hlen => exact answered_reported hst part (some err)

theorem SplitSteps.reported (h : SplitSteps env st xs st') (hst : st.Reported) : st'.Reported := by
  induction h with
  | nil st => exact hst
  | cons hstep _ ih => exact ih (hstep.reported hst)

theorem start_reported (records : List Record) (budget : Int) :
    (SplitState.start records budget).Reported :=
  ⟨rfl, fun _ h => (List.not_mem_nil h).elim, fun h => by rcases h with h | h <;> exact (h rfl).elim⟩

/-- A split error is never read as a success: a failure in it outlives the
reports around it. -/
theorem splitRejections_failed {reports failures : List GoErr} (hfail : failures ≠ [])
    (hclean : ∀ f ∈ failures, f.Clean) (undelivered : List Record) (rejected dropped : Nat) :
    failure (some (.split ⟨errorsJoin (reports ++ failures), undelivered, rejected, dropped⟩))
      ≠ none := by
  obtain ⟨f, hf⟩ := List.exists_mem_of_ne_nil _ hfail
  cases hall : reports ++ failures with
  | nil => exact absurd (List.append_eq_nil_iff.mp hall).2 hfail
  | cons x xs =>
    have hparse : parsePartialSuccess (GoErr.join (x :: xs)).error = none := by
      refine GoErr.join_parse fun hxs => ?_
      -- a single member is the failure itself
      have hmem : f ∈ x :: xs := hall ▸ List.mem_append.mpr (Or.inr hf)
      rw [hxs] at hmem
      exact List.mem_singleton.mp hmem ▸ (hclean f hf).parse
    have hrest : (splitPartialSuccess (.join (x :: xs))).2 ≠ none := by
      intro hnone
      obtain ⟨_, r, hr⟩ := hclean f hf
      rw [(GoErr.join_rest x xs).mp hnone f (hall ▸ List.mem_append.mpr (Or.inr hf))] at hr
      cases hr
    simp only [failure, Option.bind_some, splitRejections, SplitExportError.error, errorsJoin, hparse]
    split
    next => exact Option.some_ne_none _
    next p ps rest heq =>
      rw [heq] at hrest
      simpa using hrest

/-- A result without a split error holds a failure exactly when a call was
answered with reports and a failure at once. -/
theorem result_failure (h : st.Reported) (hsplit : ∀ se, st.run.result ≠ some (.split se)) :
    failure st.run.result ≠ none ↔
      ∃ c ∈ st.log, ∃ err, c.answer = some err ∧ (splitPartialSuccess err).1 ≠ [] ∧
        (splitPartialSuccess err).2 ≠ none := by
  have hmem : ∀ err, err ∈ st.run.reports ↔
      ∃ c ∈ st.log, c.answer = some err ∧ (splitPartialSuccess err).1 ≠ [] := by
    intro err
    rw [h.reports, List.mem_filterMap]
    simp [Call.report, Option.filter_eq_some_iff]
  have hres : st.run.result = (errorsJoin st.run.reports).map ExportErr.plain := by
    unfold SplitRun.result at hsplit ⊢
    split
    next => rfl
    next hleft => rw [if_neg hleft] at hsplit; exact absurd rfl (hsplit _)
  rw [hres]
  have hiff : failure ((errorsJoin st.run.reports).map ExportErr.plain) ≠ none ↔
      ∃ err ∈ st.run.reports, (splitPartialSuccess err).2 ≠ none := by
    cases hrep : st.run.reports with
    | nil => simp [errorsJoin, failure]
    | cons e es =>
      have hjoin := GoErr.join_rest e es
      simp only [errorsJoin, Option.map_some, failure, Option.bind_some, splitRejections, ne_eq,
        Option.map_eq_none_iff, hjoin, not_forall, exists_prop]
  rw [hiff]
  constructor
  · rintro ⟨err, herr, hrest⟩
    obtain ⟨c, hc, hans, hfound⟩ := (hmem err).mp herr
    exact ⟨c, hc, err, hans, hfound, hrest⟩
  · rintro ⟨c, hc, err, hans, hfound, hrest⟩
    exact ⟨err, (hmem err).mpr ⟨c, hc, hans, hfound⟩, hrest⟩

/-- A run that left something to do returns a split error with a failure in it. -/
theorem result_split (h : st.Reported) {se : SplitExportError}
    (hres : st.run.result = some (.split se)) : failure (some (.split se)) ≠ none := by
  unfold SplitRun.result at hres
  split at hres
  next => cases hjoin : errorsJoin st.run.reports <;> rw [hjoin] at hres <;> cases hres
  next hleft =>
    cases hres
    refine splitRejections_failed (h.failed ?_) h.clean _ _ _
    simp only [Bool.and_eq_true, List.isEmpty_iff, beq_iff_eq] at hleft
    by_cases hund : st.run.undelivered = []
    · exact Or.inr fun hrej => hleft ⟨hund, hrej⟩
    · exact Or.inl hund

/-- The four bins have room for every record once. -/
theorem outcome_lengths {α : Type} {xs : List α} {d : Outcome → List α} (h : Distributes xs d) :
    (d .accepted).length + (d .undelivered).length + (d .rejected).length + (d .dropped).length
      = xs.length := by
  obtain ⟨ks, hks, hd⟩ := h
  simp only [hd]
  clear hd
  induction ks generalizing xs with
  | nil =>
    rw [List.length_nil] at hks
    simp [SenhubAgent.Lib.pick, ← hks]
  | cons k ks ih =>
    cases xs with
    | nil => simp at hks
    | cons x xs =>
      have hrest := @ih xs (by simpa using hks)
      cases k <;> simp [SenhubAgent.Lib.pick] <;> omega

/-! ## How an export ends -/

/-- The ways an export can end: its answer, and what became of the records. -/
inductive Ends (env : ExportEnv) (budget : Int) (records : List Record) :
    Option ExportErr × SplitState → Prop where
  /-- Nothing is left to do, and the answer holds no failure. -/
  | done {answer : Option ExportErr} {st : SplitState} (hok : ¬ Misreported env budget records)
    (hfail : failure answer = none) (hdist : Distributes records (st.bin env))
    (hund : st.bin env .undelivered = []) (hrej : st.bin env .rejected = [])
    (htoo : st.recordTooLarge = (st.bin env .dropped).length) : Ends env budget records (answer, st)
  /-- The failure of the batch's one call is the failure of all its records. -/
  | whole {err : GoErr} {st : SplitState} (hok : ¬ Misreported env budget records)
    (hfail : failure (some (.plain err)) ≠ none) (hacc : st.bin env .accepted = [])
    (htoo : st.recordTooLarge = 0) : Ends env budget records (some (.plain err), st)
  /-- A split error names what is left to do. -/
  | split {se : SplitExportError} {st : SplitState} (hok : ¬ Misreported env budget records)
    (hfail : failure (some (.split se)) ≠ none) (hdist : Distributes records (st.bin env))
    (hund : se.undelivered = st.bin env .undelivered)
    (hrej : se.rejected = (st.bin env .rejected).length)
    (htoo : st.recordTooLarge = (st.bin env .dropped).length) :
    Ends env budget records (some (.split se), st)
  /-- Nothing is left to do, and the answer still holds a failure. -/
  | twice {err : GoErr} {st : SplitState} (hmis : Misreported env budget records)
    (hfail : failure (some (.plain err)) ≠ none) (hdist : Distributes records (st.bin env))
    (hund : st.bin env .undelivered = []) (hrej : st.bin env .rejected = [])
    (htoo : st.recordTooLarge = (st.bin env .dropped).length) :
    Ends env budget records (some (.plain err), st)

theorem unsplit_ends (hun : Unsplit env budget records err) :
    Ends env budget records
      (some (.plain err), (SplitState.start records budget).call records (some err)) := by
  have hok : ¬ Misreported env budget records := fun h => h.2.1 ⟨err, hun⟩
  obtain ⟨_, _, rest, hrest, hsize⟩ := hun
  refine .whole hok (by simp [failure, splitRejections, hrest]) ?_ rfl
  rw [bin_start_call, if_neg (by decide), verdict_rest env.fromError hrest, hsize]
  simp only [Bool.false_eq_true, if_false]
  split <;> rfl

/-- A batch accepted in one call, or an empty one. -/
theorem once_ends {answer : Option GoErr} (hok : verdict env.fromError answer = .accepted ∨ records = [])
    (hout : splitExport env budget records
      = (answer.map .plain, (SplitState.start records budget).call records answer)) :
    Ends env budget records (splitExport env budget records) := by
  have hnot : ¬ Misreported env budget records := by
    rintro ⟨hne, _, _, c, hc, err, hans, _, hrest⟩
    have hv := hok.resolve_right hne
    rw [hout] at hc
    have hcall : c = ⟨records, answer⟩ := by
      simpa [SplitState.call, SplitState.start] using hc
    subst hcall
    simp only at hans
    rw [hans] at hv
    exact hrest (verdict_accepted_rest env.fromError hv)
  have hbin : ∀ o, ((SplitState.start records budget).call records answer).bin env o
      = if Outcome.accepted = o then records else [] := by
    intro o
    rw [bin_start_call]
    rcases hok with hv | hempty
    · rw [hv]
      cases o <;> rfl
    · rw [hempty]
      cases o <;> cases verdict env.fromError answer <;> rfl
  rw [hout]
  by_cases hfail : failure (answer.map ExportErr.plain) = none
  · exact .done hnot hfail (by rw [funext hbin]; exact Distributes.single Outcome.accepted records)
      (hbin _) (hbin _) (by rw [hbin]; rfl)
  · -- a failure on an accepted answer is impossible, so the batch is empty
    cases answer with
    | none => exact absurd rfl hfail
    | some err =>
      have hempty : records = [] := by
        refine hok.resolve_left fun hv => hfail ?_
        simp [failure, splitRejections, verdict_accepted_rest env.fromError hv]
      exact .whole hnot hfail (by rw [hbin, hempty]; rfl) rfl

/-- An export that ran as a split. -/
theorem steps_ends (hnot : ¬ ∃ err, Unsplit env budget records err)
    (hsteps : SplitSteps env (SplitState.start records budget) records
      (splitExport env budget records).2)
    (hres : (splitExport env budget records).1 = (splitExport env budget records).2.run.result) :
    Ends env budget records (splitExport env budget records) := by
  have hmis : Misreported env budget records ↔ records ≠ [] ∧
      (∀ se, (splitExport env budget records).2.run.result ≠ some (.split se)) ∧
      ∃ c ∈ (splitExport env budget records).2.log, ∃ err, c.answer = some err ∧
        (splitPartialSuccess err).1 ≠ [] ∧ (splitPartialSuccess err).2 ≠ none := by
    rw [← hres]
    exact ⟨fun h => ⟨h.1, h.2.2.1, h.2.2.2⟩, fun h => ⟨h.1, hnot, h.2.1, h.2.2⟩⟩
  obtain ⟨hdist, hbal⟩ := steps_account env hsteps
  have hrep := hsteps.reported (start_reported records budget)
  have hnames := result_names env hbal
  rcases hout : splitExport env budget records with ⟨answer, st⟩
  rw [hout] at hres hmis hdist hbal hrep hnames
  simp only at hres hmis hdist hbal hrep hnames
  rw [← hres] at hmis hnames
  by_cases hsplit : ∃ se, answer = some (.split se)
  · obtain ⟨se, rfl⟩ := hsplit
    exact .split (fun h => (hmis.mp h).2.1 se rfl) (result_split hrep hres.symm) hdist hnames.1
      hnames.2.1 hbal.tooLarge
  · have hplain : ∀ se, answer ≠ some (.split se) := fun se h => hsplit ⟨se, h⟩
    have hnone : st.bin env .undelivered = [] ∧ st.bin env .rejected = [] := by
      unfold Names at hnames
      split at hnames
      next se => exact absurd rfl (hplain se)
      next => exact hnames
    have hmixed := result_failure hrep (hres ▸ hplain)
    rw [← hres] at hmixed
    by_cases hfail : failure answer = none
    · exact .done (fun h => hmixed.mpr (hmis.mp h).2.2 hfail) hfail hdist hnone.1 hnone.2 hbal.tooLarge
    · match answer, hfail, hmis, hmixed, hplain with
      | none, hfail, _, _, _ => exact absurd rfl hfail
      | some (.split se), _, _, _, hplain => exact absurd rfl (hplain se)
      | some (.plain err), hfail, hmis, hmixed, hplain =>
        by_cases hempty : records = []
        · have hlen := outcome_lengths hdist
          rw [hempty, List.length_nil, ← hbal.tooLarge] at hlen
          exact .whole (fun h => h.1 hempty) hfail (List.eq_nil_of_length_eq_zero (by omega)) (by omega)
        · exact .twice (hmis.mpr ⟨hempty, hplain, hmixed.mp hfail⟩) hfail hdist hnone.1 hnone.2
            hbal.tooLarge

/-- **How an export ends.** -/
theorem splitExport_ends (env : ExportEnv) (budget : Int) (records : List Record) :
    Ends env budget records (splitExport env budget records) := by
  rcases splitExport_cases env budget records with ⟨err, hun, hout⟩ | ⟨hnot, hcase⟩
  · rw [hout]
    exact unsplit_ends hun
  · rcases hcase with ⟨hsteps, hres⟩ | ⟨answer, hok, hout⟩
    · exact steps_ends hnot hsteps hres
    · exact once_ends hok hout

end Report

end SenhubAgent.Otlp

import SenhubAgent.Otlp.SplitAccount

/-!
# The splitting logs exporter: chunks and calls

Two facts about how an export spends its calls.

> `splitRecordsByBytes_greedy`: the chunks are the batch cut between records, none
> empty, none over the budget unless it is a single record, and each as long as the
> budget allows.

> `export_calls`: an export of `n` records makes at most `2 * n` calls, and the cap
> on the calls changes nothing.

The second is stated against `exportUncapped`, the same exporter without a cap and
without fuel: `deliverUncapped` recurses on the length of its part, so it ends whatever
the receiver answers. A part of `k` records is sent at most `2 * k - 1` times, itself and
its halves included (`deliver_uncapped`), and the chunks of a batch share the cap so that
each of them still finds the calls it needs (`deliverAll_uncapped`).
-/

namespace SenhubAgent.Otlp

/-! ## Chunks -/

/-- The estimated size of a chunk. -/
def chunkBytes (chunk : List Record) : Nat := (chunk.map estimateRecordBytes).sum

/-- Chunks cut as late as the budget allows. -/
structure Greedy (maxBytes : Int) (chunks : List (List Record)) : Prop where
  nonempty : ∀ chunk ∈ chunks, chunk ≠ []
  fits : ∀ chunk ∈ chunks, 2 ≤ chunk.length → (chunkBytes chunk : Int) ≤ maxBytes
  maximal : ∀ front chunk r rest back, chunks = front ++ chunk :: (r :: rest) :: back →
    maxBytes < (chunkBytes chunk + estimateRecordBytes r : Nat)

/-- The first chunk of the loop starts with what it holds already. -/
theorem splitLoop_head (maxBytes : Int) :
    ∀ (rs cur : List Record) (size : Nat),
      ∃ more back, splitLoop maxBytes cur size rs = (cur ++ more) :: back := by
  intro rs
  induction rs with
  | nil => intro cur size; exact ⟨[], [], by simp [splitLoop]⟩
  | cons r rs ih =>
    intro cur size
    unfold splitLoop
    simp only
    split
    next => exact ⟨[], _, by rw [List.append_nil]⟩
    next =>
      obtain ⟨more, back, h⟩ := ih (cur ++ [r]) (size + estimateRecordBytes r)
      exact ⟨r :: more, back, by rw [h, List.append_assoc]; rfl⟩

/-- A chunk that is closed goes in front of chunks that start with the record that did
not fit. -/
theorem Greedy.cons {maxBytes : Int} {chunk more : List Record} {r : Record}
    {back : List (List Record)} (hne : chunk ≠ [])
    (hfits : 2 ≤ chunk.length → (chunkBytes chunk : Int) ≤ maxBytes)
    (hfull : maxBytes < (chunkBytes chunk + estimateRecordBytes r : Nat))
    (h : Greedy maxBytes ((r :: more) :: back)) :
    Greedy maxBytes (chunk :: (r :: more) :: back) := by
  refine ⟨List.forall_mem_cons.mpr ⟨hne, h.nonempty⟩, List.forall_mem_cons.mpr ⟨hfits, h.fits⟩, ?_⟩
  intro front c r' rest back' heq
  cases front with
  | nil =>
    obtain ⟨rfl, ⟨rfl, -⟩, -⟩ := heq
    exact hfull
  | cons f front =>
    simp only [List.cons_append, List.cons.injEq] at heq
    exact h.maximal front c r' rest back' heq.2

theorem chunkBytes_concat (cur : List Record) (r : Record) :
    chunkBytes (cur ++ [r]) = chunkBytes cur + estimateRecordBytes r := by
  simp [chunkBytes]

/-- The loop on a chunk that is within the budget, with the size it has. Induction on the
records left; the size is reset together with the chunk. -/
theorem splitLoop_greedy (maxBytes : Int) :
    ∀ (rs cur : List Record), (cur ≠ [] ∨ rs ≠ []) →
      (2 ≤ cur.length → (chunkBytes cur : Int) ≤ maxBytes) →
      Greedy maxBytes (splitLoop maxBytes cur (chunkBytes cur) rs) := by
  intro rs
  induction rs with
  | nil =>
    intro cur hne hfits
    unfold splitLoop
    refine ⟨?_, ?_, ?_⟩
    · intro chunk hchunk
      rw [List.mem_singleton.mp hchunk]
      exact hne.resolve_right (by simp)
    · intro chunk hchunk
      rw [List.mem_singleton.mp hchunk]
      exact hfits
    · intro front chunk r rest back heq
      have hlen := congrArg List.length heq
      simp only [List.length_cons, List.length_append, List.length_nil] at hlen
      omega
  | cons r rs ih =>
    intro cur hne hfits
    unfold splitLoop
    simp only
    split
    next hcut =>
      obtain ⟨hcur, hfull⟩ := hcut
      obtain ⟨more, back, hhead⟩ := splitLoop_head maxBytes rs [r] (estimateRecordBytes r)
      have hrest := ih [r] (Or.inl (by simp)) (by simp)
      have hsize : chunkBytes [r] = estimateRecordBytes r := by simp [chunkBytes]
      rw [hsize, hhead] at hrest
      rw [hhead]
      exact Greedy.cons hcur hfits hfull hrest
    next hkeep =>
      rw [← chunkBytes_concat]
      refine ih (cur ++ [r]) (Or.inl (by simp)) ?_
      intro hlen
      have hcur : cur ≠ [] := by
        rintro rfl
        simp at hlen
      rw [chunkBytes_concat]
      by_contra hover
      exact hkeep ⟨hcur, by omega⟩

theorem greedy_splitRecordsByBytes (records : List Record) (maxBytes : Int) :
    Greedy maxBytes (splitRecordsByBytes records maxBytes) := by
  unfold splitRecordsByBytes
  split
  next =>
    refine ⟨by simp, by simp, ?_⟩
    intro front chunk r rest back heq
    cases front <;> cases heq
  next hne =>
    exact splitLoop_greedy maxBytes records [] (Or.inr (by simpa using hne)) (by simp)

/-- **The chunks of a batch**: the batch cut between records, each chunk as long as the
budget allows. -/
theorem splitRecordsByBytes_greedy (records : List Record) (maxBytes : Int) :
    (splitRecordsByBytes records maxBytes).flatten = records ∧
      Greedy maxBytes (splitRecordsByBytes records maxBytes) :=
  ⟨splitRecordsByBytes_flatten records maxBytes, greedy_splitRecordsByBytes records maxBytes⟩

/-! ## The exporter without a cap -/

section Uncapped

variable (env : ExportEnv)

/-- `deliver` without the cap. A refused part of two or more records is halved; neither
a chunk nor a half is empty, so an empty part is never sent. -/
def deliverUncapped (part : List Record) (st : SplitState) : SplitState :=
  let st' := { st with checks := st.checks + 1 }
  match env.ctxErr st.checks with
  | some err => st'.keep part err.err
  | none =>
    let answer := env.downstream st.log part
    let st' := st'.call part answer
    match answer with
    | none => st'
    | some err =>
      let (found, rest) := splitPartialSuccess err
      let st' := st'.report found err
      match rest with
      | none => st'
      | some rest =>
        if isSizeRefusal env.fromError rest then
          if part.length ≤ 1 then st'.drop
          else
            let st' := { st' with
              budget := lowerBudget st'.budget (part.map estimateRecordBytes).sum }
            let mid := part.length / 2
            deliverUncapped (part.drop mid) (deliverUncapped (part.take mid) st')
        else if (classifyExportError env.fromError rest).isRetryable then st'.keep part rest
        else st'.reject part rest
termination_by part.length
decreasing_by
  · rw [List.length_take]; omega
  · rw [List.length_drop]; omega

/-- `Export` without the cap. -/
def exportUncapped (budget : Int) (records : List Record) : Option ExportErr × SplitState :=
  let chunks := splitRecordsByBytes records budget
  let st := SplitState.start records budget
  if chunks.length ≤ 1 then
    let answer := env.downstream st.log records
    let st := st.call records answer
    match answer with
    | none => (none, st)
    | some err =>
      let (found, rest) := splitPartialSuccess err
      match rest with
      | none => (some (.plain err), st)
      | some rest =>
        if !isSizeRefusal env.fromError rest || records.isEmpty then (some (.plain err), st)
        else
          let st := refusedForSize (deliverUncapped env) records (st.report found err)
          (st.run.result, st)
  else
    let st := chunks.foldl (fun st chunk => deliverUncapped env chunk st) st
    (st.run.result, st)

/-- `Spends k st st'`: from `st` to `st'` at most `k` calls are made. -/
structure Spends (k : Nat) (st st' : SplitState) : Prop where
  calls : st'.run.calls ≤ st.run.calls + k
  log : st'.log.length ≤ st.log.length + k
  cap : st'.run.maxCalls = st.run.maxCalls

variable {j k : Nat} {part : List Record}

theorem Spends.trans {st₁ st₂ st₃ : SplitState} (h : Spends j st₁ st₂) (h' : Spends k st₂ st₃) :
    Spends (j + k) st₁ st₃ := by
  obtain ⟨hcalls, hlog, hcap⟩ := h
  obtain ⟨hcalls', hlog', hcap'⟩ := h'
  exact ⟨by omega, by omega, hcap'.trans hcap⟩

theorem Spends.mono {st st' : SplitState} (h : Spends j st st') (hjk : j ≤ k) :
    Spends k st st' := by
  obtain ⟨hcalls, hlog, hcap⟩ := h
  exact ⟨by omega, by omega, hcap⟩

/-- One call after a look at the context, with its answer reported. -/
theorem spends_answered (st : SplitState) (part : List Record) (answer : Option GoErr) :
    Spends 1 st (({ st with checks := st.checks + 1 } : SplitState).answered part answer) := by
  obtain ⟨hcalls, hcap⟩ := answered_calls { st with checks := st.checks + 1 } part answer
  refine ⟨Nat.le_of_eq hcalls, ?_, hcap⟩
  rw [(answered_fields _ part answer).1, List.length_append, List.length_singleton]

theorem spends_refused (st : SplitState) (part : List Record) (err : GoErr) :
    Spends 1 st ((({ st with checks := st.checks + 1 } : SplitState).call part (some err)).report
      (splitPartialSuccess err).1 err) := spends_answered st part (some err)

theorem refusedForSize_eq (again : List Record → SplitState → SplitState) (hne : part ≠ [])
    (st : SplitState) :
    refusedForSize again part st =
      if part.length ≤ 1 then st.drop
      else again (part.drop (part.length / 2)) (again (part.take (part.length / 2))
        { st with budget := lowerBudget st.budget (part.map estimateRecordBytes).sum }) := by
  match part, hne with
  | [_], _ => rfl
  | _ :: _ :: _, _ => rfl

theorem length_halves (part : List Record) :
    (part.take (part.length / 2)).length = part.length / 2 ∧
      (part.drop (part.length / 2)).length = part.length - part.length / 2 := by
  rw [List.length_take, List.length_drop]
  omega

/-- The halves of a refused part find the calls they need, where the part has them, and it
spends what they spend. -/
theorem refusedForSize_uncapped {left : Nat}
    (hdeliver : ∀ (part : List Record) (st : SplitState), part ≠ [] →
      2 * part.length ≤ left + 1 → st.run.calls + 2 * part.length ≤ st.run.maxCalls + 1 →
      deliver env left part st = deliverUncapped env part st ∧
        Spends (2 * part.length - 1) st (deliverUncapped env part st))
    (st : SplitState) (hne : part ≠ []) (hleft : 2 * part.length ≤ left + 2)
    (hcap : st.run.calls + 2 * part.length ≤ st.run.maxCalls + 2) :
    refusedForSize (deliver env left) part st = refusedForSize (deliverUncapped env) part st ∧
      Spends (2 * part.length - 2) st (refusedForSize (deliverUncapped env) part st) := by
  rw [refusedForSize_eq _ hne, refusedForSize_eq _ hne]
  split
  next => exact ⟨rfl, Nat.le_add_right _ _, Nat.le_add_right _ _, rfl⟩
  next hlen =>
    obtain ⟨htake, hdrop⟩ := length_halves part
    have hlower : Spends 0 st { st with
        budget := lowerBudget st.budget (part.map estimateRecordBytes).sum } :=
      ⟨Nat.le_refl _, Nat.le_refl _, rfl⟩
    generalize ({ st with
      budget := lowerBudget st.budget (part.map estimateRecordBytes).sum } : SplitState) = st₁
      at hlower ⊢
    have hcalls := hlower.calls
    have hmax := hlower.cap
    obtain ⟨hfirst, hspent⟩ := hdeliver (part.take (part.length / 2)) st₁
      (List.length_pos_iff.mp (by omega)) (by omega) (by omega)
    have hspentCalls := hspent.calls
    have hspentCap := hspent.cap
    obtain ⟨hsecond, hspent'⟩ := hdeliver (part.drop (part.length / 2))
      (deliverUncapped env (part.take (part.length / 2)) st₁)
      (List.length_pos_iff.mp (by omega)) (by omega) (by omega)
    rw [hfirst, hsecond]
    exact ⟨rfl, ((hlower.trans hspent).trans hspent').mono (by omega)⟩

/-- With the calls its part needs, `deliver` never meets the cap, and a part of `k` records
is sent at most `2 * k - 1` times, its halves included. Induction on the calls left; both
halves find theirs, as each spends no more than its own. -/
theorem deliver_uncapped :
    ∀ (left : Nat) (part : List Record) (st : SplitState), part ≠ [] →
      2 * part.length ≤ left + 1 → st.run.calls + 2 * part.length ≤ st.run.maxCalls + 1 →
      deliver env left part st = deliverUncapped env part st ∧
        Spends (2 * part.length - 1) st (deliverUncapped env part st) := by
  intro left
  induction left with
  | zero =>
    intro part st hne hleft _
    have hpos : 0 < part.length := List.length_pos_iff.mpr hne
    omega
  | succ left ih =>
    intro part st hne hleft hcap
    have hpos : 0 < part.length := List.length_pos_iff.mpr hne
    have hcall : 1 ≤ 2 * part.length - 1 := by omega
    unfold deliver deliverUncapped
    simp only
    cases env.ctxErr st.checks with
    | some err => exact ⟨rfl, Nat.le_add_right _ _, Nat.le_add_right _ _, rfl⟩
    | none =>
      rw [if_neg (by omega)]
      cases env.downstream st.log part with
      | none => exact ⟨rfl, (spends_answered st part none).mono hcall⟩
      | some err =>
        simp only
        have herr := spends_refused st part err
        generalize (({ st with checks := st.checks + 1 } : SplitState).call part
          (some err)).report (splitPartialSuccess err).1 err = st₁ at herr ⊢
        have hone := herr.mono hcall
        cases (splitPartialSuccess err).2 with
        | none => exact ⟨rfl, hone⟩
        | some rest =>
          simp only
          split
          next =>
            have hcalls := herr.calls
            have hmax := herr.cap
            obtain ⟨heq, hspent⟩ := refusedForSize_uncapped env ih st₁ hne (by omega) (by omega)
            rw [← refusedForSize_eq (deliverUncapped env) hne, heq]
            exact ⟨rfl, (herr.trans hspent).mono (by omega)⟩
          next =>
            refine ⟨rfl, ?_⟩
            split
            next => exact ⟨hone.calls, hone.log, hone.cap⟩
            next => exact ⟨hone.calls, hone.log, hone.cap⟩

/-- The chunks of a batch share the cap: after some of them, the calls the others need
are left. -/
theorem deliverAll_uncapped :
    ∀ (chunks : List (List Record)) (st : SplitState), (∀ chunk ∈ chunks, chunk ≠ []) →
      st.run.calls + 2 * chunks.flatten.length ≤ st.run.maxCalls →
      chunks.foldl (fun st chunk => deliver env st.run.maxCalls chunk st) st
        = chunks.foldl (fun st chunk => deliverUncapped env chunk st) st ∧
      Spends (2 * chunks.flatten.length) st
        (chunks.foldl (fun st chunk => deliverUncapped env chunk st) st) := by
  intro chunks
  induction chunks with
  | nil => intro st _ _; exact ⟨rfl, Nat.le_refl _, Nat.le_refl _, rfl⟩
  | cons chunk chunks ih =>
    intro st hne hcap
    obtain ⟨hchunk, hrest⟩ := List.forall_mem_cons.mp hne
    rw [List.flatten_cons, List.length_append] at hcap
    obtain ⟨hsame, hspent⟩ := deliver_uncapped env st.run.maxCalls chunk st hchunk (by omega)
      (by omega)
    have hspentCalls := hspent.calls
    have hspentCap := hspent.cap
    obtain ⟨heq, hspends⟩ := ih (deliverUncapped env chunk st) hrest (by omega)
    rw [List.foldl_cons, List.foldl_cons, hsame]
    refine ⟨heq, (hspent.trans hspends).mono ?_⟩
    rw [List.flatten_cons, List.length_append]
    omega

/-- **The calls of an export.** For every wrapped exporter, context, batch and working
budget: at most two calls for each record, one for an empty batch, and the outcome is that
of the exporter without a cap, so the cap's error is never recorded. -/
theorem export_calls (budget : Int) (records : List Record) :
    (splitExport env budget records).2.log.length
        ≤ (if records = [] then 1 else 2 * records.length) ∧
      splitExport env budget records = exportUncapped env budget records := by
  unfold splitExport exportUncapped
  by_cases hchunks : (splitRecordsByBytes records budget).length ≤ 1
  · rw [if_pos hchunks, if_pos hchunks]
    have hone : ∀ answer, ((SplitState.start records budget).call records answer).log.length
        ≤ if records = [] then 1 else 2 * records.length := by
      intro answer
      show 1 ≤ if records = [] then 1 else 2 * records.length
      split
      next => exact Nat.le_refl _
      next hne =>
        have hpos : 0 < records.length := List.length_pos_iff.mpr hne
        omega
    cases env.downstream (SplitState.start records budget).log records with
    | none => exact ⟨hone none, rfl⟩
    | some err =>
      simp only
      cases (splitPartialSuccess err).2 with
      | none => exact ⟨hone (some err), rfl⟩
      | some rest =>
        simp only
        split
        next => exact ⟨hone (some err), rfl⟩
        next hsize =>
          have hne : records ≠ [] := by
            rintro rfl
            simp at hsize
          obtain ⟨hcalls, hmax⟩ :=
            answered_calls (SplitState.start records budget) records (some err)
          have hlog := (answered_fields (SplitState.start records budget) records (some err)).1
          unfold SplitState.answered at hcalls hmax hlog
          simp only at hcalls hmax hlog
          generalize ((SplitState.start records budget).call records (some err)).report
            (splitPartialSuccess err).1 err = st₁ at hcalls hmax hlog ⊢
          have hstart : (SplitState.start records budget).run.calls = 0 ∧
              (SplitState.start records budget).run.maxCalls = 2 * records.length :=
            ⟨rfl, rfl⟩
          have hcall : ((SplitState.start records budget).call records
              (some err)).run.maxCalls = 2 * records.length := rfl
          have hpos : 0 < records.length := List.length_pos_iff.mpr hne
          obtain ⟨heq, hspent⟩ := refusedForSize_uncapped env (deliver_uncapped env
            ((SplitState.start records budget).call records (some err)).run.maxCalls) st₁ hne
            (by omega) (by omega)
          rw [heq, if_neg hne]
          have hspentLog := hspent.log
          have hlen : st₁.log.length = 1 := by rw [hlog]; rfl
          exact ⟨by simp only; omega, rfl⟩
  · rw [if_neg hchunks, if_neg hchunks]
    have hflatten := splitRecordsByBytes_flatten records budget
    have hgreedy := greedy_splitRecordsByBytes records budget
    have hne : records ≠ [] := by
      rintro rfl
      exact hchunks (by simp [splitRecordsByBytes])
    obtain ⟨heq, hspends⟩ := deliverAll_uncapped env (splitRecordsByBytes records budget)
      (SplitState.start records budget) hgreedy.nonempty (by
        rw [hflatten]
        show 0 + 2 * records.length ≤ 2 * records.length
        omega)
    have hlog := hspends.log
    rw [hflatten] at hlog
    rw [heq, if_neg hne]
    refine ⟨Nat.le_trans hlog ?_, rfl⟩
    show 0 + 2 * records.length ≤ 2 * records.length
    omega

end Uncapped

end SenhubAgent.Otlp

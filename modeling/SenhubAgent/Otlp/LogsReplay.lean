import Mathlib.Algebra.Order.BigOperators.Group.List
import Mathlib.Data.String.Basic
import SenhubAgent.Otlp.LiveExport

/-!
# The replay: what one drain does to the queued records

`logsReplayer.replay` drains the queue through `exportDirect`, one file at a time
and oldest first. This file models `sendBatch` and the sequential `drainAcked` over
the splitting exporter and follows every record of every readable file:

> `replay_accounts_iff`: one uncontended replay leaves each record acknowledged,
> counted as rejected or too large, or still on disk, and exactly one of them, if
> and only if no export of it is misreported.

The ledger of a replay is kept for every answer (`Replayed`): a batch whose export is
misreported is in it twice (`dealt`), once as the split dealt it out and once as the
whole batch it is then taken for. The counters and the disk add up to the ledger, so
no other ledger without the second copy can agree with them.

Mirroring notes:
- A send may meet any receiver, any context and any working budget, which live
  exports lower in the meantime: they are given for each send in turn.
- `drainAcked` rereads nothing it has listed, and no other drain runs.
-/

namespace SenhubAgent.Otlp

open SenhubAgent.Lib

/-- What a replay depends on: the pipeline, the gRPC status reader, and for each send
in turn the receiver, the context and the working budget of the splitting exporter,
whether the replayer was stopped before the send and after it, whether the context of
the export was cancelled, and the clock. -/
structure ReplayEnv where
  pipeline : LogsPipeline
  fromError : GoErr → Option GrpcStatus
  downstream : Nat → List Call → List Record → Option GoErr
  ctxErr : Nat → Nat → Option CtxErr
  budget : Nat → Int
  stopped : Nat → Bool
  stoppedAfter : Nat → Bool
  canceled : Nat → Bool
  clock : Nat → Int

/-- What the splitting exporter meets at a send. -/
def ReplayEnv.exporter (env : ReplayEnv) (send : Nat) : ExportEnv where
  downstream := env.downstream send
  ctxErr := env.ctxErr send
  fromError := env.fromError

/-- One call of the splitting exporter, with the answer and the state it left. -/
structure WrappedCall where
  send : Nat
  records : List Record
  answer : Option ExportErr
  split : SplitState

/-- The call of a send for a queued batch. -/
def ReplayEnv.call (env : ReplayEnv) (send : Nat) (prs : List PersistedLogRecord) : WrappedCall :=
  let records := rebuildEventLogs env.pipeline prs
  let (answer, split) := splitExport (env.exporter send) (env.budget send) records
  ⟨send, records, answer, split⟩

/-- What became of the records of the call. -/
def WrappedCall.bin (env : ReplayEnv) (c : WrappedCall) : Outcome → List Record :=
  c.split.bin (env.exporter c.send)

def WrappedCall.Misreported (env : ReplayEnv) (c : WrappedCall) : Prop :=
  Otlp.Misreported (env.exporter c.send) (env.budget c.send) c.records

/-! ## The drain -/

/-- The errors `sendBatch` returns. -/
inductive SendErr where
  | stopped
  | discarded
  | remainder (err : ExportErr) (remaining : List PersistedLogRecord)
  | failed (err : ExportErr)

/-- The exporter with its queue, the files sent so far with their calls, the
sends made and the `record_too_large` counter. -/
structure ReplayState where
  e : LogExporter
  sent : List (String × WrappedCall) := []
  sends : Nat := 0
  tooLarge : Nat := 0

def ReplayState.disk (st : ReplayState) : Disk := st.e.queue.disk

def ReplayState.onQueue (st : ReplayState) (f : LogsQueue → LogsQueue) : ReplayState :=
  { st with e := { st.e with queue := f st.e.queue } }

section Drain

variable (encodedLen : LogBatch → Nat) (env : ReplayEnv)

/-- `exportDirect` on the batch of the file `name`, with the call logged. -/
def ReplayState.direct (st : ReplayState) (name : String) (prs : List PersistedLogRecord) (i : Nat) :
    Option ExportErr × ReplayState :=
  let c := env.call i prs
  let (err, e) := st.e.exportDirect env.fromError c.answer (env.canceled i) (env.clock i)
  (err, { st with
    e := e
    sent := st.sent ++ [(name, c)]
    tooLarge := st.tooLarge + c.split.recordTooLarge })

/-- The tail of `sendBatch`, on the error of `exportDirect`. -/
def afterDirect (st : ReplayState) (prs : List PersistedLogRecord) (stoppedAfter : Bool) :
    Option ExportErr → Option SendErr × ReplayState
  | none => (none, st)
  | some (.split se) =>
    let st := { st with e := st.e.countRejected se.rejected }
    if se.undelivered.isEmpty then (some .discarded, st)
    else (some (.remainder (.split se) (se.undelivered.filterMap serializeEventLog)), st)
  | some (.plain err) =>
    if !stoppedAfter && !(classifyExportError env.fromError err).isRetryable then
      (some .discarded, { st with e := st.e.countRejected prs.length })
    else (some (.failed (.plain err)), st)

/-- `sendBatch`; `name` is the file the batch was read from. -/
def sendBatch (st : ReplayState) (name : String) (prs : List PersistedLogRecord) :
    Option SendErr × ReplayState :=
  let i := st.sends
  let st := { st with sends := i + 1 }
  if env.stopped i then (some .stopped, st)
  else
    if (rebuildEventLogs env.pipeline prs).isEmpty then (none, st)
    else
      let (err, st) := st.direct env name prs i
      afterDirect env st prs (env.stoppedAfter i) err

/-- How `drainAcked` settles the file once `send` returned. -/
def settleFile (name : String) (b : LogBatch) (st : ReplayState) : Option SendErr → ReplayState
  | none => st.onQueue fun q => (q.countReplayed b .acked).removeFile name
  | some .discarded => st.onQueue fun q => q.removeFile name
  | some (.remainder _ remaining) =>
    if remaining.isEmpty then st.onQueue fun q => q.removeFile name
    else st.onQueue fun q => q.rewriteFile encodedLen name b remaining
  | some _ => st

/-- The errors that end the drain. -/
def SendErr.stops : Option SendErr → Option SendErr
  | some .discarded => none
  | err => err

/-- One file of the loop of `drainAcked`, and the error that ends it. -/
def drainFile (st : ReplayState) (name : String) : Option SendErr × ReplayState :=
  match readBatchFile st.disk name with
  | (b, none) =>
    let (err, st) := sendBatch env st name b.records
    (SendErr.stops err, settleFile encodedLen name b st err)
  | (_, some .notExist) => (none, st)
  | (_, some _) => (none, st.onQueue fun q => q.removeFile name)

def drainLoop : List String → ReplayState → Option SendErr × ReplayState
  | [], st => (none, st)
  | name :: rest, st =>
    match drainFile encodedLen env st name with
    | (none, st) => drainLoop rest st
    | (some err, st) => (some err, st)

def drainAcked (e : LogExporter) : Option SendErr × ReplayState :=
  drainLoop encodedLen env (listLocked e.queue.disk) { e := e }

end Drain

/-! ## One send -/

/-- A failure the batch is kept for. -/
def WrappedCall.retryable (fromError : GoErr → Option GrpcStatus) (c : WrappedCall) : Bool :=
  match failure c.answer with
  | none => false
  | some err =>
    match c.answer with
    | some (.split se) => !se.undelivered.isEmpty
    | _ => (classifyExportError fromError err.cause).isRetryable

/-- What became of a batch of the queue, from the error `sendBatch` returned. -/
def Leaves (prs kept : List PersistedLogRecord) : Option SendErr → Prop
  | none => kept = []
  | some .discarded => kept = []
  | some (.remainder _ remaining) => remaining = kept.map PersistedLogRecord.observed ∧ kept ≠ []
  | some _ => kept = prs

open Classical in
/-- The batch as the code accounts for it: twice when a call for it was misreported. -/
noncomputable def dealt (env : ReplayEnv) (calls : List WrappedCall)
    (prs : List PersistedLogRecord) : List PersistedLogRecord :=
  prs ++ if ∃ c ∈ calls, c.Misreported env then prs else []

section Send

variable (env : ReplayEnv)

/-- The account of one batch of the file `name`: dealt out as `d` over the calls made for it, with the
counters to match. A failure it is kept for stops the drain. -/
structure Batched (st : ReplayState) (name : String) (prs : List PersistedLogRecord)
    (stop : Option SendErr) (st' : ReplayState) (d : Outcome → List PersistedLogRecord)
    (calls : List WrappedCall) : Prop where
  deals : Distributes (dealt env calls prs) d
  logged : st'.sent = st.sent ++ calls.map fun c => (name, c)
  once : calls.length ≤ 1
  acked : ∀ c ∈ calls, c.records = rebuildEventLogs env.pipeline prs ∧
    c.bin env .accepted = rebuildEventLogs env.pipeline (d .accepted)
  unsent : calls = [] → d .accepted = []
  rejected : st'.e.receiverRejected = st.e.receiverRejected + (d .rejected).length
  tooLarge : st'.tooLarge = st.tooLarge + (d .dropped).length
  retry : ∀ c ∈ calls, c.retryable env.fromError = true → stop.isSome = true

/-- The account of one send: the queue is as it was, and the error says what is left of the batch. -/
structure Sent (st : ReplayState) (name : String) (prs : List PersistedLogRecord)
    (err : Option SendErr) (st' : ReplayState) (d : Outcome → List PersistedLogRecord)
    (calls : List WrappedCall) : Prop extends
    Batched env st name prs (SendErr.stops err) st' d calls where
  kept : (d .undelivered).Sublist prs
  queue : st'.e.queue = st.e.queue
  leaves : Leaves prs (d .undelivered) err

/-- A batch that was not sent. -/
theorem batched_unsent {st st' : ReplayState} (name : String) {prs : List PersistedLogRecord}
    (stop : Option SendErr) {d : Outcome → List PersistedLogRecord} (hd : Distributes prs d)
    (hnone : ∀ o, o ≠ .undelivered → d o = []) (hsent : st'.sent = st.sent)
    (hrejected : st'.e.receiverRejected = st.e.receiverRejected) (htooLarge : st'.tooLarge = st.tooLarge) :
    Batched env st name prs stop st' d [] where
  deals := by simpa [dealt] using hd
  logged := hsent.trans (List.append_nil _).symm
  once := Nat.zero_le _
  acked := by simp
  unsent := fun _ => hnone .accepted (by simp)
  rejected := by rw [hrejected, hnone .rejected (by simp), List.length_nil, Nat.add_zero]
  tooLarge := by rw [htooLarge, hnone .dropped (by simp), List.length_nil, Nat.add_zero]
  retry := by simp

theorem filterMap_serialize (p : LogsPipeline) (prs : List PersistedLogRecord) :
    (rebuildEventLogs p prs).filterMap serializeEventLog
      = prs.map PersistedLogRecord.observed := by
  unfold rebuildEventLogs
  rw [List.filterMap_map]
  have hfun : serializeEventLog ∘ rebuildEventLog p = some ∘ PersistedLogRecord.observed :=
    funext fun pr => serializeEventLog_rebuild p pr
  rw [hfun, List.filterMap_eq_map]

/-- `exportDirect` hands on the failure, names what a split error names, and
touches neither the queue nor the count of refused records. -/
theorem exportDirect_spec (e : LogExporter) (fromError : GoErr → Option GrpcStatus)
    (raw : Option ExportErr) (canceled : Bool) (mark : Int) :
    (e.exportDirect fromError raw canceled mark).2.queue = e.queue ∧
    (e.exportDirect fromError raw canceled mark).2.receiverRejected = e.receiverRejected ∧
    (e.exportDirect fromError raw canceled mark).1 = (failure raw).map fun err =>
      match raw with
      | some (.split se) => .split { se with err := some err.cause }
      | _ => err := by
  unfold LogExporter.exportDirect failure
  cases raw with
  | none => exact ⟨rfl, rfl, rfl⟩
  | some raw =>
    simp only [Option.bind_some]
    cases (splitRejections raw).2 with
    | none => exact ⟨rfl, rfl, rfl⟩
    | some err =>
      cases raw with
      | plain err' | split se =>
        simp only
        refine ⟨?_, ?_, rfl⟩
        · split <;> [rfl; (split <;> rfl)]
        · split <;> [rfl; (split <;> rfl)]

/-- A state right after the splitting exporter answered the batch of a file. -/
structure CallMade (st st₁ : ReplayState) (name : String) (prs : List PersistedLogRecord)
    (c : WrappedCall) : Prop where
  records : c.records = rebuildEventLogs env.pipeline prs
  queue : st₁.e.queue = st.e.queue
  rejected : st₁.e.receiverRejected = st.e.receiverRejected
  sent : st₁.sent = st.sent ++ [(name, c)]
  tooLarge : st₁.tooLarge = st.tooLarge + c.split.recordTooLarge

variable {env} {prs : List PersistedLogRecord} {st st₁ : ReplayState} {name : String}
    {c : WrappedCall}

theorem dealt_of_not (h : ¬ c.Misreported env) : dealt env [c] prs = prs := by
  rw [dealt, if_neg (by simpa using h), List.append_nil]

theorem dealt_of_misreported (h : c.Misreported env) : dealt env [c] prs = prs ++ prs := by
  rw [dealt, if_pos ⟨c, List.mem_singleton_self c, h⟩]

/-- What is left to show once the bins of the queued batch are chosen. -/
theorem CallMade.account (h : CallMade env st st₁ name prs c)
    {d : Outcome → List PersistedLogRecord} {err : Option SendErr} {n : Nat}
    (hd : Distributes (dealt env [c] prs) d) (hkept : (d .undelivered).Sublist prs)
    (haccepted : c.bin env .accepted = rebuildEventLogs env.pipeline (d .accepted))
    (hdropped : c.split.recordTooLarge = (d .dropped).length)
    (hrejected : (d .rejected).length = n) (hleaves : Leaves prs (d .undelivered) err)
    (hretry : c.retryable env.fromError = true → (SendErr.stops err).isSome = true) :
    Sent env st name prs err { st₁ with e := st₁.e.countRejected n } d [c] where
  deals := hd
  kept := hkept
  queue := h.queue
  logged := h.sent
  once := Nat.le_refl _
  acked := fun c' hc' => by
    rw [List.mem_singleton.mp hc']
    exact ⟨h.records, haccepted⟩
  unsent := fun hnil => (List.cons_ne_nil _ _ hnil).elim
  rejected := by
    show st₁.e.receiverRejected + n = _
    rw [h.rejected, hrejected]
  tooLarge := by
    show st₁.tooLarge = _
    rw [h.tooLarge, hdropped]
  leaves := hleaves
  retry := fun c' hc' hret => hretry (by rwa [List.mem_singleton.mp hc'] at hret)

/-- Acknowledged: nothing is undelivered and nothing was refused. -/
theorem CallMade.delivered (h : CallMade env st st₁ name prs c)
    (hok : ¬ c.Misreported env) (hfail : failure c.answer = none)
    (hdist : Distributes c.records (c.bin env)) (hund : c.bin env .undelivered = [])
    (hrej : c.bin env .rejected = []) (htoo : c.split.recordTooLarge = (c.bin env .dropped).length) :
    ∃ d, Sent env st name prs none st₁ d [c] := by
  rw [h.records] at hdist
  obtain ⟨d, hd, hbins⟩ := hdist.of_map
  rw [hbins, List.map_eq_nil_iff] at hund hrej
  refine ⟨d, h.account (n := 0) (dealt_of_not hok ▸ hd) (hd.sublist _) (hbins .accepted) ?_
    (by rw [hrej]; rfl) hund fun hret => ?_⟩
  · rw [htoo, hbins, List.length_map]
  · simp [WrappedCall.retryable, hfail] at hret

/-- A split error: only what it names as undelivered stays. -/
theorem CallMade.split (h : CallMade env st st₁ name prs c) {se : SplitExportError}
    (hok : ¬ c.Misreported env) (hans : c.answer = some (.split se))
    (hdist : Distributes c.records (c.bin env)) (hund : se.undelivered = c.bin env .undelivered)
    (hrej : se.rejected = (c.bin env .rejected).length)
    (htoo : c.split.recordTooLarge = (c.bin env .dropped).length)
    (err : Option GoErr) (stoppedAfter : Bool) :
    ∃ d, Sent env st name prs
      (afterDirect env st₁ prs stoppedAfter (some (.split { se with err := err }))).1
      (afterDirect env st₁ prs stoppedAfter (some (.split { se with err := err }))).2 d [c] := by
  rw [h.records] at hdist
  obtain ⟨d, hd, hbins⟩ := hdist.of_map
  have hdropped : c.split.recordTooLarge = (d .dropped).length := by
    rw [htoo, hbins, List.length_map]
  have hrejected : (d .rejected).length = se.rejected := by
    rw [hrej, hbins, List.length_map]
  have hretry : c.retryable env.fromError = true → se.undelivered.isEmpty = false := by
    intro hret
    unfold WrappedCall.retryable at hret
    split at hret
    next => cases hret
    next => simpa [hans] using hret
  have hdealt : Distributes (dealt env [c] prs) d := by rw [dealt_of_not hok]; exact hd
  refine ⟨d, ?_⟩
  simp only [afterDirect]
  split
  next hempty =>
    -- nothing is left to send: the file goes, whatever was refused in it
    have hnone : d .undelivered = [] := by
      rw [hund, hbins, List.isEmpty_iff, List.map_eq_nil_iff] at hempty
      exact hempty
    refine h.account hdealt (hd.sublist _) (hbins .accepted) hdropped hrejected hnone fun hret => ?_
    rw [hretry hret] at hempty
    cases hempty
  next hkept =>
    -- the remainder is written back as the records it was read from
    refine h.account hdealt (hd.sublist _) (hbins .accepted) hdropped hrejected
      ⟨?_, fun hnone => hkept ?_⟩ fun _ => rfl
    · rw [hund, hbins]
      exact filterMap_serialize env.pipeline _
    · rw [hund, hbins, hnone]
      rfl

/-- Any other failure stands for the whole batch, refused or kept as such, besides
what `d` says of it. -/
theorem CallMade.whole (h : CallMade env st st₁ name prs c) {raw err : GoErr}
    (hans : c.answer = some (.plain raw)) (hfail : failure c.answer = some (.plain err))
    {xs : List PersistedLogRecord} {d : Outcome → List PersistedLogRecord}
    (hdealt : dealt env [c] prs = xs ++ prs) (hd : Distributes xs d)
    (hacc : c.bin env .accepted = rebuildEventLogs env.pipeline (d .accepted))
    (hund : d .undelivered = []) (hrej : d .rejected = [])
    (htoo : c.split.recordTooLarge = (d .dropped).length) (stoppedAfter : Bool) :
    ∃ d, Sent env st name prs (afterDirect env st₁ prs stoppedAfter (some (.plain err))).1
      (afterDirect env st₁ prs stoppedAfter (some (.plain err))).2 d [c] := by
  have hretry : c.retryable env.fromError = (classifyExportError env.fromError err).isRetryable := by
    unfold WrappedCall.retryable
    rw [hfail, hans]
    rfl
  have hdeals : ∀ o, Distributes (dealt env [c] prs) fun o' => d o' ++ if o = o' then prs else [] :=
    fun o => hdealt ▸ hd.append (Distributes.single o prs)
  simp only [afterDirect]
  split
  next hrefused =>
    refine ⟨_, h.account (hdeals .rejected) ?_ ?_ ?_ ?_ ?_ fun hret => ?_⟩
    · simp [hund]
    · simpa using hacc
    · simpa using htoo
    · simp [hrej]
    · simp [Leaves, hund]
    · rw [hretry] at hret
      simp [hret] at hrefused
  next =>
    refine ⟨_, h.account (n := 0) (hdeals .undelivered) ?_ ?_ ?_ ?_ ?_ fun _ => rfl⟩
    · simp [hund]
    · simpa using hacc
    · simpa using htoo
    · simp [hrej]
    · simp [Leaves, hund]

variable (env)

theorem failure_of_plain (raw : GoErr) {err : ExportErr}
    (h : failure (some (.plain raw)) = some err) : ∃ e, err = .plain e := by
  have hmap : ((splitPartialSuccess raw).2).map ExportErr.plain = some err := h
  obtain ⟨e, _, he⟩ := Option.map_eq_some_iff.mp hmap
  exact ⟨e, he.symm⟩

theorem direct_made (st : ReplayState) (name : String) (prs : List PersistedLogRecord) (i : Nat) :
    CallMade env st (st.direct env name prs i).2 name prs (env.call i prs) := by
  obtain ⟨hqueue, hrej, _⟩ := exportDirect_spec st.e env.fromError
    (env.call i prs).answer (env.canceled i) (env.clock i)
  exact ⟨rfl, hqueue, hrej, rfl, rfl⟩

/-- What follows `exportDirect` accounts for the batch, whatever the answer. -/
theorem direct_account (st : ReplayState) (name : String) (prs : List PersistedLogRecord) (i : Nat)
    (stoppedAfter : Bool) :
    ∃ d, Sent env st name prs
      (afterDirect env (st.direct env name prs i).2 prs stoppedAfter (st.direct env name prs i).1).1
      (afterDirect env (st.direct env name prs i).2 prs stoppedAfter (st.direct env name prs i).1).2
      d [env.call i prs] := by
  have hmade := direct_made env st name prs i
  have herr : (st.direct env name prs i).1 = _ := (exportDirect_spec st.e env.fromError
    (env.call i prs).answer (env.canceled i) (env.clock i)).2.2
  rw [herr]
  have hends : Ends (env.exporter i) (env.budget i) (env.call i prs).records
    ((env.call i prs).answer, (env.call i prs).split) := splitExport_ends _ _ _
  generalize hc : env.call i prs = c at hmade hends
  have hsend : c.send = i := hc ▸ rfl
  obtain ⟨send, records, answer, split⟩ := c
  subst hsend
  have hplain : ∀ {raw : GoErr}, failure (some (.plain raw)) ≠ none →
      ∃ err, failure (some (.plain raw)) = some (.plain err) := by
    intro raw hfail
    obtain ⟨err, herr⟩ := Option.ne_none_iff_exists'.mp hfail
    obtain ⟨e, rfl⟩ := failure_of_plain raw herr
    exact ⟨e, herr⟩
  cases hends with
  | done hok hfail hdist hund hrej htoo =>
    simp only [hfail]
    exact hmade.delivered hok hfail hdist hund hrej htoo
  | whole hok hfail hacc htoo =>
    obtain ⟨err, herr⟩ := hplain hfail
    simp only [herr]
    have hdealt : dealt env [_] prs = [] ++ prs := dealt_of_not hok
    exact hmade.whole rfl herr hdealt Distributes.nil hacc rfl rfl htoo stoppedAfter
  | split hok hfail hdist hund hrej htoo =>
    obtain ⟨err, herr⟩ := Option.ne_none_iff_exists'.mp hfail
    simp only [herr]
    exact hmade.split hok rfl hdist hund hrej htoo (some err.cause) stoppedAfter
  | twice hmis hfail hdist hund hrej htoo =>
    obtain ⟨err, herr⟩ := hplain hfail
    simp only [herr]
    -- dealt out by the split, and then taken for a batch that failed
    have hrecords := hmade.records
    simp only at hrecords
    rw [hrecords] at hdist
    obtain ⟨d, hd, hbins⟩ := hdist.of_map
    rw [hbins, List.map_eq_nil_iff] at hund hrej
    rw [hbins, List.length_map] at htoo
    exact hmade.whole rfl herr (dealt_of_misreported hmis) hd (hbins .accepted) hund hrej htoo
      stoppedAfter

/-- **Every send accounts for its batch.** -/
theorem sendBatch_spec (st : ReplayState) (name : String) (prs : List PersistedLogRecord) :
    ∃ d calls, Sent env st name prs (sendBatch env st name prs).1 (sendBatch env st name prs).2
      d calls := by
  unfold sendBatch
  simp only
  split
  next =>
    -- stopped before the send: the file stays as it is
    exact ⟨_, [], batched_unsent env name _ (Distributes.single Outcome.undelivered prs)
      (fun o ho => if_neg ho.symm) rfl rfl rfl, .refl _, rfl, rfl⟩
  next =>
    split
    next hempty =>
      have hnil : prs = [] := by
        rw [rebuildEventLogs, List.isEmpty_iff, List.map_eq_nil_iff] at hempty
        exact hempty
      subst hnil
      exact ⟨_, [], batched_unsent env name _ Distributes.nil (fun _ _ => rfl) rfl rfl rfl, .refl _,
        rfl, rfl⟩
    next =>
      obtain ⟨d, hd⟩ := direct_account env { st with sends := st.sends + 1 } name prs st.sends
        (env.stoppedAfter st.sends)
      exact ⟨d, _, { hd.toBatched with }, hd.kept, hd.queue, hd.leaves⟩

/-! ## One batch over many replays -/

/-- What `drainAcked` leaves of a batch in its file. -/
def keptBatch (prs : List PersistedLogRecord) : Option SendErr → List PersistedLogRecord
  | none | some .discarded => []
  | some (.remainder _ remaining) => remaining
  | some _ => prs

/-- A batch after sends of it and of what was left, from any states. -/
def resent (prs : List PersistedLogRecord) (sends : List (ReplayState × String)) :
    List PersistedLogRecord :=
  sends.foldl (fun prs s => keptBatch prs (sendBatch env s.1 s.2 prs).1) prs

theorem Leaves.rebuild {kept : List PersistedLogRecord} {err : Option SendErr} (p : LogsPipeline)
    (h : Leaves prs kept err) : rebuildEventLogs p (keptBatch prs err) = rebuildEventLogs p kept := by
  cases err with
  | none => exact congrArg _ (Eq.symm h)
  | some err =>
    cases err with
    | remainder e remaining =>
      rw [keptBatch, h.1, rebuildEventLogs, List.map_map]
      exact List.map_congr_left fun pr _ => rebuildEventLog_observed p pr
    | _ => exact congrArg _ (Eq.symm h)

/-- **Replays do not change a record**: however many sends fail in part or whole, the next one sends
records of the first, in their order and as they were. -/
theorem rebuildEventLogs_resent (prs : List PersistedLogRecord)
    (sends : List (ReplayState × String)) :
    (rebuildEventLogs env.pipeline (resent env prs sends)).Sublist
      (rebuildEventLogs env.pipeline prs) := by
  induction sends generalizing prs with
  | nil => exact .refl _
  | cons s sends ih =>
    obtain ⟨d, calls, hsent⟩ := sendBatch_spec env s.1 s.2 prs
    refine (ih _).trans ?_
    rw [hsent.leaves.rebuild env.pipeline]
    exact hsent.kept.map _

end Send

/-! ## One file -/

section Files

variable (encodedLen : LogBatch → Nat) (env : ReplayEnv)

/-- The records of a file, none where it cannot be read. -/
def queued (d : Disk) (name : String) : List PersistedLogRecord :=
  match readBatchFile d name with
  | (b, none) => b.records
  | _ => []

/-- What is on disk of the records read under `name`: the file as it was and all of
them kept, a rewritten file with the same `SavedAt`, or no file and nothing kept. -/
def OnDisk (before after : Disk) (name : String) (kept : List PersistedLogRecord) : Prop :=
  match after.lookup name with
  | none => kept = []
  | some f =>
    (before.lookup name = some f ∧ kept = queued before name) ∨
    ∃ b, readBatchFile before name = (b, none) ∧
      f.read = (⟨logsQueueFileVersion, b.savedAt, kept.map PersistedLogRecord.observed⟩, none)

/-- The account of one file's turn: its batch, and what the turn does to the disk. -/
structure Turn (st : ReplayState) (name : String) (stop : Option SendErr) (st' : ReplayState)
    (d : Outcome → List PersistedLogRecord) (calls : List WrappedCall) : Prop extends
    Batched env st name (queued st.disk name) stop st' d calls where
  onDisk : OnDisk st.disk st'.disk name (d .undelivered)
  frame : ∀ other, other ≠ name → st'.disk.lookup other = st.disk.lookup other
  keeps : name ∈ st'.disk → name ∈ st.disk
  settled : stop = none → st'.disk.lookup name = none

theorem removeFile_disk (q : LogsQueue) (name : String) :
    (q.removeFile name).disk = q.disk.erase name := by
  unfold LogsQueue.removeFile
  split
  next hnone => exact (erase_of_absent (AList.lookup_eq_none.mp hnone)).symm
  next => rfl

variable {kept : List PersistedLogRecord} {err : Option SendErr} {b : LogBatch}
    {st st₁ st' : ReplayState} {name : String} {calls : List WrappedCall}
    {d : Outcome → List PersistedLogRecord} {rest : List String}

/-- The three things settling a file can do to the disk. -/
theorem settleFile_disk (name : String) (b : LogBatch) (st : ReplayState)
    (h : Leaves b.records kept err) :
    ((settleFile encodedLen name b st err).disk = st.disk.erase name ∧ kept = []) ∨
    ((SendErr.stops err).isSome = true ∧ kept ≠ [] ∧
      (settleFile encodedLen name b st err).disk = st.disk.insert name
        (encode encodedLen ⟨logsQueueFileVersion, b.savedAt,
          kept.map PersistedLogRecord.observed⟩)) ∨
    ((SendErr.stops err).isSome = true ∧
      (settleFile encodedLen name b st err).disk = st.disk ∧ kept = b.records) := by
  cases err with
  | none => exact Or.inl ⟨removeFile_disk _ _, h⟩
  | some e =>
    cases e with
    | discarded => exact Or.inl ⟨removeFile_disk _ _, h⟩
    | stopped | failed err => exact Or.inr (Or.inr ⟨rfl, rfl, h⟩)
    | remainder err remaining =>
      obtain ⟨rfl, hkept⟩ := h
      refine Or.inr (Or.inl ⟨rfl, hkept, ?_⟩)
      simp only [settleFile]
      rw [if_neg (by simpa using hkept)]
      rfl

theorem settleFile_counters (name : String) (b : LogBatch) (st : ReplayState)
    (err : Option SendErr) :
    (settleFile encodedLen name b st err).sent = st.sent ∧
    (settleFile encodedLen name b st err).tooLarge = st.tooLarge ∧
    (settleFile encodedLen name b st err).e.receiverRejected = st.e.receiverRejected := by
  cases err with
  | none => exact ⟨rfl, rfl, rfl⟩
  | some e =>
    cases e with
    | discarded | stopped | failed err => exact ⟨rfl, rfl, rfl⟩
    | remainder err remaining =>
      simp only [settleFile]
      split
      next => exact ⟨rfl, rfl, rfl⟩
      next => exact ⟨rfl, rfl, rfl⟩

/-- A file that is not sent: gone already, or unreadable and dropped. -/
theorem turn_unread {e : ReadErr} (hread : readBatchFile st.disk name = (b, some e)) {q : LogsQueue}
    (hq : q.disk = st.disk.erase name) :
    Turn env st name none (st.onQueue fun _ => q) (fun _ => []) [] := by
  have hempty : queued st.disk name = [] := by simp [queued, hread]
  have hgone : (st.onQueue fun _ => q).disk.lookup name = none := by
    show q.disk.lookup name = _
    rw [hq, AList.lookup_erase]
  refine ⟨batched_unsent env name none (hempty ▸ Distributes.nil) (fun _ _ => rfl) rfl rfl rfl, ?_,
    fun other hne => ?_, fun h => ?_, fun _ => hgone⟩
  · simp [OnDisk, hgone]
  · show q.disk.lookup other = _
    rw [hq, AList.lookup_erase_ne hne]
  · have hmem : name ∈ st.disk.erase name := hq ▸ h
    exact (AList.mem_erase.mp hmem).2

/-- A file that is sent. -/
theorem turn_sent (hread : readBatchFile st.disk name = (b, none))
    (h : Sent env st name b.records err st₁ d calls) :
    Turn env st name (SendErr.stops err) (settleFile encodedLen name b st₁ err) d calls := by
  have hdisk₁ : st₁.disk = st.disk := congrArg LogsQueue.disk h.queue
  obtain ⟨hsent, htoo, hrej⟩ := settleFile_counters encodedLen name b st₁ err
  have hqueued : queued st.disk name = b.records := by simp [queued, hread]
  have hthere : name ∈ st.disk := by
    rw [← AList.lookup_isSome]
    unfold readBatchFile at hread
    cases hf : st.disk.lookup name with
    | none => rw [hf] at hread; cases hread
    | some f => rfl
  have hcases := settleFile_disk encodedLen name b st₁ h.leaves
  rw [hdisk₁] at hcases
  refine ⟨hqueued ▸ { h.toBatched with
      logged := hsent.trans h.logged
      rejected := hrej.trans h.rejected
      tooLarge := htoo.trans h.tooLarge }, ?_, fun other hne => ?_, fun _ => hthere, fun hstop => ?_⟩
  · unfold OnDisk
    rcases hcases with ⟨hd, hkept⟩ | ⟨_, _, hd⟩ | ⟨_, hd, hkept⟩
    · rw [hd, AList.lookup_erase]
      exact hkept
    · rw [hd, AList.lookup_insert]
      exact Or.inr ⟨b, hread, rfl⟩
    · rw [hd]
      obtain ⟨f, hf⟩ := exists_lookup hthere
      rw [hf]
      exact Or.inl ⟨rfl, hkept.trans hqueued.symm⟩
  · rcases hcases with ⟨hd, _⟩ | ⟨_, _, hd⟩ | ⟨_, hd, _⟩
    · rw [hd, AList.lookup_erase_ne hne]
    · rw [hd, AList.lookup_insert_ne hne]
    · rw [hd]
  · rcases hcases with ⟨hd, _⟩ | ⟨hsome, _⟩ | ⟨hsome, _⟩
    · rw [hd, AList.lookup_erase]
    · rw [hstop] at hsome; cases hsome
    · rw [hstop] at hsome; cases hsome

theorem drainFile_spec (st : ReplayState) (name : String) :
    ∃ d calls, Turn env st name (drainFile encodedLen env st name).1
      (drainFile encodedLen env st name).2 d calls := by
  unfold drainFile
  split
  next b hread =>
    obtain ⟨d, calls, h⟩ := sendBatch_spec env st name b.records
    exact ⟨d, calls, turn_sent encodedLen env hread h⟩
  next b hread =>
    -- gone since it was listed
    refine ⟨_, [], turn_unread env hread (q := st.e.queue) ?_⟩
    have hnone : st.disk.lookup name = none := by
      cases hf : st.disk.lookup name with
      | none => rfl
      | some f =>
        unfold readBatchFile at hread
        rw [hf] at hread
        unfold BatchFile.read at hread
        simp only at hread
        split at hread
        next => cases hread
        next => split at hread <;> cases hread
    exact (erase_of_absent (AList.lookup_eq_none.mp hnone)).symm
  next b e _ hread =>
    exact ⟨_, [], turn_unread env hread (removeFile_disk st.e.queue name)⟩

/-! ## The whole replay -/

/-- The account of a drain of `files`: the fate of every record `due`, and the calls
made for them. -/
structure Replayed (files : List String) (st : ReplayState) (stop : Option SendErr)
    (st' : ReplayState) (due : String → List PersistedLogRecord)
    (fate : String → Outcome → List PersistedLogRecord) (calls : List (String × WrappedCall)) :
    Prop where
  /-- Every record due has exactly one fate. -/
  deals : ∀ name ∈ files, Distributes (due name) (fate name)
  /-- What is on disk of a file is its undelivered records, under the same name and
  the same `SavedAt`. -/
  onDisk : ∀ name ∈ files, OnDisk st.disk st'.disk name (fate name .undelivered)
  /-- No other file is touched, and no file is new. -/
  frame : ∀ name, name ∉ files → st'.disk.lookup name = st.disk.lookup name
  keeps : ∀ name, name ∈ st'.disk → name ∈ st.disk
  /-- A drain that was not stopped leaves none of the files. -/
  finished : stop = none → ∀ name ∈ files, st'.disk.lookup name = none
  logged : st'.sent = st.sent ++ calls
  /-- Files are sent in order, each at most once, -/
  order : (calls.map Prod.fst).Sublist files
  /-- as a whole, and its acknowledged records are those the call accepted. -/
  acked : ∀ p ∈ calls, p.2.records = rebuildEventLogs env.pipeline (queued st.disk p.1) ∧
    p.2.bin env .accepted = rebuildEventLogs env.pipeline (fate p.1 .accepted)
  unsent : ∀ name, name ∉ calls.map Prod.fst → fate name .accepted = []
  /-- The counters moved by the records refused and too large. -/
  rejected : st'.e.receiverRejected
    = st.e.receiverRejected + (files.map fun name => (fate name .rejected).length).sum
  tooLarge : st'.tooLarge
    = st.tooLarge + (files.map fun name => (fate name .dropped).length).sum
  /-- A drain that stops leaves every later file unsent and untouched. -/
  stops : stop.isSome = true → ∃ before name after, files = before ++ name :: after ∧
    ∀ later ∈ after, st'.disk.lookup later = st.disk.lookup later ∧ later ∉ calls.map Prod.fst
  /-- It stops at the first retryable failure. -/
  retry : ∀ front p back, calls = front ++ p :: back → p.2.retryable env.fromError = true →
    back = [] ∧ stop.isSome = true ∧ ∃ before after, files = before ++ p.1 :: after ∧
      ∀ later ∈ after, st'.disk.lookup later = st.disk.lookup later

theorem readBatchFile_frame {d d' : Disk} (h : d'.lookup name = d.lookup name) :
    readBatchFile d' name = readBatchFile d name := by
  unfold readBatchFile
  rw [h]

theorem queued_frame {d d' : Disk} (h : d'.lookup name = d.lookup name) :
    queued d' name = queued d name := by
  unfold queued
  rw [readBatchFile_frame h]

theorem OnDisk.frame {d₀ d₁ d₂ d₃ : Disk} (h : OnDisk d₁ d₂ name kept)
    (hbefore : d₀.lookup name = d₁.lookup name) (hafter : d₃.lookup name = d₂.lookup name) :
    OnDisk d₀ d₃ name kept := by
  unfold OnDisk at h ⊢
  rw [hafter, hbefore, queued_frame hbefore, readBatchFile_frame hbefore]
  exact h

/-- The calls made for the batch of a file. -/
def callsOf (calls : List (String × WrappedCall)) (name : String) : List WrappedCall :=
  calls.filterMap fun p => if p.1 = name then some p.2 else none

theorem callsOf_append (xs ys : List (String × WrappedCall)) (n : String) :
    callsOf (xs ++ ys) n = callsOf xs n ++ callsOf ys n := List.filterMap_append

theorem callsOf_self (calls : List WrappedCall) (n : String) :
    callsOf (calls.map fun c => (n, c)) n = calls := by
  simp [callsOf, List.filterMap_map]

theorem callsOf_other {xs : List (String × WrappedCall)} {n : String} (h : ∀ p ∈ xs, p.1 ≠ n) :
    callsOf xs n = [] :=
  List.filterMap_eq_nil_iff.mpr fun p hp => if_neg (h p hp)

/-- The records of a file as the code accounts for them. -/
noncomputable def ledger (d : Disk) (calls : List (String × WrappedCall)) (name : String) :
    List PersistedLogRecord :=
  dealt env (callsOf calls name) (queued d name)

/-- A file never reached keeps all its records. -/
def untouched (d : Disk) (name : String) (o : Outcome) : List PersistedLogRecord :=
  if Outcome.undelivered = o then queued d name else []

/-- Files no turn has reached; a drain that leaves some of them was stopped. -/
theorem Replayed.unreached (st : ReplayState) {stop : Option SendErr} {files : List String}
    (hstop : stop = none ↔ files = []) :
    Replayed env files st stop st (ledger env st.disk []) (untouched st.disk) [] where
  deals := fun n _ => by
    have hdealt : ledger env st.disk [] n = queued st.disk n := by simp [ledger, callsOf, dealt]
    rw [hdealt]
    exact Distributes.single Outcome.undelivered (queued st.disk n)
  onDisk := fun n _ => by
    unfold OnDisk
    cases hf : st.disk.lookup n with
    | none => simp [untouched, queued, readBatchFile, hf]
    | some f => exact Or.inl ⟨rfl, rfl⟩
  frame := fun _ _ => rfl
  keeps := fun _ h => h
  finished := fun hnone n hn => by
    rw [hstop.mp hnone] at hn
    cases hn
  logged := (List.append_nil _).symm
  order := List.nil_sublist files
  acked := fun _ h => (List.not_mem_nil h).elim
  unsent := fun _ _ => rfl
  rejected := by simp [untouched]
  tooLarge := by simp [untouched]
  stops := fun hsome => by
    cases files with
    | nil =>
      rw [hstop.mpr rfl] at hsome
      cases hsome
    | cons name rest => exact ⟨[], name, rest, rfl, fun _ _ => ⟨rfl, List.not_mem_nil⟩⟩
  retry := fun front p back h => by simp at h

theorem sum_update (h : name ∉ rest) (d : Outcome → List PersistedLogRecord)
    (fate : String → Outcome → List PersistedLogRecord) (o : Outcome) :
    ((name :: rest).map fun n => (Function.update fate name d n o).length).sum
      = (d o).length + (rest.map fun n => (fate n o).length).sum := by
  have hrest : (rest.map fun n => (Function.update fate name d n o).length)
      = rest.map fun n => (fate n o).length :=
    List.map_congr_left fun n hn => by
      have hne : n ≠ name := fun he => h (he ▸ hn)
      rw [Function.update_of_ne hne]
  rw [List.map_cons, List.sum_cons, Function.update_self, hrest]

/-- A turn's calls come before the later ones, and there is at most one. -/
theorem Turn.split_calls {stop : Option SendErr} {p : String × WrappedCall}
    {later front back : List (String × WrappedCall)} (h : Turn env st name stop st₁ d calls)
    (heq : calls.map (fun c => (name, c)) ++ later = front ++ p :: back) :
    (∃ c ∈ calls, p = (name, c) ∧ back = later) ∨ ∃ front', later = front' ++ p :: back := by
  match calls, h.once with
  | [], _ => exact Or.inr ⟨front, heq⟩
  | [c], _ =>
    cases front with
    | nil =>
      obtain ⟨hp, hback⟩ := List.cons.inj heq
      exact Or.inl ⟨c, List.mem_singleton.mpr rfl, hp.symm, hback.symm⟩
    | cons x xs => exact Or.inr ⟨xs, (List.cons.inj heq).2⟩

/-- A file's turn, and the rest drained after it; a turn that stops leaves the rest. -/
theorem Turn.cons {stop₁ stop : Option SendErr}
    {fate : String → Outcome → List PersistedLogRecord} {later : List (String × WrappedCall)}
    (hname : name ∉ rest) (h₁ : Turn env st name stop₁ st₁ d calls)
    (h₂ : Replayed env rest st₁ stop st' (ledger env st₁.disk later) fate later)
    (hstop₁ : stop₁.isSome = true → st' = st₁ ∧ later = []) :
    Replayed env (name :: rest) st (stop₁.or stop) st'
      (ledger env st.disk (calls.map (fun c => (name, c)) ++ later)) (Function.update fate name d)
      (calls.map (fun c => (name, c)) ++ later) := by
  have hne : ∀ {n}, n ∈ rest → n ≠ name := fun hn he => hname (he ▸ hn)
  have hqueued : ∀ {n}, n ∈ rest → queued st₁.disk n = queued st.disk n :=
    fun hn => queued_frame (h₁.frame _ (hne hn))
  have hunsent : ∀ {n}, n ∈ rest → n ∉ (calls.map fun c => (name, c)).map Prod.fst := by
    intro n hn hin
    rw [List.map_map] at hin
    obtain ⟨c, _, hc⟩ := List.mem_map.mp hin
    exact hne hn hc.symm
  have hlater : ∀ p ∈ later, p.1 ∈ rest := fun p hp =>
    h₂.order.subset (List.mem_map_of_mem hp)
  have hbehind : ∀ {before m after}, rest = before ++ m :: after → ∀ {x}, x ∈ after → x ∈ rest :=
    fun hfiles _ hx => hfiles ▸ List.mem_append.mpr (Or.inr (List.mem_cons_of_mem _ hx))
  refine
    { deals := fun n hn => ?_
      onDisk := fun n hn => ?_
      frame := fun n hn => ?_
      keeps := fun n hn => ?_
      finished := fun hstop n hn => ?_
      logged := by rw [h₂.logged, h₁.logged, List.append_assoc]
      order := ?_
      acked := fun p hp => ?_
      unsent := fun n hn => ?_
      rejected := by
        rw [sum_update hname, h₂.rejected, h₁.rejected, Nat.add_assoc]
      tooLarge := by
        rw [sum_update hname, h₂.tooLarge, h₁.tooLarge, Nat.add_assoc]
      stops := fun hstop => ?_
      retry := fun front p back heq hret => ?_ }
  · rcases List.mem_cons.mp hn with rfl | hn
    · have hnone : callsOf later n = [] := callsOf_other fun p hp he => hname (he ▸ hlater p hp)
      rw [Function.update_self, ledger, callsOf_append, callsOf_self, hnone, List.append_nil]
      exact h₁.deals
    · have hdeals := h₂.deals n hn
      rw [ledger, hqueued hn] at hdeals
      rw [Function.update_of_ne (hne hn), ledger, callsOf_append, callsOf_other, List.nil_append]
      · exact hdeals
      · intro p hp he
        exact hunsent hn (he ▸ List.mem_map_of_mem hp)
  · rcases List.mem_cons.mp hn with rfl | hn
    · rw [Function.update_self]
      exact h₁.onDisk.frame rfl (h₂.frame n hname)
    · rw [Function.update_of_ne (hne hn)]
      exact (h₂.onDisk n hn).frame (h₁.frame n (hne hn)).symm rfl
  · rw [h₂.frame n (List.not_mem_of_not_mem_cons hn), h₁.frame n (List.ne_of_not_mem_cons hn)]
  · have hn₁ := h₂.keeps n hn
    by_cases he : n = name
    · exact he ▸ h₁.keeps (he ▸ hn₁)
    · rwa [← AList.lookup_isSome, h₁.frame n he, AList.lookup_isSome] at hn₁
  · obtain ⟨hnone₁, hnone⟩ := Option.or_eq_none_iff.mp hstop
    rcases List.mem_cons.mp hn with rfl | hn
    · rw [h₂.frame n hname, h₁.settled hnone₁]
    · exact h₂.finished hnone n hn
  · rw [List.map_append, List.map_map]
    match calls, h₁.once with
    | [], _ => exact h₂.order.cons name
    | [c], _ => exact h₂.order.cons_cons name
  · rcases List.mem_append.mp hp with hp | hp
    · obtain ⟨c, hc, rfl⟩ := List.mem_map.mp hp
      rw [Function.update_self]
      exact h₁.acked c hc
    · rw [Function.update_of_ne (hne (hlater p hp)), ← hqueued (hlater p hp)]
      exact h₂.acked p hp
  · rw [List.map_append, List.mem_append, not_or, List.map_map] at hn
    by_cases he : n = name
    · rw [he, Function.update_self]
      refine h₁.unsent (List.eq_nil_iff_forall_not_mem.mpr fun c hc => hn.1 ?_)
      exact List.mem_map.mpr ⟨c, hc, he.symm⟩
    · rw [Function.update_of_ne he]
      exact h₂.unsent n hn.2
  · cases stop₁ with
    | some err =>
      obtain ⟨rfl, rfl⟩ := hstop₁ rfl
      rw [List.append_nil]
      exact ⟨[], name, rest, rfl, fun x hx => ⟨h₁.frame x (hne hx), hunsent hx⟩⟩
    | none =>
      obtain ⟨before, m, after, hfiles, hafter⟩ := h₂.stops hstop
      refine ⟨name :: before, m, after, by rw [hfiles]; rfl, fun x hx => ?_⟩
      have hxr := hbehind hfiles hx
      refine ⟨(hafter x hx).1.trans (h₁.frame x (hne hxr)), ?_⟩
      rw [List.map_append, List.mem_append, not_or]
      exact ⟨hunsent hxr, (hafter x hx).2⟩
  · rw [Option.isSome_or]
    rcases h₁.split_calls env heq with ⟨c, hc, rfl, rfl⟩ | ⟨front', heq'⟩
    · -- a retryable failure stops the drain here
      have hsome := h₁.retry c hc hret
      obtain ⟨rfl, rfl⟩ := hstop₁ hsome
      rw [hsome]
      exact ⟨rfl, rfl, [], rest, rfl, fun x hx => h₁.frame x (hne hx)⟩
    · obtain ⟨hback, hstop, before, after, hfiles, hafter⟩ := h₂.retry front' p back heq' hret
      rw [hstop, Bool.or_true]
      refine ⟨hback, rfl, name :: before, after, by rw [hfiles]; rfl, fun x hx => ?_⟩
      exact (hafter x hx).trans (h₁.frame x (hne (hbehind hfiles hx)))

/-- Induction over the files left, one turn at a time. -/
theorem drainLoop_spec :
    ∀ (files : List String) (st : ReplayState), files.Nodup →
      ∃ fate calls, Replayed env files st (drainLoop encodedLen env files st).1
        (drainLoop encodedLen env files st).2 (ledger env st.disk calls) fate calls := by
  intro files
  induction files with
  | nil => intro st _; exact ⟨_, _, Replayed.unreached env st (iff_of_true rfl rfl)⟩
  | cons name rest ih =>
    intro st hnd
    obtain ⟨hname, hrest⟩ := List.nodup_cons.mp hnd
    obtain ⟨d, calls, hturn⟩ := drainFile_spec encodedLen env st name
    unfold drainLoop
    split
    next st₁ hfile =>
      rw [hfile] at hturn
      obtain ⟨fate, later, hlater⟩ := ih st₁ hrest
      exact ⟨_, _, Turn.cons env hname hturn hlater fun h => absurd h Bool.false_ne_true⟩
    next err st₁ hfile =>
      rw [hfile] at hturn
      have hrest : Replayed env rest st₁ (rest.head?.map fun _ => err) st₁ _ _ [] :=
        Replayed.unreached env st₁ (by simp)
      exact ⟨_, _, Turn.cons env hname hturn hrest fun _ => ⟨rfl, rfl⟩⟩

theorem listLocked_nodup (d : Disk) : (listLocked d).Nodup :=
  (List.perm_insertionSort _ d.keys).nodup_iff.mpr d.keys_nodup

theorem mem_listLocked {d : Disk} : name ∈ listLocked d ↔ name ∈ d :=
  (List.perm_insertionSort _ d.keys).mem_iff.trans AList.mem_keys.symm

/-- Fewer files, in the same order. -/
theorem listLocked_sublist {d d' : Disk} (h : ∀ name, name ∈ d' → name ∈ d) :
    (listLocked d').Sublist (listLocked d) :=
  List.sublist_of_subperm_of_sortedLE
    (List.subperm_of_subset (listLocked_nodup d') fun _ hn =>
      mem_listLocked.mpr (h _ (mem_listLocked.mp hn)))
    (List.pairwise_insertionSort _ _).sortedLE (List.pairwise_insertionSort _ _).sortedLE

/-! ## The records in the ledger twice -/

/-- How much of a file is kept can be read off the disk. -/
theorem OnDisk.length_eq {before after : Disk} {kept' : List PersistedLogRecord}
    (h : OnDisk before after name kept) (h' : OnDisk before after name kept') :
    kept.length = kept'.length := by
  unfold OnDisk at h h'
  cases hf : after.lookup name with
  | none =>
    rw [hf] at h h'
    rw [h, h']
  | some f =>
    -- in both cases as many records as the file now holds
    have hlen : ∀ {xs : List PersistedLogRecord}, ((before.lookup name = some f ∧
        xs = queued before name) ∨ ∃ b, readBatchFile before name = (b, none) ∧ f.read
          = (⟨logsQueueFileVersion, b.savedAt, xs.map PersistedLogRecord.observed⟩, none)) →
        xs.length = (if f.read.2.isNone then f.read.1.records.length else 0) := by
      rintro xs (⟨hsame, rfl⟩ | ⟨b, _, hread⟩)
      · simp only [queued, readBatchFile, hsame]
        rcases f.read with ⟨b, _ | e⟩ <;> rfl
      · simp [hread]
    rw [hf] at h h'
    rw [hlen h, hlen h']

/-- Two accounts of the same drain are about equally many records. -/
theorem Replayed.sum_eq {files : List String} {stop : Option SendErr}
    {due due' : String → List PersistedLogRecord}
    {fate fate' : String → Outcome → List PersistedLogRecord} {made : List (String × WrappedCall)}
    (h : Replayed env files st stop st' due fate made)
    (h' : Replayed env files st stop st' due' fate' made) :
    (files.map fun n => (due n).length).sum = (files.map fun n => (due' n).length).sum := by
  have hacc : ∀ n, (fate n .accepted).length = (fate' n .accepted).length := by
    intro n
    by_cases hn : n ∈ made.map Prod.fst
    · obtain ⟨p, hp, rfl⟩ := List.mem_map.mp hn
      have hsame := congrArg List.length ((h.acked p hp).2.symm.trans (h'.acked p hp).2)
      simpa only [rebuildEventLogs, List.length_map] using hsame
    · rw [h.unsent n hn, h'.unsent n hn]
  have htotal : ∀ {due : String → List PersistedLogRecord}
      {fate : String → Outcome → List PersistedLogRecord},
      Replayed env files st stop st' due fate made →
      (files.map fun n => (due n).length).sum
        = (files.map fun n => (fate n .accepted).length + (fate n .undelivered).length).sum
          + (files.map fun n => (fate n .rejected).length).sum
          + (files.map fun n => (fate n .dropped).length).sum := by
    intro due fate h
    rw [← List.sum_map_add, ← List.sum_map_add]
    refine congrArg List.sum (List.map_congr_left fun n hn => ?_)
    exact (outcome_lengths (h.deals n hn)).symm
  have hrej : (files.map fun n => (fate n .rejected).length).sum
      = (files.map fun n => (fate' n .rejected).length).sum :=
    Nat.add_left_cancel (h.rejected.symm.trans h'.rejected)
  have htoo : (files.map fun n => (fate n .dropped).length).sum
      = (files.map fun n => (fate' n .dropped).length).sum :=
    Nat.add_left_cancel (h.tooLarge.symm.trans h'.tooLarge)
  rw [htotal h, htotal h', hrej, htoo]
  congr 3
  refine List.map_congr_left fun n hn => ?_
  rw [hacc n, (h.onDisk n hn).length_eq (h'.onDisk n hn)]

/-- **At least once, and nothing unacknowledged dropped.** For every queue content,
every receiver, every working budget and every moment the replayer is stopped: one
uncontended replay gives every record of every readable file exactly one fate, with
the disk, the counters and the acknowledged calls to match, the files left keep their
names and their order, and the first retryable failure is where it stops; if and only
if none of its exports is misreported. -/
theorem replay_accounts_iff (e : LogExporter) :
    (∃ fate, Replayed env (listLocked e.queue.disk) { e := e } (drainAcked encodedLen env e).1
        (drainAcked encodedLen env e).2 (queued e.queue.disk) fate
        (drainAcked encodedLen env e).2.sent ∧
      (listLocked (drainAcked encodedLen env e).2.disk).Sublist (listLocked e.queue.disk)) ↔
    ∀ p ∈ (drainAcked encodedLen env e).2.sent, ¬ p.2.Misreported env := by
  obtain ⟨fate, calls, h⟩ := drainLoop_spec encodedLen env (listLocked e.queue.disk) { e := e }
    (listLocked_nodup e.queue.disk)
  have hcalls : calls = (drainAcked encodedLen env e).2.sent :=
    (h.logged.trans (List.nil_append _)).symm
  rw [← hcalls]
  constructor
  · rintro ⟨fate', h', _⟩ p hp hmis
    have hle : ∀ n, (queued e.queue.disk n).length ≤ (ledger env e.queue.disk calls n).length := by
      intro n
      simp [ledger, dealt]
    -- the batch of `p` is in the ledger twice, and it is not empty
    have hlt : (queued e.queue.disk p.1).length < (ledger env e.queue.disk calls p.1).length := by
      have hmem : p.2 ∈ callsOf calls p.1 :=
        List.mem_filterMap.mpr ⟨p, hp, if_pos rfl⟩
      have hne : queued e.queue.disk p.1 ≠ [] := by
        intro hnil
        have hrecords := (h'.acked p hp).1
        refine hmis.1 (hrecords.trans ?_)
        show rebuildEventLogs env.pipeline (queued e.queue.disk p.1) = []
        rw [hnil]
        rfl
      rw [ledger, dealt, if_pos ⟨p.2, hmem, hmis⟩, List.length_append]
      have hpos := List.length_pos_iff.mpr hne
      omega
    have hsum := List.sum_lt_sum (fun n => (queued e.queue.disk n).length)
      (fun n => (ledger env e.queue.disk calls n).length) (fun n _ => hle n)
      ⟨p.1, h.order.subset (List.mem_map_of_mem hp), hlt⟩
    exact absurd (Replayed.sum_eq env h' h) hsum.ne
  · intro hok
    refine ⟨fate, ?_, listLocked_sublist h.keeps⟩
    have hdue : ledger env e.queue.disk calls = queued e.queue.disk := by
      funext n
      rw [ledger, dealt, if_neg, List.append_nil]
      rintro ⟨c, hc, hmis⟩
      obtain ⟨p, hp, hpc⟩ := List.mem_filterMap.mp hc
      split at hpc
      next => exact hok p hp (Option.some.inj hpc ▸ hmis)
      next => cases hpc
    exact hdue ▸ h

end Files

/-! ## The misreported replay -/

/-- A queue with one batch of two records. -/
def queuedPair : LogExporter :=
  { idleExporter with
    queue := idleExporter.queue.enqueue sampleLen [sampleRecord 1, sampleRecord 2] 100 100 }

/-- The receiver of `mixedDownstream`, at every send. -/
def mixedReplay : ReplayEnv where
  pipeline := ⟨[], "1"⟩
  fromError := mixedDownstream.fromError
  downstream := fun _ => mixedDownstream.downstream
  ctxErr := fun _ => mixedDownstream.ctxErr
  budget := fun _ => 1000000
  stopped := fun _ => false
  stoppedAfter := fun _ => false
  canceled := fun _ => false
  clock := fun _ => 1

/-- Both records are in acknowledged calls, and both are counted as rejected. -/
theorem replay_counts_acknowledged :
    ¬ ∃ fate, Replayed mixedReplay (listLocked queuedPair.queue.disk) { e := queuedPair }
        (drainAcked sampleLen mixedReplay queuedPair).1
        (drainAcked sampleLen mixedReplay queuedPair).2 (queued queuedPair.queue.disk) fate
        (drainAcked sampleLen mixedReplay queuedPair).2.sent ∧
      (listLocked (drainAcked sampleLen mixedReplay queuedPair).2.disk).Sublist
        (listLocked queuedPair.queue.disk) := by
  rintro ⟨fate, h, _⟩
  obtain ⟨name, hfiles⟩ := List.length_eq_one_iff.mp
    (by decide +kernel : (listLocked queuedPair.queue.disk).length = 1)
  have hqueued : (listLocked queuedPair.queue.disk).map
      (fun n => (queued queuedPair.queue.disk n).length) = [2] := by decide +kernel
  have hsent : (drainAcked sampleLen mixedReplay queuedPair).2.sent.map
      (fun p => (p.1, (p.2.bin mixedReplay .accepted).length))
      = (listLocked queuedPair.queue.disk).map fun n => (n, 2) := by decide +kernel
  have hcount : (drainAcked sampleLen mixedReplay queuedPair).2.e.receiverRejected = 2 := by
    decide +kernel
  rw [hfiles] at hqueued hsent
  have hmem : (name, 2) ∈ [name].map fun n => (n, 2) := List.mem_singleton_self _
  rw [← hsent] at hmem
  obtain ⟨p, hp, heq⟩ := List.mem_map.mp hmem
  obtain ⟨rfl, htwo⟩ := Prod.mk.inj heq
  have hlen := outcome_lengths (h.deals p.1 (hfiles ▸ List.mem_singleton_self p.1))
  have hacc := congrArg List.length (h.acked p hp).2
  have hrej := h.rejected
  have hzero : queuedPair.receiverRejected = 0 := rfl
  rw [hfiles] at hrej
  simp only [rebuildEventLogs, List.length_map, List.map_cons, List.map_nil, List.sum_cons,
    List.sum_nil, List.cons.injEq, and_true] at hacc hrej hqueued
  omega

end SenhubAgent.Otlp

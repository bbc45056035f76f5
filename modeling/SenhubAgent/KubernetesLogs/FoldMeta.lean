import SenhubAgent.KubernetesLogs.Probe
import SenhubAgent.Lib.Schedule

/-!
# Which entry a folded record takes its time from

The metadata of a record is chosen once per call: the entry that opened the record in progress,
or the new entry when none was. One call can give two records: with `match: before` the cap
sends what was held and the new line ends a record of its own. The second record then has the
metadata of the first (`sendsTwo`); every other record has those of its own first entry.

A run is any sequence of entries of one stream and of `flushFolds`. The ghost beside each record
is the group of entries it is made of.
-/

namespace SenhubAgent.KubernetesLogs

open SenhubAgent.Lib SenhubAgent.PodLogs
open SenhubAgent.LogParse (MultilineConfig)

/-- A published record and the entries it is made of. -/
structure Folded where
  record : Entry
  group : List Entry

/-- Time and stream are those of the entry that contributed the first line. -/
def Folded.Dated (x : Folded) : Prop :=
  ∃ e, x.group.head? = some e ∧ x.record.time = e.time ∧ x.record.stream = e.stream

namespace Fold

/-- The groups of the records `add` gives. -/
def addGroups (f : Fold) (e : Entry) : List (Bytes × List Entry) :=
  let asm := (f.asm.append e.message).2
  let all := f.entries ++ [e]
  shareOut (f.asm.append e.message).1 (all.take (all.length - asm.pending.length))

/-- The groups of the records `flush` gives. -/
def flushGroups (f : Fold) : List (Bytes × List Entry) :=
  if !f.asm.isPending then []
  else
    shareOut f.asm.flush.1 (f.entries.take (f.entries.length - f.asm.flush.2.pending.length))

/-- Each record with its group. -/
def folded (recs : List Entry) (groups : List (Bytes × List Entry)) : List Folded :=
  recs.zipWith (fun r g => ⟨r, g.2⟩) groups

end Fold

/-- The records of `foldEntry`, each with its group. -/
def LiveFile.foldEntryFolded (cfg : Config) (st : LiveFile) (e : Entry) : List Folded :=
  Fold.folded (st.foldEntry cfg e).2
    (((st.folds e.stream).getD (Fold.new cfg.multiline cfg.maxLineBytes e)).addGroups e)

def LiveFile.flushFoldFolded (st : LiveFile) (t : Stream) : List Folded :=
  Fold.folded (st.flushFold t).2 (((st.folds t).map Fold.flushGroups).getD [])

/-- The records of `flushFolds`, each with its group. -/
def LiveFile.flushFoldsFolded (st : LiveFile) : List Folded :=
  st.flushFoldFolded .stderr ++ (st.flushFold .stderr).1.flushFoldFolded .stdout

/-- The entries of a stream that no record has yet. -/
def LiveFile.heldEntries (st : LiveFile) (t : Stream) : List Entry :=
  ((st.folds t).map (·.entries)).getD []

inductive FoldEvent where
  | entry (e : Entry)
  | flush

/-- The file, the records published so far and, beside them, the entries fed and the groups they
were cut into. -/
structure FoldRun where
  file : LiveFile
  published : List Entry
  fed : List Entry
  out : List Folded

variable (cfg : Config) (s : Stream)

/-- `foldEntry` with an entry of the stream, or `flushFolds`. -/
def FoldRun.step (run : FoldRun) : FoldEvent → Option FoldRun
  | .entry e =>
    if e.stream = s then
      some
        { file := (run.file.foldEntry cfg e).1
          published := run.published ++ (run.file.foldEntry cfg e).2
          fed := run.fed ++ [e]
          out := run.out ++ run.file.foldEntryFolded cfg e }
    else none
  | .flush =>
    some
      { run with
        file := run.file.flushFolds.1
        published := run.published ++ run.file.flushFolds.2
        out := run.out ++ run.file.flushFoldsFolded }

/-- The call does not give two records whose first entries have different times. -/
def FoldRun.Single (run : FoldRun) : FoldEvent → Prop
  | .entry e => ∀ f, run.file.folds e.stream = some f →
      f.asm.sendsTwo e.message = true → f.first.time = e.time
  | .flush => True

/-! ## One call -/

/-- The entries held are of the stream and `first` is the first of them. -/
structure Fold.Opened (f : Fold) : Prop extends Fold.Ok f where
  stream : ∀ e ∈ f.entries, e.stream = s
  first : ∀ e, f.entries.head? = some e → f.first = e

variable {cfg s}

theorem Fold.folded_map (opening : Entry) (groups : List (Bytes × List Entry)) :
    Fold.folded (groups.map (recordEntry opening)) groups =
      groups.map fun g => ⟨recordEntry opening g, g.2⟩ := by
  unfold Fold.folded
  induction groups with
  | nil => rfl
  | cons g gs ih => rw [List.map_cons, List.zipWith_cons_cons, ih]; rfl

variable {f : Fold} {e : Entry} {closed rest : List Entry} {st : LiveFile} {run run' : FoldRun}

theorem Fold.isPending_iff (h : f.Ok) : f.asm.isPending = true ↔ f.entries ≠ [] := by
  rw [LogParse.Assembler.isPending_iff, ← h.pending]
  exact not_congr List.map_eq_nil_iff

/-- The groups `add` closes are those of `append_shape`. -/
theorem Fold.addGroups_eq (hall : f.entries ++ [e] = closed ++ rest)
    (hpending : rest.map (·.message) = (f.asm.append e.message).2.pending) :
    f.addGroups e = shareOut (f.asm.append e.message).1 closed ∧
      (f.add e).1 = (f.addGroups e).map
        (recordEntry (if f.asm.isPending then f.first else e)) ∧
      (f.add e).2.entries = rest := by
  have hn : (f.entries ++ [e]).length - (f.asm.append e.message).2.pending.length =
      closed.length := by
    rw [hall, ← hpending, List.length_append, List.length_map]
    omega
  refine ⟨?_, rfl, ?_⟩
  · show shareOut _ ((f.entries ++ [e]).take _) = _
    rw [hn, hall, List.take_left]
  · show (f.entries ++ [e]).drop _ = rest
    rw [hn, hall, List.drop_left]

/-- The metadata of a call are those of the first entry held, the new one included. -/
theorem Fold.Opened.opening (h : f.Opened s) (e : Entry) :
    (f.entries ++ [e]).head? = some (if f.asm.isPending then f.first else e) := by
  have hpend := Fold.isPending_iff h.toOk
  cases hentries : f.entries with
  | nil =>
    rw [if_neg (fun hp => hpend.mp hp hentries)]
    rfl
  | cons x xs =>
    rw [if_pos (hpend.mpr (by rw [hentries]; exact List.cons_ne_nil _ _)),
      h.first x (by rw [hentries]; rfl)]
    rfl

theorem head?_of_append (h : closed ≠ []) : (closed ++ rest).head? = closed.head? := by
  cases closed with
  | nil => exact absurd rfl h
  | cons x xs => rfl

theorem Fold.Opened.add (h : f.Opened s) (he : e.stream = s) : (f.add e).2.Opened s := by
  obtain ⟨closed, rest, hall, hpending, -, -, hout⟩ := Fold.append_shape h.toOk e
  obtain ⟨-, -, hentries⟩ := Fold.addGroups_eq hall hpending
  have hafter := Fold.isPending_iff (Fold.add_made h.toOk e).ok
  rw [hentries] at hafter
  refine ⟨(Fold.add_made h.toOk e).ok, fun x hx => ?_, fun x hx => ?_⟩
  · rw [hentries] at hx
    have hmem : x ∈ f.entries ++ [e] := hall ▸ List.mem_append_right _ hx
    rcases List.mem_append.mp hmem with hmem | hmem
    · exact h.stream x hmem
    · rw [List.mem_singleton.mp hmem]
      exact he
  · rw [hentries] at hx
    have hheld : (f.add e).2.asm.isPending = true :=
      hafter.mpr fun hnil => (by rw [hnil] at hx; cases hx)
    have hfirst : (f.add e).2.first =
        if !f.asm.isPending || (f.asm.append e.message).1 ≠ [] then e else f.first := by
      show (if (f.add e).2.asm.isPending && _ then e else f.first) = _
      rw [hheld, Bool.true_and]
    rw [hfirst]
    rcases hout with ⟨hnone, hclosed⟩ | ⟨hone, -, hrest⟩ | ⟨-, hclosed, -⟩
    · -- nothing came out: the record goes on, or this entry opened it
      have hopening := h.opening e
      rw [hall, hclosed, List.nil_append, hx, Option.some.injEq] at hopening
      rw [hnone, hopening]
      cases f.asm.isPending <;> rfl
    · rcases hrest with hrest | hrest
      · rw [hrest] at hx
        cases hx
      · rw [hrest] at hx
        rw [hone, if_pos (by simp)]
        exact Option.some.inj hx
    · have hnil : rest = [] := List.append_right_eq_self.mp (hclosed ▸ hall).symm
      rw [hnil] at hx
      cases hx

/-- Every record a call gives has the metadata of its own first entry, but the second of two. -/
theorem Fold.Opened.add_dated (h : f.Opened s) (he : e.stream = s) :
    (∀ x ∈ Fold.folded (f.add e).1 (f.addGroups e), x.Dated) ↔
      (f.asm.sendsTwo e.message = true → f.first.time = e.time) := by
  obtain ⟨closed, rest, hall, hpending, -, -, hout⟩ := Fold.append_shape h.toOk e
  obtain ⟨hgroups, hrecs, -⟩ := Fold.addGroups_eq hall hpending
  rw [hrecs, Fold.folded_map, hgroups]
  have hopening := h.opening e
  have hsingle : (f.asm.append e.message).1.length ≤ 1 → f.asm.sendsTwo e.message = false := by
    intro hlen
    by_contra hsends
    rw [LogParse.Assembler.append_of_sendsTwo (by simpa using hsends)] at hlen
    exact absurd hlen (by decide : ¬ 2 ≤ 1)
  rcases hout with ⟨hnone, -⟩ | ⟨hone, hclosed, -⟩ | ⟨hheld, hclosed, htwo⟩
  · rw [hnone, hsingle (by rw [hnone]; decide)]
    exact ⟨fun _ hfalse => (nomatch hfalse), fun _ x hx => (nomatch hx)⟩
  · rw [hall, head?_of_append hclosed] at hopening
    rw [hone, hsingle (by rw [hone]; exact Nat.le_refl 1)]
    refine ⟨fun _ hfalse => (nomatch hfalse), fun _ x hx => ?_⟩
    rw [shareOut_one, List.map_singleton, List.mem_singleton] at hx
    rw [hx]
    exact ⟨_, hopening, rfl, rfl⟩
  · have hsends : f.asm.sendsTwo e.message = true := by
      by_contra hno
      have hlen := LogParse.Assembler.length_append_le (by simpa using hno)
      rw [htwo] at hlen
      exact absurd hlen (by decide : ¬ 2 ≤ 1)
    have hpend := (Fold.isPending_iff h.toOk).mpr hheld
    rw [hpend, if_pos rfl, head?_of_append hheld] at hopening
    have hfirst : f.first.stream = e.stream := by
      rw [he]
      exact h.stream f.first (List.mem_of_mem_head? hopening)
    rw [htwo, hclosed, hpend, hsends]
    simp only [shareOut_two, List.map_cons, List.map_nil, List.mem_cons, List.not_mem_nil, or_false,
      if_true, forall_const, forall_eq_or_imp, forall_eq]
    constructor
    · rintro ⟨-, e', he', htime, -⟩
      cases he'
      exact htime
    · intro htime
      exact ⟨⟨f.first, hopening, rfl, rfl⟩, e, rfl, htime, hfirst⟩

/-- A flush closes what is held, as one record. -/
theorem Fold.flush_shape (h : f.Ok) :
    (f.entries = [] ∧ f.flush = ([], f) ∧ f.flushGroups = []) ∨
      (f.entries ≠ [] ∧ f.flush.2.entries = [] ∧ ∃ text,
        f.flush.1 = [recordEntry f.first (text, f.entries)] ∧
        f.flushGroups = [(text, f.entries)]) := by
  have hpend := Fold.isPending_iff h
  unfold Fold.flush Fold.flushGroups
  by_cases hpending : f.asm.isPending = true
  · right
    refine ⟨hpend.mp hpending, ?_⟩
    rw [if_neg (by simp [hpending]), if_neg (by simp [hpending]), (Fold.asm_flush h hpending).2]
    dsimp only
    rw [List.length_nil, Nat.sub_zero, List.take_length, List.drop_length]
    refine ⟨rfl, f.asm.record f.asm.pending, ?_, ?_⟩
    · rw [shareOut_one, List.map_singleton]
    · rw [shareOut_one]
  · left
    rw [if_pos (by simp [hpending]), if_pos (by simp [hpending])]
    refine ⟨?_, rfl, rfl⟩
    by_contra hheld
    exact hpending (hpend.mpr hheld)

theorem Fold.Opened.flush (h : f.Opened s) :
    f.flush.2.Opened s ∧ ∀ x ∈ Fold.folded f.flush.1 f.flushGroups, x.Dated := by
  rcases Fold.flush_shape h.toOk with ⟨-, hflush, hgroups⟩ | ⟨hheld, hrest, text, hrecs, hgroups⟩
  · rw [hflush, hgroups]
    exact ⟨h, fun x hx => (nomatch hx)⟩
  · constructor
    · refine ⟨(Fold.flush_made h.toOk).1.ok, fun e he => ?_, fun e he => ?_⟩
      · rw [hrest] at he
        cases he
      · rw [hrest] at he
        cases he
    · intro x hx
      rw [hrecs, hgroups] at hx
      rw [List.mem_singleton.mp hx]
      obtain ⟨e, es, hentries⟩ := List.exists_cons_of_ne_nil hheld
      have hhead : f.entries.head? = some e := by rw [hentries]; rfl
      have hfirst := h.first e hhead
      have htime : f.first.time = e.time := by rw [hfirst]
      have hstream : f.first.stream = e.stream := by rw [hfirst]
      exact ⟨e, hhead, htime, hstream⟩

/-! ## The groups are the entries, cut -/

/-- The records are those given and their groups, with what stays held, are all entries. -/
structure Cut (out : List Folded) (recs all rest : List Entry) : Prop where
  records : out.map (·.record) = recs
  groups : out.flatMap (·.group) ++ rest = all

theorem flatMap_shareOut {out : List Bytes} (hnone : out = [] → closed = [])
    (hlen : out.length ≤ closed.length + 1) : (shareOut out closed).flatMap (·.2) = closed := by
  cases out with
  | nil =>
    rw [hnone rfl]
    rfl
  | cons msg more =>
    rw [List.length_cons] at hlen
    have hzip : (more.zip ((closed.drop (closed.length - more.length)).map fun e => [e])).map
        Prod.snd = (closed.drop (closed.length - more.length)).map fun e => [e] := by
      apply List.map_snd_zip
      rw [List.length_map, List.length_drop]
      omega
    show closed.take _ ++ List.flatMap _ _ = closed
    rw [List.flatMap_def, hzip, ← List.flatMap_def, List.flatMap_singleton']
    exact List.take_append_drop _ _

theorem cut_folded (opening : Entry) (groups : List (Bytes × List Entry)) (rest : List Entry) :
    Cut (Fold.folded (groups.map (recordEntry opening)) groups)
      (groups.map (recordEntry opening)) (groups.flatMap (·.2) ++ rest) rest := by
  rw [Fold.folded_map]
  constructor
  · rw [List.map_map]
    rfl
  · rw [List.flatMap_map]

theorem Fold.add_cut (h : f.Ok) (e : Entry) :
    Cut (Fold.folded (f.add e).1 (f.addGroups e)) (f.add e).1 (f.entries ++ [e])
      (f.add e).2.entries := by
  obtain ⟨closed, rest, hall, hpending, -, -, hout⟩ := Fold.append_shape h e
  obtain ⟨hgroups, hrecs, hentries⟩ := Fold.addGroups_eq hall hpending
  have hclosed : (f.addGroups e).flatMap (·.2) = closed := by
    rw [hgroups]
    apply flatMap_shareOut
    · intro hnil
      rcases hout with ⟨-, hclosed⟩ | ⟨hone, -⟩ | ⟨-, -, htwo⟩
      · exact hclosed
      · rw [hone] at hnil
        cases hnil
      · rw [htwo] at hnil
        cases hnil
    · rcases hout with ⟨hnone, -⟩ | ⟨hone, -⟩ | ⟨-, hclosed, htwo⟩
      · rw [hnone]
        exact Nat.zero_le _
      · rw [hone]
        exact Nat.le_add_left 1 _
      · rw [htwo, hclosed, List.length_append]
        show 2 ≤ _ + 1 + 1
        omega
  have hcut := cut_folded (if f.asm.isPending then f.first else e) (f.addGroups e) rest
  rwa [hclosed, ← hrecs, ← hall, ← hentries] at hcut

theorem Fold.flush_cut (h : f.Ok) :
    Cut (Fold.folded f.flush.1 f.flushGroups) f.flush.1 f.entries f.flush.2.entries := by
  rcases Fold.flush_shape h with ⟨hnil, hflush, hgroups⟩ | ⟨-, hrest, text, hrecs, hgroups⟩
  · rw [hflush, hgroups, hnil]
    exact ⟨rfl, rfl⟩
  · rw [hrecs, hgroups, hrest]
    exact ⟨rfl, by simp [Fold.folded]⟩

theorem Cut.append {out more : List Folded} {recs moreRecs all next rest' : List Entry}
    (h : Cut out recs all rest) (hmore : Cut more moreRecs (rest ++ next) rest') :
    Cut (out ++ more) (recs ++ moreRecs) (all ++ next) rest' := by
  constructor
  · rw [List.map_append, h.records, hmore.records]
  · rw [List.flatMap_append, List.append_assoc, hmore.groups, ← List.append_assoc, h.groups]

/-! ## Whole runs -/

variable (cfg s) in
/-- The fold an entry of the stream goes through. -/
def LiveFile.foldFor (st : LiveFile) (e : Entry) : Fold :=
  (st.folds s).getD (Fold.new cfg.multiline cfg.maxLineBytes e)

variable (s) in
/-- Only the one stream has a fold; its entries are in a record or held. -/
structure FoldRun.Inv (run : FoldRun) : Prop where
  opened : ∀ f, run.file.folds s = some f → f.Opened s
  other : ∀ t, t ≠ s → run.file.folds t = none
  cut : Cut run.out run.published run.fed (run.file.heldEntries s)

theorem LiveFile.heldEntries_of (h : st.folds s = some f) : st.heldEntries s = f.entries := by
  unfold LiveFile.heldEntries
  rw [h]
  rfl

theorem LiveFile.folds_setFold (st : LiveFile) (f : Fold) : (st.setFold s f).folds s = some f :=
  if_pos rfl

theorem LiveFile.folds_setFold_ne (st : LiveFile) {t : Stream} (f : Fold) (h : t ≠ s) :
    (st.setFold s f).folds t = st.folds t := if_neg h

variable (cfg) in
theorem FoldRun.Inv.foldFor (h : run.Inv s) (e : Entry) :
    (run.file.foldFor cfg s e).Opened s ∧
      (run.file.foldFor cfg s e).entries = run.file.heldEntries s := by
  unfold LiveFile.foldFor
  cases hfold : run.file.folds s with
  | none =>
    refine ⟨⟨Fold.new_ok _ _ e, fun _ h => (nomatch h), fun _ h => (nomatch h)⟩, ?_⟩
    unfold LiveFile.heldEntries
    rw [hfold]
    rfl
  | some f => exact ⟨h.opened f hfold, (LiveFile.heldEntries_of hfold).symm⟩

theorem FoldRun.Inv.entry (h : run.Inv s) (hstep : run.step cfg s (.entry e) = some run') :
    run'.Inv s ∧ ((∀ x ∈ run'.out, x.Dated) ↔ (∀ x ∈ run.out, x.Dated) ∧ run.Single (.entry e)) := by
  by_cases he : e.stream = s
  · rw [FoldRun.step, if_pos he] at hstep
    obtain ⟨hopened, hheld⟩ := h.foldFor cfg e
    cases Option.some.inj hstep
    have hfile : run.file.foldEntry cfg e =
        (run.file.setFold s ((run.file.foldFor cfg s e).add e).2,
          ((run.file.foldFor cfg s e).add e).1) := by
      unfold LiveFile.foldEntry LiveFile.foldFor
      rw [he]
    have hmore : run.file.foldEntryFolded cfg e =
        Fold.folded ((run.file.foldFor cfg s e).add e).1
          ((run.file.foldFor cfg s e).addGroups e) := by
      unfold LiveFile.foldEntryFolded
      rw [hfile, he]
      rfl
    rw [hmore, hfile]
    constructor
    · refine ⟨fun f hf => ?_, fun t ht => ?_, ?_⟩
      · rw [LiveFile.folds_setFold, Option.some.injEq] at hf
        rw [← hf]
        exact hopened.add he
      · rw [LiveFile.folds_setFold_ne _ _ ht]
        exact h.other t ht
      · rw [LiveFile.heldEntries_of (LiveFile.folds_setFold _ _)]
        have hcut := Fold.add_cut hopened.toOk e
        rw [hheld] at hcut
        exact h.cut.append hcut
    · rw [List.forall_mem_append, hopened.add_dated he]
      apply and_congr_right
      intro _
      unfold FoldRun.Single LiveFile.foldFor
      dsimp only
      rw [he]
      cases hfold : run.file.folds s with
      | none => exact ⟨fun _ f hf => (nomatch hf), fun _ _ => rfl⟩
      | some f =>
        exact ⟨fun hsingle g hg => Option.some.inj hg ▸ hsingle, fun hsingle => hsingle f rfl⟩
  · rw [FoldRun.step, if_neg he] at hstep
    cases hstep

/-- The stream's fold is the only one there is to flush. -/
theorem LiveFile.flushFolds_eq (hother : ∀ t, t ≠ s → st.folds t = none) :
    st.flushFolds = st.flushFold s ∧ st.flushFoldsFolded = st.flushFoldFolded s := by
  have hnone : ∀ (st : LiveFile) (t : Stream), st.folds t = none →
      st.flushFold t = (st, []) ∧ st.flushFoldFolded t = [] := by
    intro st t hfold
    unfold LiveFile.flushFoldFolded LiveFile.flushFold
    rw [hfold]
    exact ⟨rfl, rfl⟩
  unfold LiveFile.flushFolds LiveFile.flushFoldsFolded
  dsimp only
  cases s with
  | stdout =>
    obtain ⟨hfile, hout⟩ := hnone st .stderr (hother .stderr (by decide))
    rw [hfile, hout]
    exact ⟨rfl, rfl⟩
  | stderr =>
    have hafter : (st.flushFold .stderr).1.folds .stdout = none := by
      unfold LiveFile.flushFold
      split
      next => exact hother .stdout (by decide)
      next f hf =>
        rw [LiveFile.folds_setFold_ne _ _ (by decide)]
        exact hother .stdout (by decide)
    obtain ⟨hfile, hout⟩ := hnone _ _ hafter
    rw [hfile, hout]
    exact ⟨Prod.ext rfl (List.append_nil _), List.append_nil _⟩

theorem FoldRun.Inv.flush (h : run.Inv s) (hstep : run.step cfg s .flush = some run') :
    run'.Inv s ∧ ((∀ x ∈ run'.out, x.Dated) ↔ ∀ x ∈ run.out, x.Dated) := by
  cases Option.some.inj hstep
  obtain ⟨hfile, hout⟩ := LiveFile.flushFolds_eq h.other
  rw [hfile, hout]
  have hcut := h.cut
  unfold LiveFile.flushFoldFolded LiveFile.flushFold
  cases hfold : run.file.folds s with
  | none =>
    rw [List.append_nil]
    refine ⟨⟨h.opened, h.other, ?_⟩, ?_⟩
    · rw [show Fold.folded [] _ = [] from rfl, List.append_nil]
      exact hcut
    · rw [show Fold.folded [] _ = [] from rfl, List.append_nil]
  | some f =>
    obtain ⟨hopened, hdated⟩ := (h.opened f hfold).flush
    have hflush := Fold.flush_cut (h.opened f hfold).toOk
    rw [LiveFile.heldEntries_of hfold] at hcut
    constructor
    · refine ⟨fun g hg => ?_, fun t ht => ?_, ?_⟩
      · rw [LiveFile.folds_setFold, Option.some.injEq] at hg
        rw [← hg]
        exact hopened
      · rw [LiveFile.folds_setFold_ne _ _ ht]
        exact h.other t ht
      · rw [LiveFile.heldEntries_of (LiveFile.folds_setFold _ _), ← List.append_nil run.fed]
        refine hcut.append ?_
        rw [List.append_nil]
        exact hflush
    · show (∀ x ∈ run.out ++ Fold.folded f.flush.1 f.flushGroups, x.Dated) ↔ _
      rw [List.forall_mem_append]
      exact ⟨fun hboth => hboth.1, fun hout => ⟨hout, hdated⟩⟩

variable (cfg) in
/-- A file just opened. -/
def FoldRun.start (f : FileState) (offset began : Int) : FoldRun :=
  ⟨LiveFile.new cfg f offset began, [], [], []⟩

/-- **Metadata of folded records**: over every sequence of entries of a stream and flushes, the
records published are cut off the entries in order, and each has time and stream of the entry
that contributed its first line exactly when no call gave a second record with the time of the
first. -/
theorem folded_dated_iff (cfg : Config) (s : Stream) (f : FileState) (offset began : Int)
    (events : List FoldEvent) {run : FoldRun}
    (hrun : runSchedule (FoldRun.step cfg s) (FoldRun.start cfg f offset began) events = some run) :
    run.out.map (·.record) = run.published ∧
    run.out.flatMap (·.group) ++ run.file.heldEntries s = run.fed ∧
    ((∀ x ∈ run.out, x.Dated) ↔
      Admits (FoldRun.step cfg s) FoldRun.Single (FoldRun.start cfg f offset began) events) := by
  have hstart : (FoldRun.start cfg f offset began).Inv s :=
    ⟨fun _ h => (nomatch h), fun _ _ => rfl, ⟨rfl, rfl⟩⟩
  have hstep : ∀ run e run', FoldRun.Inv s run → FoldRun.step cfg s run e = some run' →
      FoldRun.Inv s run' ∧
        ((∀ x ∈ run'.out, x.Dated) ↔ (∀ x ∈ run.out, x.Dated) ∧ run.Single e) := by
    intro run e run' hinv hrun
    cases e with
    | entry e => exact hinv.entry hrun
    | flush =>
      obtain ⟨hinv', hdated⟩ := hinv.flush hrun
      exact ⟨hinv', hdated.trans (and_iff_left trivial).symm⟩
  have hinv : run.Inv s := runSchedule_keeps (fun t a t' ht hat => (hstep t a t' ht hat).1)
    events hstart hrun
  refine ⟨hinv.cut.records, hinv.cut.groups, ?_⟩
  rw [runSchedule_clean_iff hstep events hstart hrun]
  exact and_iff_right fun x hx => (nomatch hx)

/-- A record ends with a line that starts with an X, under a cap of four bytes. -/
def endsWithX : Config where
  follow := ⟨fun _ => true, none⟩
  fromBeginning := true
  maxLineBytes := 4
  multiline := ⟨some fun t => t.head? == some 88, false, .before, 0⟩
  formats := ⟨fun _ => none, fun _ => none⟩
  parser := fun _ _ => some []

def anyFile : FileState := ⟨[], ⟨[], [], [], [], 0, false⟩, 0, 0, 1⟩

/-- A whole message of stdout at second `t`. -/
def messageAt (t : Int) (msg : Bytes) : Entry := ⟨t, .stdout, false, msg, false, []⟩

/-- `ab` at second 1 is held; `Xcd` at second 2 does not fit and ends a record by itself. Both are
published with second 1. -/
theorem second_record_dated_as_first :
    ∃ run, runSchedule (FoldRun.step endsWithX .stdout) (FoldRun.start endsWithX anyFile 0 0)
        [.entry (messageAt 1 [97, 98]), .entry (messageAt 2 [88, 99, 100])] = some run ∧
      run.published.map (fun r => (r.message, r.time)) = [([97, 98], 1), ([88, 99, 100], 1)] ∧
      ∃ x ∈ run.out, x.group.map (·.time) = [2] ∧ ¬ x.Dated := by
  refine ⟨_, rfl, rfl, _, List.mem_cons_of_mem _ (List.mem_singleton_self _), rfl, ?_⟩
  intro ⟨e, he, htime, _⟩
  cases he
  exact absurd htime (by decide)

/-- `ab`, the matching `X` that fits, and `cd` given up by a flush. -/
def fitting : List FoldEvent :=
  [.entry (messageAt 1 [97, 98]), .entry (messageAt 2 [88]), .entry (messageAt 3 [99, 100]), .flush]

/-- Two records, each dated by its first entry. -/
theorem folded_dated_fitting :
    ∃ run, runSchedule (FoldRun.step endsWithX .stdout) (FoldRun.start endsWithX anyFile 0 0)
        fitting = some run ∧
      run.published.map (fun r => (r.message, r.time)) = [([97, 98, 10, 88], 1), ([99, 100], 3)] ∧
      ∀ x ∈ run.out, x.Dated := by
  refine ⟨_, rfl, rfl, (folded_dated_iff endsWithX .stdout anyFile 0 0 fitting rfl).2.2.mpr ?_⟩
  refine ⟨fun f hf => (nomatch hf), fun f hf hsends => ?_, fun f hf hsends => ?_, trivial, trivial⟩
  · cases hf
    exact absurd hsends (by decide)
  · cases hf
    exact absurd hsends (by decide)

end SenhubAgent.KubernetesLogs

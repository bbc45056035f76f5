import SenhubAgent.PodLogs.Chunks

/-!
# Multiline folds of a followed file

Whole messages of a stream go through a multiline assembler of their own. A record it gives
takes its time and stream from the entry that opened it. The ghost `entries` are the entries
whose messages the assembler holds; `add_made` says which of them each record is made of and
that none is lost.

Mirroring notes:
- `first` is read only once a record has been opened, which sets it; a new fold starts with
  the entry it is made for.
-/

namespace SenhubAgent.KubernetesLogs

open SenhubAgent.PodLogs
open SenhubAgent.Lib (Bytes)
open SenhubAgent.LogParse (MultilineConfig newAssembler)

/-- A multiline assembler and the entry that opened the record it is building. -/
structure Fold where
  asm : LogParse.Assembler
  first : Entry
  entries : List Entry

/-- The first record is made of all entries but those of the records after it, which are made
of one entry each. -/
def shareOut (out : List Bytes) (closed : List Entry) : List (Bytes × List Entry) :=
  match out with
  | [] => []
  | msg :: more =>
    let n := closed.length - more.length
    (msg, closed.take n) :: more.zip ((closed.drop n).map fun e => [e])

/-- A record: the opening entry with the text and the lines of its group. -/
def recordEntry (opening : Entry) (g : Bytes × List Entry) : Entry :=
  { opening with message := g.1, lines := g.2.flatMap (·.lines) }

namespace Fold

def new (cfg : MultilineConfig) (maxLineBytes : Int) (e : Entry) : Fold :=
  ⟨newAssembler cfg maxLineBytes, e, []⟩

/-- Feed one message; the records it completes. -/
def add (f : Fold) (e : Entry) : List Entry × Fold :=
  let before := f.asm.isPending
  let r := f.asm.append e.message
  let all := f.entries ++ [e]
  let n := all.length - r.2.pending.length
  ((shareOut r.1 (all.take n)).map (recordEntry (if before then f.first else e)),
    { asm := r.2
      first := if r.2.isPending && (!before || r.1 ≠ []) then e else f.first
      entries := all.drop n })

/-- The record in progress, when there is one. -/
def flush (f : Fold) : List Entry × Fold :=
  if !f.asm.isPending then ([], f)
  else
    let r := f.asm.flush
    let n := f.entries.length - r.2.pending.length
    ((shareOut r.1 (f.entries.take n)).map (recordEntry f.first),
      { f with asm := r.2, entries := f.entries.drop n })

/-- The entries are those whose messages are held. -/
structure Ok (f : Fold) : Prop where
  pending : f.entries.map (·.message) = f.asm.pending
  passThrough : f.asm.enabled = false → f.asm.pending = []

/-- `recs` and what stays held in `f'` are made of `all`. -/
structure Made (f : Fold) (all : List Entry) (recs : List Entry) (f' : Fold) : Prop where
  ok : f'.Ok
  maxLen : f'.asm.maxLen = f.asm.maxLen
  /-- a record's text is that of the messages of its entries -/
  text : ∀ r ∈ recs, ∃ group : List Entry, r.lines = group.flatMap (·.lines) ∧
    r.message = f.asm.record (group.map (·.message))
  /-- no entry is lost -/
  kept : ∀ e ∈ all, e ∈ f'.entries ∨ ∃ r ∈ recs, ∀ l ∈ e.lines, l ∈ r.lines

theorem shareOut_one (text : Bytes) (es : List Entry) : shareOut [text] es = [(text, es)] := by
  simp [shareOut]

theorem shareOut_two (text text' : Bytes) (es : List Entry) (e : Entry) :
    shareOut [text, text'] (es ++ [e]) = [(text, es), (text', [e])] := by
  simp [shareOut]

variable {f : Fold}

/-- The assembler sent the records of `closed` and holds the messages of `rest`. -/
theorem made_of {asm : LogParse.Assembler} {out : List Bytes} {all : List Entry}
    (opening first : Entry) (closed rest : List Entry) (hall : all = closed ++ rest)
    (hpending : rest.map (·.message) = asm.pending)
    (hpass : asm.enabled = false → asm.pending = []) (hmax : asm.maxLen = f.asm.maxLen)
    (hout : (out = [] ∧ closed = []) ∨ out = [f.asm.record (closed.map (·.message))] ∨
      ∃ init last, closed = init ++ [last] ∧
        out = [f.asm.record (init.map (·.message)), f.asm.record [last.message]]) :
    Made f all ((shareOut out (all.take (all.length - asm.pending.length))).map
        (recordEntry opening))
      ⟨asm, first, all.drop (all.length - asm.pending.length)⟩ := by
  have hn : all.length - asm.pending.length = closed.length := by
    rw [hall, ← hpending, List.length_append, List.length_map]
    omega
  rw [hn, hall, List.take_left, List.drop_left]
  refine ⟨⟨hpending, hpass⟩, hmax, fun r hr => ?_, fun e he => ?_⟩
  · rcases hout with ⟨rfl, -⟩ | rfl | ⟨init, last, rfl, rfl⟩
    · cases hr
    · rw [shareOut_one, List.map_singleton, List.mem_singleton] at hr
      rw [hr]
      exact ⟨closed, rfl, rfl⟩
    · rw [shareOut_two] at hr
      rcases List.mem_pair.mp hr with rfl | rfl
      · exact ⟨init, rfl, rfl⟩
      · exact ⟨[last], rfl, rfl⟩
  · rcases List.mem_append.mp he with he | he
    · right
      rcases hout with ⟨-, rfl⟩ | rfl | ⟨init, last, rfl, rfl⟩
      · cases he
      · rw [shareOut_one]
        exact ⟨_, List.mem_singleton_self _, fun l hl => List.mem_flatMap.mpr ⟨e, he, hl⟩⟩
      · rw [shareOut_two]
        rcases List.mem_append.mp he with he | he
        · exact ⟨_, List.mem_cons_self .., fun l hl => List.mem_flatMap.mpr ⟨e, he, hl⟩⟩
        · exact ⟨_, List.mem_cons_of_mem _ (List.mem_singleton_self _),
            fun l hl => List.mem_flatMap.mpr ⟨e, he, hl⟩⟩
    · exact .inl he

/-- The groups an `Append` closes: none, one, or what was held and the new entry apart. -/
theorem append_shape (h : f.Ok) (e : Entry) :
    ∃ closed rest, f.entries ++ [e] = closed ++ rest ∧
      rest.map (·.message) = (f.asm.append e.message).2.pending ∧
      ((f.asm.append e.message).2.enabled = false → (f.asm.append e.message).2.pending = []) ∧
      (f.asm.append e.message).2.maxLen = f.asm.maxLen ∧
      (((f.asm.append e.message).1 = [] ∧ closed = []) ∨
        ((f.asm.append e.message).1 = [f.asm.record (closed.map (·.message))] ∧ closed ≠ [] ∧
          (rest = [] ∨ rest = [e])) ∨
        (f.entries ≠ [] ∧ closed = f.entries ++ [e] ∧ (f.asm.append e.message).1 =
          [f.asm.record (f.entries.map (·.message)), f.asm.record [e.message]])) := by
  have hline : (f.entries ++ [e]).map (·.message) = f.asm.pending ++ [e.message] := by
    rw [List.map_append, h.pending]
    rfl
  rcases f.asm.append_cases e.message with ⟨hoff, happ⟩ | ⟨hon, r, hr, happ⟩
  · -- without a pattern nothing is held
    have hnil := h.passThrough hoff
    have hentries : f.entries = [] := List.map_eq_nil_iff.mp (h.pending.trans hnil)
    rw [happ, hentries]
    exact ⟨[e], [], rfl, hnil.symm, h.passThrough, rfl,
      .inr (.inl ⟨rfl, List.cons_ne_nil _ _, .inl rfl⟩)⟩
  · have henabled : ∀ {P : Prop}, f.asm.enabled = false → P :=
      fun hoff => absurd (hon.symm.trans hoff) (by decide)
    -- what was held was sent before the line, or goes on with it
    have hstart : (r.1 = [] ∧ r.2 = f.asm) ∨ (f.entries ≠ [] ∧
        r.1 = [f.asm.record (f.entries.map (·.message))] ∧
        r.2 = { f.asm with pending := [], curLen := 0 }) := by
      rcases hr with ⟨rfl, -⟩ | rfl
      · exact .inl ⟨rfl, rfl⟩
      · by_cases hnil : f.asm.pending = []
        · rw [LogParse.Assembler.flushPending_of_nil hnil]
          exact .inl ⟨rfl, rfl⟩
        · rw [LogParse.Assembler.flushPending_of_pending hnil, h.pending]
          refine .inr ⟨fun hentries => hnil ?_, rfl, rfl⟩
          rw [← h.pending, hentries]
          rfl
    rcases happ with happ | happ
    · rw [happ]
      rcases hstart with ⟨hout, hasm⟩ | ⟨hheld, hout, hasm⟩
      · rw [hout, hasm]
        exact ⟨[], f.entries ++ [e], rfl, hline, henabled, rfl, .inl ⟨rfl, rfl⟩⟩
      · rw [hout, hasm]
        exact ⟨f.entries, [e], rfl, rfl, henabled, rfl, .inr (.inl ⟨rfl, hheld, .inr rfl⟩)⟩
    · have hne : (r.2.push e.message).pending ≠ [] := List.concat_ne_nil _ _
      rw [happ, LogParse.Assembler.flushPending_of_pending hne]
      rcases hstart with ⟨hout, hasm⟩ | ⟨hheld, hout, hasm⟩
      · rw [hout, hasm]
        refine ⟨f.entries ++ [e], [], (List.append_nil _).symm, rfl, henabled, rfl,
          .inr (.inl ⟨?_, List.concat_ne_nil _ _, .inl rfl⟩)⟩
        rw [hline]
        rfl
      · rw [hout, hasm]
        exact ⟨f.entries ++ [e], [], (List.append_nil _).symm, rfl, henabled, rfl,
          .inr (.inr ⟨hheld, rfl, rfl⟩)⟩

theorem add_made (h : f.Ok) (e : Entry) : Made f (f.entries ++ [e]) (f.add e).1 (f.add e).2 := by
  obtain ⟨closed, rest, hall, hpending, hpass, hmax, hout⟩ := append_shape h e
  refine made_of _ _ closed rest hall hpending hpass hmax ?_
  rcases hout with hnone | ⟨hone, -, -⟩ | ⟨-, hclosed, htwo⟩
  · exact .inl hnone
  · exact .inr (.inl hone)
  · exact .inr (.inr ⟨f.entries, e, hclosed, htwo⟩)

/-- What is held is closed as one record. -/
theorem asm_flush (h : f.Ok) (hpending : f.asm.isPending = true) :
    f.asm.enabled = true ∧ f.asm.flush
      = ([f.asm.record f.asm.pending], { f.asm with pending := [], curLen := 0 }) := by
  have hne := (f.asm.isPending_iff).mp hpending
  have hon : f.asm.enabled = true := by
    by_contra hoff
    exact hne (h.passThrough (by simpa using hoff))
  rw [LogParse.Assembler.flush, if_pos hon, LogParse.Assembler.flushPending_of_pending hne]
  exact ⟨hon, rfl⟩

theorem flush_made (h : f.Ok) : Made f f.entries f.flush.1 f.flush.2 ∧ f.flush.2.entries = [] := by
  unfold flush
  by_cases hpending : f.asm.isPending = true
  · obtain ⟨hon, hflush⟩ := asm_flush h hpending
    rw [if_neg (by simp [hpending]), hflush, ← h.pending]
    constructor
    · exact made_of _ _ f.entries [] (List.append_nil _).symm rfl
        (fun hoff => absurd (hon.symm.trans hoff) (by decide)) rfl (.inr (.inl rfl))
    · exact List.drop_length
  · have hnil : f.asm.pending = [] := by
      by_contra hne
      exact hpending ((f.asm.isPending_iff).mpr hne)
    have hentries : f.entries = [] := List.map_eq_nil_iff.mp (h.pending.trans hnil)
    rw [if_pos (by simp [hpending])]
    exact ⟨⟨h, rfl, nofun, fun e he => .inl he⟩, hentries⟩

theorem new_ok (cfg : MultilineConfig) (maxLineBytes : Int) (e : Entry) :
    (new cfg maxLineBytes e).Ok := ⟨rfl, fun _ => rfl⟩

end Fold

end SenhubAgent.KubernetesLogs

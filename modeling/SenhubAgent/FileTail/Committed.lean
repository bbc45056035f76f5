import SenhubAgent.FileTail.Consume

/-!
# The committed offset

A restart resumes at the bookmark, so a line that ends at or before it must have been
published. The invariant `Kept` cuts the lines fed so far into the groups whose records
were published and the lines still held, and says that a held line of the current file
ends after `committed`. Whatever is not held is published, so both halves of the
guarantee follow.

The offset moves in three ways. It is set to the offset read when nothing is held, to
the offset before the last line when that line alone is held, and to zero when the file
is read from its start, where everything held has just been flushed. Lines drained or
polled from a file that has not been replaced yet end after the offset read, so they
never make a held line fall behind.
-/

namespace SenhubAgent.FileTail

open SenhubAgent.Lib SenhubAgent.LogParse

/-- The record a group of lines is published as. -/
def recordOf (a : Assembler) (group : List Line) : Bytes := a.record (group.map Line.body)

structure Kept (s : Tail) (groups : List (List Line)) (held : List Line) : Prop where
  cut : Cut s.fed groups held
  published : s.published = groups.map (recordOf s.asm)
  pending : s.asm.pending = held.map Line.body
  passThrough : s.asm.enabled = false → s.asm.pending = []
  behind : s.committed ≤ s.lastOffset
  ahead : ∀ l ∈ held, l.gen = s.gen → s.committed < l.ends
  bookmark : s.superseded = false → s.bookmark ≤ s.committed
  handle : ∀ g, s.handle = some g → g ≤ s.gen
  retired : ∀ r ∈ s.retired, r.gen < s.gen
    ∨ (r.gen = s.gen ∧ s.draining = true ∧ s.lastOffset ≤ r.offset)

/-- What feeding lines leaves alone. -/
structure Feeds (s s' : Tail) : Prop where
  lastOffset : s'.lastOffset = s.lastOffset
  committed : s'.committed = s.committed
  handle : s'.handle = s.handle
  retired : s'.retired = s.retired
  dirty : s'.dirty = s.dirty
  superseded : s'.superseded = s.superseded
  bookmark : s'.bookmark = s.bookmark
  draining : s'.draining = s.draining
  gen : s'.gen = s.gen

theorem Feeds.refl (s : Tail) : Feeds s s := ⟨rfl, rfl, rfl, rfl, rfl, rfl, rfl, rfl, rfl⟩

theorem Feeds.trans {s t u : Tail} (h : Feeds s t) (h' : Feeds t u) : Feeds s u :=
  ⟨h'.1.trans h.1, h'.2.trans h.2, h'.3.trans h.3, h'.4.trans h.4, h'.5.trans h.5,
    h'.6.trans h.6, h'.7.trans h.7, h'.8.trans h.8, h'.9.trans h.9⟩

namespace Tail

theorem armIdle_eq (s : Tail) : ∃ armed, s.armIdle = { s with idleArmed := armed } := by
  unfold armIdle
  split
  next => exact ⟨s.idleArmed, rfl⟩
  next => exact ⟨s.asm.isPending, rfl⟩

/-- What feeding a line does. -/
theorem feed_eq (s : Tail) (l : Line) : ∃ armed, (s.feed l).1 = { s with
    asm := (s.asm.append l.body).2
    published := s.published ++ (s.asm.append l.body).1
    fed := s.fed ++ [l]
    idleArmed := armed } :=
  armIdle_eq _

theorem feed_feeds (s : Tail) (l : Line) : Feeds s (s.feed l).1 := by
  obtain ⟨armed, hfeed⟩ := s.feed_eq l
  rw [hfeed]
  exact ⟨rfl, rfl, rfl, rfl, rfl, rfl, rfl, rfl, rfl⟩

end Tail

/-- A group's record depends on the assembler's cap only. -/
theorem recordOf_congr {a a' : Assembler} (h : a'.maxLen = a.maxLen) :
    recordOf a' = recordOf a := by
  unfold recordOf Assembler.record
  rw [h]

section Kept

variable {s : Tail} {groups : List (List Line)} {held : List Line}

/-- The groups of texts an assembler closed are groups of lines. -/
theorem Kept.closes (h : Kept s groups held) (more : List Line) {gs : List (List Bytes)}
    {out : List Bytes} {a' : Assembler}
    (hc : Assembler.Closes s.asm (s.asm.pending ++ more.map Line.body) gs out a') :
    ∃ groups' held', Cut (s.fed ++ more) groups' held'
      ∧ s.published ++ out = groups'.map (recordOf a') ∧ a'.pending = held'.map Line.body
      ∧ ∃ hs, Cut (held ++ more) hs held' ∧ hs.length = gs.length := by
  have hcut : Cut ((held ++ more).map Line.body) gs a'.pending := by
    rw [List.map_append, ← h.pending]
    exact hc.cut
  obtain ⟨hs, held', hcut', hgs, hheld'⟩ := Cut.lift Line.body hcut
  refine ⟨groups ++ hs, held', h.cut.extend hcut', ?_, hheld'.symm, hs, hcut', ?_⟩
  · rw [recordOf_congr hc.maxLen, List.map_append, h.published, hc.records, ← hgs, List.map_map]
    rfl
  · rw [← hgs, List.length_map]

/-- Feeding a line that ends after the committed offset; once a record came out, only
that line can be held. -/
theorem Kept.feed (h : Kept s groups held) (l : Line)
    (hl : l.gen = s.gen → s.committed < l.ends) :
    ∃ groups' held', Kept (s.feed l).1 groups' held'
      ∧ ((s.feed l).2 ≠ 0 → held' = [] ∨ held' = [l]) := by
  obtain ⟨gs, happ⟩ := Assembler.append_appends h.passThrough l.body
  obtain ⟨groups', held', hcut, hpub, hpend, hs, hcut', hlen⟩ := h.closes [l] happ.toCloses
  have hmem : ∀ x ∈ held', x ∈ held ++ [l] := by
    intro x hx
    rw [← hcut']
    exact List.mem_append_right _ hx
  obtain ⟨armed, hfeed⟩ := s.feed_eq l
  refine ⟨groups', held', ?_, ?_⟩
  · rw [hfeed]
    refine ⟨hcut, hpub, hpend, happ.passThrough, h.behind, fun x hx hgen => ?_, h.bookmark,
      h.handle, h.retired⟩
    rcases List.mem_append.mp (hmem x hx) with hx | hx
    · exact h.ahead x hx hgen
    · rw [List.mem_singleton.mp hx] at hgen ⊢
      exact hl hgen
  · intro hcount
    have hout : (s.asm.append l.body).1 ≠ [] := fun hnil => hcount (by
      show (s.asm.append l.body).1.length = 0
      rw [hnil]
      rfl)
    rcases happ.fresh hout with hnil | hone
    · left
      rw [hnil] at hpend
      exact List.map_eq_nil_iff.mp hpend.symm
    · -- the one line held is the last one fed
      right
      rw [hone] at hpend
      obtain ⟨x, rfl⟩ := List.length_eq_one_iff.mp (by
        have := congrArg List.length hpend
        simpa using this.symm)
      have hlast := (List.append_inj' (hcut' : hs.flatten ++ [x] = held ++ [l]) rfl).2
      exact hlast

theorem Kept.feedAll (ls : List Line) :
    ∀ {s : Tail} {groups : List (List Line)} {held : List Line}, Kept s groups held →
      (∀ l ∈ ls, l.gen = s.gen → s.committed < l.ends) →
      ∃ groups' held', Kept (s.feedAll ls) groups' held' ∧ Feeds s (s.feedAll ls) := by
  induction ls with
  | nil => intro s groups held h _; exact ⟨groups, held, h, Feeds.refl s⟩
  | cons l ls ih =>
    intro s groups held h hls
    obtain ⟨groups₁, held₁, h₁, _⟩ := h.feed l (hls l (List.mem_cons_self ..))
    have hframe := s.feed_feeds l
    have hrest : ∀ x ∈ ls, x.gen = (s.feed l).1.gen → (s.feed l).1.committed < x.ends := by
      intro x hx hgen
      rw [hframe.gen] at hgen
      rw [hframe.committed]
      exact hls x (List.mem_cons_of_mem l hx) hgen
    obtain ⟨groups₂, held₂, h₂, hframe₂⟩ := ih h₁ hrest
    exact ⟨groups₂, held₂, h₂, hframe.trans hframe₂⟩

section

variable (h : Kept s groups held)

include h

/-- Lines read from a file at or after the offset read may be fed. -/
theorem Kept.drained (gen : Nat) (offset : Int) (rest : Bytes)
    (hoff : gen = s.gen → s.lastOffset ≤ offset) :
    ∃ groups' held', Kept (s.feedAll (Tail.drainFrom gen offset rest)) groups' held'
      ∧ Feeds s (s.feedAll (Tail.drainFrom gen offset rest)) := by
  refine h.feedAll _ fun l hl hgen => ?_
  obtain ⟨p, hp, rfl⟩ := List.mem_map.mp hl
  have hends : offset < p.2 := linesFrom_ends hp
  have hstart := hoff hgen
  have hbehind := h.behind
  show s.committed < p.2
  omega

/-- Everything held is published. -/
theorem Kept.flushOut : ∃ groups', Kept s.flushOut groups' [] := by
  obtain ⟨gs, hc, hnil⟩ := Assembler.flush_flushes h.passThrough
  have hc' : Assembler.Closes s.asm (s.asm.pending ++ ([] : List Line).map Line.body) gs
      s.asm.flush.1 s.asm.flush.2 := by
    rw [List.map_nil, List.append_nil]
    exact hc
  obtain ⟨groups', held', hcut, hpub, hpend, _⟩ := h.closes _ hc'
  rw [hnil] at hpend
  have hheld : held' = [] := List.map_eq_nil_iff.mp hpend.symm
  subst hheld
  rw [List.append_nil] at hcut
  exact ⟨groups', ⟨hcut, hpub, hnil, fun _ => hnil, h.behind, by simp, h.bookmark, h.handle,
    h.retired⟩⟩

theorem Kept.persist : Kept s.persist groups held := by
  unfold Tail.persist
  split
  next => exact h
  next => exact ⟨h.cut, h.published, h.pending, h.passThrough, h.behind, h.ahead,
      fun _ => Int.le_refl _, h.handle, h.retired⟩

/-- `dirty` only decides when the bookmark is written next. -/
theorem Kept.mark (dirty : Bool) : Kept { s with dirty := dirty } groups held :=
  ⟨h.cut, h.published, h.pending, h.passThrough, h.behind, h.ahead, h.bookmark, h.handle, h.retired⟩

/-- Reading a file from its first byte: nothing is held, and every retired file is of
an earlier generation. -/
theorem Kept.restarted (handle : Option Nat) (hhandle : ∀ g, handle = some g → g ≤ s.gen + 1)
    (draining dirty : Bool) :
    ∃ groups', Kept { s.restarted with handle := handle, draining := draining, dirty := dirty }
      groups' [] := by
  obtain ⟨groups', hflush⟩ := h.flushOut
  have hretired : ∀ r ∈ s.retired, r.gen < s.gen + 1 := by
    intro r hr
    rcases h.retired r hr with hlt | ⟨heq, _⟩
    · omega
    · omega
  have hzero : Kept { s.flushOut with
      lastOffset := 0, committed := 0, bookmark := 0, gen := s.gen + 1
      handle := handle, draining := draining, dirty := dirty } groups' [] :=
    ⟨hflush.cut, hflush.published, hflush.pending, hflush.passThrough, Int.le_refl _, by simp,
      fun _ => Int.le_refl _, hhandle, fun r hr => .inl (hretired r hr)⟩
  refine ⟨groups', ?_⟩
  unfold Tail.restarted Tail.persist
  split
  next hsup =>
    -- a superseded tail leaves the bookmark to its successor
    have hyes : s.superseded = true := hsup
    exact ⟨hzero.cut, hzero.published, hzero.pending, hzero.passThrough, hzero.behind,
      hzero.ahead, fun hno => absurd (hyes.symm.trans hno) (by decide), hzero.handle,
      hzero.retired⟩
  next => exact hzero

theorem Kept.followHandle : ∀ g, s.followHandle = some g → g ≤ s.gen + 1 := by
  intro g hg
  unfold Tail.followHandle at hg
  split at hg
  next =>
    cases hg
    exact Nat.le_refl _
  next => exact Nat.le_succ_of_le (h.handle g hg)

/-- A line's offset lies after the offset read, once a shrink has been noted. -/
theorem Kept.noteShrink {offset : Int} (hpos : 0 < offset) (hne : offset ≠ s.lastOffset) :
    ∃ groups' held', Kept (s.noteShrink offset) groups' held'
      ∧ (s.noteShrink offset).lastOffset < offset
      ∧ (s.noteShrink offset).draining = s.draining := by
  unfold Tail.noteShrink
  split
  next =>
    obtain ⟨groups', h'⟩ := h.restarted s.followHandle h.followHandle s.draining s.dirty
    have hfields : s.restarted.draining = s.draining ∧ s.restarted.dirty = s.dirty
        ∧ s.restarted.lastOffset = 0 := by
      unfold Tail.restarted Tail.persist
      split
      · exact ⟨rfl, rfl, rfl⟩
      · exact ⟨rfl, rfl, rfl⟩
    obtain ⟨hdraining, hdirty, hlast⟩ := hfields
    rw [← hdraining, ← hdirty] at h'
    refine ⟨groups', [], h', ?_, hdraining⟩
    show s.restarted.lastOffset < offset
    rw [hlast]
    exact hpos
  next hnot => exact ⟨groups, held, h, by omega, rfl⟩

theorem Kept.commitLine {before : Int} {emitted : Nat} {l : Line} (hbefore : before < s.lastOffset)
    (hl : l.ends = s.lastOffset) (hcommitted : s.committed ≤ before)
    (hheld : emitted ≠ 0 → held = [] ∨ held = [l]) :
    Kept (s.commitLine before emitted) groups held := by
  unfold Tail.commitLine
  split
  next hidle =>
    have hnil : held = [] := by
      have hpending : ¬ s.asm.pending ≠ [] := by
        rw [← Assembler.isPending_iff]
        simpa using hidle
      have hmap := h.pending
      rw [not_not.mp hpending] at hmap
      exact List.map_eq_nil_iff.mp hmap.symm
    subst hnil
    exact ⟨h.cut, h.published, h.pending, h.passThrough, Int.le_refl _, by simp,
      fun hsup => Int.le_trans (h.bookmark hsup) h.behind, h.handle, h.retired⟩
  next =>
    split
    next hemitted =>
      refine ⟨h.cut, h.published, h.pending, h.passThrough, Int.le_of_lt hbefore, ?_,
        fun hsup => Int.le_trans (h.bookmark hsup) hcommitted, h.handle, h.retired⟩
      intro x hx _
      show before < x.ends
      rcases hheld (Nat.pos_iff_ne_zero.mp hemitted) with hnil | hone
      · rw [hnil] at hx
        cases hx
      · rw [hone] at hx
        rw [List.mem_singleton.mp hx, hl]
        exact hbefore
    next => exact h

end

theorem Kept.takeLine (h : Kept s groups held) (text : Bytes) {offset : Int} (flushDue : Bool)
    (hdraining : s.draining = false) (hpos : 0 < offset) (hne : offset ≠ s.lastOffset) :
    ∃ groups' held', Kept (s.takeLine text offset flushDue) groups' held' := by
  obtain ⟨groups₁, held₁, h₁, hlt, hdraining₁⟩ := h.noteShrink hpos hne
  rw [hdraining] at hdraining₁
  unfold Tail.takeLine
  generalize s.noteShrink offset = s₁ at h₁ hlt hdraining₁ ⊢
  have hmoved : Kept { s₁ with lastOffset := offset, dirty := true } groups₁ held₁ := by
    refine ⟨h₁.cut, h₁.published, h₁.pending, h₁.passThrough, ?_, h₁.ahead, h₁.bookmark,
      h₁.handle, fun r hr => ?_⟩
    · have hbehind := h₁.behind
      show s₁.committed ≤ offset
      omega
    · rcases h₁.retired r hr with hold | ⟨_, hdrain, _⟩
      · exact .inl hold
      · rw [hdraining₁] at hdrain
        cases hdrain
  have hbehind₁ := h₁.behind
  obtain ⟨groups₂, held₂, h₂, hheld₂⟩ := hmoved.feed ⟨s₁.gen, text, offset⟩ (fun _ => by
    show s₁.committed < offset
    omega)
  have hframe := Tail.feed_feeds { s₁ with lastOffset := offset, dirty := true }
    ⟨s₁.gen, text, offset⟩
  dsimp only
  generalize Tail.feed { s₁ with lastOffset := offset, dirty := true } ⟨s₁.gen, text, offset⟩ = r
    at h₂ hheld₂ hframe ⊢
  have hlast : r.1.lastOffset = offset := hframe.lastOffset
  have hcommitted : r.1.committed = s₁.committed := hframe.committed
  have h₃ : Kept (r.1.commitLine s₁.lastOffset r.2) groups₂ held₂ :=
    h₂.commitLine (by rw [hlast]; exact hlt) (l := ⟨s₁.gen, text, offset⟩) hlast.symm
      (by rw [hcommitted]; exact hbehind₁) hheld₂
  refine ⟨groups₂, held₂, ?_⟩
  split
  next => exact h₃.persist.mark false
  next => exact h₃

/-- One look at each retired file: its lines end after its offset. -/
theorem Kept.pollRetired (rs : List RetiredFile) :
    ∀ {s : Tail} {groups : List (List Line)} {held : List Line} (looks : List Look),
      Kept s groups held → rs.length = looks.length →
      (∀ r ∈ rs, r.gen < s.gen
        ∨ (r.gen = s.gen ∧ s.draining = true ∧ s.lastOffset ≤ r.offset)) →
      ∃ groups' held', Kept (s.pollRetired rs looks).1 groups' held'
        ∧ Feeds s (s.pollRetired rs looks).1
        ∧ ∀ r ∈ (s.pollRetired rs looks).2, r.gen < s.gen
          ∨ (r.gen = s.gen ∧ s.draining = true ∧ s.lastOffset ≤ r.offset) := by
  induction rs with
  | nil =>
    intro s groups held looks h _ _
    unfold Tail.pollRetired
    exact ⟨groups, held, h, Feeds.refl s, by simp⟩
  | cons r rs ih =>
    intro s groups held looks h hlen hrs
    cases looks with
    | nil => cases hlen
    | cons look looks =>
      have hr := hrs r (List.mem_cons_self ..)
      have hstart : r.gen = s.gen → s.lastOffset ≤ r.offset := by
        intro hgen
        rcases hr with hold | ⟨_, _, hoff⟩
        · omega
        · exact hoff
      obtain ⟨groups₁, held₁, h₁, hframe₁⟩ := h.drained r.gen r.offset look.rest hstart
      unfold Tail.pollRetired
      generalize s.feedAll (Tail.drainFrom r.gen r.offset look.rest) = s₁ at h₁ hframe₁ ⊢
      obtain ⟨groups₂, held₂, h₂, hframe₂, hkept⟩ := ih looks h₁ (by simpa using hlen) (by
        intro x hx
        rw [hframe₁.gen, hframe₁.draining, hframe₁.lastOffset]
        exact hrs x (List.mem_cons_of_mem r hx))
      rw [hframe₁.gen, hframe₁.draining, hframe₁.lastOffset] at hkept
      refine ⟨groups₂, held₂, h₂, hframe₁.trans hframe₂, ?_⟩
      intro x hx
      split at hx
      next => exact hkept x hx
      next =>
        rcases List.mem_cons.mp hx with hx | hx
        · rw [hx]
          rcases hr with hold | ⟨hgen, hdrain, hoff⟩
          · exact .inl hold
          · exact .inr ⟨hgen, hdrain, Int.le_trans hoff (readTo_ge _ _ _)⟩
        · exact hkept x hx

theorem Kept.drainHandle (h : Kept s groups held) (hno : s.draining = false) (rest : Bytes) :
    ∃ groups' held', Kept (s.drainHandle rest) groups' held' := by
  have hearlier : ∀ r ∈ s.retired, r.gen < s.gen := by
    intro r hr
    rcases h.retired r hr with hold | ⟨_, hdrain, _⟩
    · exact hold
    · rw [hno] at hdrain
      cases hdrain
  unfold Tail.drainHandle
  split
  next =>
    exact ⟨groups, held, h.cut, h.published, h.pending, h.passThrough, h.behind, h.ahead,
      h.bookmark, h.handle, fun r hr => .inl (hearlier r hr)⟩
  next gen hgen =>
    obtain ⟨groups', held', h', hframe⟩ :=
      h.drained gen s.lastOffset rest (fun _ => Int.le_refl _)
    refine ⟨groups', held', h'.cut, h'.published, h'.pending, h'.passThrough, h'.behind,
      h'.ahead, h'.bookmark, (fun _ hnone => nomatch hnone), fun r hr => ?_⟩
    show r.gen < (s.feedAll _).gen ∨ _
    rw [hframe.gen]
    rcases List.mem_append.mp hr with hr | hr
    · exact .inl (hearlier r hr)
    · -- the drained file is retired where the drain stopped
      rw [List.mem_singleton.mp hr]
      rcases Nat.lt_or_eq_of_le (h.handle gen hgen) with hold | hcur
      · exact .inl hold
      · refine .inr ⟨hcur, rfl, ?_⟩
        show (s.feedAll _).lastOffset ≤ _
        rw [hframe.lastOffset]
        exact readTo_ge _ _ _

/-- **One turn of the loop.** -/
theorem Kept.act (h : Kept s groups held) {e : Event} (he : s.Enabled e) :
    ∃ groups' held', Kept (s.act e) groups' held' := by
  cases e with
  | line text offset flushDue =>
    obtain ⟨hdraining, hpos, hne⟩ := he
    exact h.takeLine text flushDue hdraining hpos hne
  | noLine => exact ⟨groups, held, h⟩
  | draining rest => exact h.drainHandle he rest
  | reopened opened inPlace =>
    obtain ⟨groups', h'⟩ := h.restarted
      (if opened then some (s.gen + 1) else if inPlace then s.followHandle else s.handle) (by
        intro g hg
        split at hg
        next =>
          cases hg
          exact Nat.le_refl _
        next =>
          split at hg
          next => exact h.followHandle g hg
          next => exact Nat.le_succ_of_le (h.handle g hg)) false false
    exact ⟨groups', [], h'⟩
  | pollRetired looks =>
    have hlen : looks.length = s.retired.length := he
    obtain ⟨groups', held', h', hframe, hretired⟩ := h.pollRetired s.retired looks hlen.symm h.retired
    refine ⟨groups', held', h'.cut, h'.published, h'.pending, h'.passThrough, h'.behind,
      h'.ahead, h'.bookmark, h'.handle, fun r hr => ?_⟩
    show r.gen < (s.pollRetired _ _).1.gen ∨ (r.gen = (s.pollRetired _ _).1.gen
      ∧ (s.pollRetired _ _).1.draining = true ∧ (s.pollRetired _ _).1.lastOffset ≤ r.offset)
    rw [hframe.gen, hframe.draining, hframe.lastOffset]
    exact hretired r hr
  | idle =>
    obtain ⟨groups', h'⟩ := h.flushOut
    exact ⟨groups', [], h'.cut, h'.published, h'.pending, h'.passThrough, Int.le_refl _, by simp,
      fun hsup => Int.le_trans (h.bookmark hsup) h.behind, h'.handle, h'.retired⟩
  | ticker =>
    refine ⟨groups, held, ?_⟩
    show Kept s.tick groups held
    unfold Tail.tick
    split
    next => exact h.persist.mark false
    next => exact h
  | supersede =>
    exact ⟨groups, held, h.cut, h.published, h.pending, h.passThrough, h.behind, h.ahead,
      (fun hno => nomatch hno), h.handle, h.retired⟩
  | close =>
    obtain ⟨groups', h'⟩ := h.flushOut
    have hcommitted : Kept (if s.asm.flush.1 ≠ [] then
        { s.flushOut with committed := s.lastOffset } else s.flushOut) groups' [] := by
      split
      next =>
        exact ⟨h'.cut, h'.published, h'.pending, h'.passThrough, Int.le_refl _, by simp,
          fun hsup => Int.le_trans (h.bookmark hsup) h.behind, h'.handle, h'.retired⟩
      next => exact h'
    have hpersist := hcommitted.persist
    exact ⟨groups', [], hpersist.cut, hpersist.published, hpersist.pending, hpersist.passThrough,
      hpersist.behind, hpersist.ahead, hpersist.bookmark, hpersist.handle, hpersist.retired⟩

end Kept

theorem Kept.start (cfg : MultilineConfig) (maxBytesPerLine startOffset : Int) :
    Kept (Tail.start cfg maxBytesPerLine startOffset) [] [] where
  cut := rfl
  published := rfl
  pending := rfl
  passThrough := fun _ => rfl
  behind := Int.le_refl _
  ahead := by simp
  bookmark := fun _ => Int.le_refl _
  handle := by
    intro g hg
    cases hg
    exact Nat.le_refl _
  retired := by
    intro r hr
    cases hr

theorem Kept.step {s s' : Tail} {groups : List (List Line)} {held : List Line}
    (h : Kept s groups held) {e : Event} (hstep : s.step e = some s') :
    ∃ groups' held', Kept s' groups' held' := by
  unfold Tail.step at hstep
  split at hstep
  next => cases hstep
  next hon =>
    have henabled : s.Enabled e := by
      by_contra hno
      exact hon (.inr hno)
    cases hstep
    exact h.act henabled

/-- Where the lines fed so far are: `groups` were handed to `publish`, one record each,
and `held` is in the assembler. -/
structure Placed (s : Tail) (groups : List (List Line)) (held : List Line) : Prop where
  cut : Cut s.fed groups held
  published : s.published = groups.map (recordOf s.asm)
  pending : s.asm.pending = held.map Line.body

/-- **The committed offset never passes an unpublished line.** For every multiline
configuration and every sequence of events, a line of the current file that ends at or
before `committed` was published in some record and is not held, and a tail that owns
the bookmark reads every line not yet published again when it is restarted there. -/
theorem committed_published (cfg : MultilineConfig) (maxBytesPerLine startOffset : Int)
    (events : List Event) {s : Tail}
    (hrun : runSchedule Tail.step (Tail.start cfg maxBytesPerLine startOffset) events = some s) :
    ∃ groups held, Placed s groups held
      ∧ (∀ l ∈ s.fed, l.gen = s.gen → l.ends ≤ s.committed → l ∈ groups.flatten)
      ∧ (∀ l ∈ held, l.gen = s.gen → s.committed < l.ends)
      ∧ (s.superseded = false → ∀ l ∈ s.fed, l.gen = s.gen → l ∉ groups.flatten →
          s.bookmark < l.ends) := by
  obtain ⟨groups, held, h⟩ : ∃ groups held, Kept s groups held := by
    refine runSchedule_keeps (I := fun s => ∃ groups held, Kept s groups held)
      (fun s e s' hI hstep => ?_) events
      ⟨[], [], Kept.start cfg maxBytesPerLine startOffset⟩ hrun
    obtain ⟨groups, held, h⟩ := hI
    exact h.step hstep
  refine ⟨groups, held, ⟨h.cut, h.published, h.pending⟩, ?_, h.ahead, ?_⟩
  · intro l hl hgen hends
    rcases h.cut.mem hl with hpub | hheld
    · exact hpub
    · have hahead := h.ahead l hheld hgen
      omega
  · intro hsup l hl hgen hunpub
    rcases h.cut.mem hl with hpub | hheld
    · exact absurd hpub hunpub
    · have hahead := h.ahead l hheld hgen
      have hbookmark := h.bookmark hsup
      omega

/-- Records start with a capital A. -/
def capitals : MultilineConfig where
  compiled := some fun t => t.head? == some 65
  negate := false
  matchMode := .after
  flushTimeout := 5

/-- The second record is held, so the bookmark stays before it although the library has
read past it. -/
theorem committed_published_held :
    ∃ s, runSchedule Tail.step (Tail.start capitals 0 0)
        [.line [65] 2 false, .line [98] 4 false, .line [65, 99] 7 true] = some s
      ∧ s.committed = 4 ∧ s.bookmark = 4 ∧ s.lastOffset = 7 ∧ s.published = [[65, 10, 98]]
      ∧ ∃ groups held, Placed s groups held
        ∧ (∀ l ∈ s.fed, l.gen = s.gen → l.ends ≤ s.committed → l ∈ groups.flatten)
        ∧ (∀ l ∈ held, l.gen = s.gen → s.committed < l.ends)
        ∧ (s.superseded = false → ∀ l ∈ s.fed, l.gen = s.gen → l ∉ groups.flatten →
            s.bookmark < l.ends) :=
  ⟨_, rfl, rfl, rfl, rfl, rfl, committed_published capitals 0 0
    [.line [65] 2 false, .line [98] 4 false, .line [65, 99] 7 true] rfl⟩

end SenhubAgent.FileTail

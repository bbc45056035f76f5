import Mathlib.Algebra.Ring.Int.Defs
import Mathlib.Data.List.Forall2
import SenhubAgent.LogParse.Multiline

/-!
# The records of a sequence of lines

What `Append` over the lines followed by `Flush` returns, against the lines as a whole: the
records are those of consecutive groups of lines, none missing and none twice. A record is cut
between lines, so one of two or more lines is within the cap and whole, and only a single line
longer than the cap is truncated.

The cap test counts ahead: `curLen` is the length the held lines have with a newline after each,
so `curLen + len(line)` is the length of the record with the line in it (`Sized`).
-/

namespace SenhubAgent.LogParse

open SenhubAgent.Lib

/-- `Append` for each line in turn. -/
def Assembler.appendAll (a : Assembler) : List Bytes → List Bytes × Assembler
  | [] => ([], a)
  | l :: ls =>
    let r := a.append l
    let r' := appendAll r.2 ls
    (r.1 ++ r'.1, r'.2)

/-- `Append` over the lines, then `Flush`. -/
def foldRecords (cfg : MultilineConfig) (maxLen : Int) (lines : List Bytes) : List Bytes :=
  let r := (newAssembler cfg maxLen).appendAll lines
  r.1 ++ r.2.flush.1

/-- The record of a group: two or more lines joined, within the cap; or one line, truncated. -/
def IsRecord (maxLen : Int) (group : List Bytes) (record : Bytes) : Prop :=
  (2 ≤ group.length ∧ record = [newline].intercalate group ∧ (record.length : Int) ≤ maxLen) ∨
    ∃ line, group = [line] ∧ record = truncate line maxLen

/-! ## Lengths -/

theorem joinLines_eq (group : List Bytes) : joinLines group = [newline].intercalate group := by
  cases group with
  | nil => rfl
  | cons l ls =>
    have hfold : ∀ (ls : List Bytes) (acc : Bytes),
        ls.foldl (fun out l => out ++ newline :: l) acc = [newline].intercalate (acc :: ls) := by
      intro ls
      induction ls with
      | nil => intro acc; simp
      | cons l ls ih =>
        intro acc
        rw [List.foldl_cons, ih, List.intercalate_cons_cons]
        cases ls with
        | nil => simp
        | cons x ls => simp [List.intercalate_cons_cons]
    exact hfold ls l

/-- The length of the lines with a newline after each. -/
def spaced (lines : List Bytes) : Int := (lines.map fun l => (l.length : Int) + 1).sum

theorem spaced_append (xs ys : List Bytes) : spaced (xs ++ ys) = spaced xs + spaced ys := by
  rw [spaced, List.map_append, List.sum_append]
  rfl

theorem length_joined {group : List Bytes} (h : group ≠ []) :
    (([newline].intercalate group).length : Int) + 1 = spaced group := by
  induction group with
  | nil => exact absurd rfl h
  | cons l ls ih =>
    cases ls with
    | nil => simp [spaced]
    | cons x ls =>
      have hrest := ih (List.cons_ne_nil _ _)
      rw [List.intercalate_cons_cons]
      simp only [List.length_append, List.length_singleton]
      have hcons : spaced (l :: x :: ls) = (l.length : Int) + 1 + spaced (x :: ls) := by
        simp [spaced]
      omega

namespace Assembler

/-- The group is within the cap, or a single line. -/
def Fits (a : Assembler) (group : List Bytes) : Prop :=
  group ≠ [] ∧ (2 ≤ group.length → (([newline].intercalate group).length : Int) ≤ a.maxLen)

/-- `curLen` counts what is held, and what is held fits. -/
structure Sized (a : Assembler) : Prop where
  curLen : a.curLen = spaced a.pending
  fits : a.pending ≠ [] → a.Fits a.pending
  passThrough : a.enabled = false → a.pending = []

/-- The records of `gs`, cut off `lines`, and the rest held. -/
structure Folds (a : Assembler) (lines : List Bytes) (gs : List (List Bytes)) (out : List Bytes)
    (a' : Assembler) : Prop extends Closes a lines gs out a' where
  sized : a'.Sized
  each : ∀ g ∈ gs, a.Fits g

variable {a : Assembler}

theorem fits_singleton (a : Assembler) (l : Bytes) : a.Fits [l] :=
  ⟨List.cons_ne_nil _ _, fun h => absurd h (by decide : ¬ 2 ≤ 1)⟩

/-- A line for which there is room. -/
theorem Sized.fits_push (h : a.Sized) {line : Bytes} (hroom : a.full line = false) :
    a.Fits (a.pending ++ [line]) := by
  refine ⟨List.concat_ne_nil _ _, fun hlen => ?_⟩
  have hjoined := length_joined (List.concat_ne_nil line a.pending)
  have hline : spaced [line] = (line.length : Int) + 1 := by simp [spaced]
  rw [spaced_append, ← h.curLen, hline] at hjoined
  have hheld : 0 < a.pending.length := by
    rw [List.length_append, List.length_singleton] at hlen
    omega
  rw [full, decide_eq_true hheld, Bool.true_and, decide_eq_false_iff_not] at hroom
  omega

theorem Sized.push (h : a.Sized) (line : Bytes) (hon : a.enabled = true)
    (hroom : a.full line = false) : (a.push line).Sized where
  curLen := by
    show a.curLen + line.length + 1 = spaced (a.pending ++ [line])
    rw [spaced_append, h.curLen]
    simp [spaced]
    omega
  fits := fun _ => h.fits_push hroom
  passThrough := fun hoff => absurd (hon.symm.trans hoff) (by decide)

/-- Nothing is held after the record in progress was sent. -/
theorem sized_cleared (a : Assembler) : ({ a with pending := [], curLen := 0 } : Assembler).Sized :=
  ⟨rfl, fun h => absurd rfl h, fun _ => rfl⟩

/-- **One line**: the records that come out are those of groups that fit. -/
theorem append_folds (h : a.Sized) (line : Bytes) :
    ∃ gs, Folds a (a.pending ++ [line]) gs (a.append line).1 (a.append line).2 := by
  rcases a.append_cases line with ⟨hoff, happ⟩ | ⟨hon, r, hr, happ⟩
  · have hnil := h.passThrough hoff
    rw [happ, hnil]
    refine ⟨[[line]], ⟨⟨⟨rfl, rfl, h.passThrough⟩, rfl, ?_⟩, h, fun g hg => ?_⟩⟩
    · show [[line]].flatten ++ a.pending = [] ++ [line]
      rw [hnil]
      rfl
    · rw [List.mem_singleton.mp hg]
      exact fits_singleton a line
  · -- what was held goes on with the line, or was sent before it
    have hstart : (r = ([], a) ∧ a.full line = false) ∨ (a.pending ≠ [] ∧
        r = ([a.record a.pending], { a with pending := [], curLen := 0 })) := by
      rcases hr with hr | hr
      · exact .inl hr
      · by_cases hnil : a.pending = []
        · rw [flushPending_of_nil hnil] at hr
          exact .inl ⟨hr, by simp [full, hnil]⟩
        · rw [flushPending_of_pending hnil] at hr
          exact .inr ⟨hnil, hr⟩
    have henabled : ∀ {P : Prop}, a.enabled = false → P :=
      fun hoff => absurd (hon.symm.trans hoff) (by decide)
    rcases happ with happ | happ
    · rw [happ]
      rcases hstart with ⟨rfl, hroom⟩ | ⟨hheld, rfl⟩
      · exact ⟨[], push_closes hon line, h.push line hon hroom, List.forall_mem_nil _⟩
      · have hclear := (sized_cleared a).push line hon rfl
        refine ⟨[a.pending], ⟨⟨⟨rfl, rfl, henabled⟩, rfl, ?_⟩, hclear, fun g hg => ?_⟩⟩
        · show [a.pending].flatten ++ ([] ++ [line]) = a.pending ++ [line]
          simp
        · rw [List.mem_singleton.mp hg]
          exact h.fits hheld
    · have hne : (r.2.push line).pending ≠ [] := List.concat_ne_nil _ _
      rw [happ, flushPending_of_pending hne]
      rcases hstart with ⟨rfl, hroom⟩ | ⟨hheld, rfl⟩
      · refine ⟨[a.pending ++ [line]],
          ⟨⟨⟨rfl, rfl, henabled⟩, rfl, ?_⟩, sized_cleared _, fun g hg => ?_⟩⟩
        · show [a.pending ++ [line]].flatten ++ [] = a.pending ++ [line]
          simp
        · rw [List.mem_singleton.mp hg]
          exact h.fits_push hroom
      · refine ⟨[a.pending, [line]],
          ⟨⟨⟨rfl, rfl, henabled⟩, rfl, ?_⟩, sized_cleared _, fun g hg => ?_⟩⟩
        · show [a.pending, [line]].flatten ++ [] = a.pending ++ [line]
          simp
        · rcases List.mem_cons.mp hg with rfl | hg
          · exact h.fits hheld
          · rw [List.mem_singleton.mp hg]
            exact fits_singleton a line

theorem Folds.trans {a' a'' : Assembler} {lines more : List Bytes} {gs hs : List (List Bytes)}
    {out out' : List Bytes} (h : Folds a lines gs out a')
    (h' : Folds a' (a'.pending ++ more) hs out' a'') :
    Folds a (lines ++ more) (gs ++ hs) (out ++ out') a'' := by
  refine ⟨h.toCloses.trans h'.toCloses, h'.sized, fun g hg => ?_⟩
  rcases List.mem_append.mp hg with hg | hg
  · exact h.each g hg
  · have hfits := h'.each g hg
    unfold Fits at hfits ⊢
    rw [h.maxLen] at hfits
    exact hfits

/-- **Every line**: by induction, with what is held as the invariant. -/
theorem appendAll_folds : ∀ (lines : List Bytes) {a : Assembler}, a.Sized →
    ∃ gs, Folds a (a.pending ++ lines) gs (a.appendAll lines).1 (a.appendAll lines).2 := by
  intro lines
  induction lines with
  | nil =>
    intro a h
    refine ⟨[], ⟨⟨⟨rfl, rfl, h.passThrough⟩, rfl, ?_⟩, h, nofun⟩⟩
    show [] ++ a.pending = a.pending ++ []
    rw [List.append_nil, List.nil_append]
  | cons l ls ih =>
    intro a h
    obtain ⟨gs, hfirst⟩ := append_folds h l
    obtain ⟨hs, hrest⟩ := ih hfirst.sized
    refine ⟨gs ++ hs, ?_⟩
    have hall := hfirst.trans hrest
    rw [List.append_assoc] at hall
    exact hall

theorem flush_folds (h : a.Sized) : ∃ gs, Folds a (a.pending ++ []) gs a.flush.1 a.flush.2 ∧
    a.flush.2.pending = [] := by
  rw [List.append_nil]
  unfold flush
  split
  next =>
    by_cases hnil : a.pending = []
    · rw [flushPending_of_nil hnil]
      exact ⟨[], ⟨⟨⟨⟨rfl, rfl, h.passThrough⟩, rfl, rfl⟩, h, nofun⟩, hnil⟩⟩
    · rw [flushPending_of_pending hnil]
      refine ⟨[a.pending],
        ⟨⟨⟨rfl, rfl, fun _ => rfl⟩, rfl, ?_⟩, sized_cleared a, fun g hg => ?_⟩, rfl⟩
      · show [a.pending].flatten ++ [] = a.pending
        simp
      · rw [List.mem_singleton.mp hg]
        exact h.fits hnil
  next hoff =>
    have hnil := h.passThrough (by simpa using hoff)
    exact ⟨[], ⟨⟨⟨⟨rfl, rfl, h.passThrough⟩, rfl, rfl⟩, h, nofun⟩, hnil⟩⟩

theorem newAssembler_sized (cfg : MultilineConfig) (maxLen : Int) :
    (newAssembler cfg maxLen).Sized := ⟨rfl, fun h => absurd rfl h, fun _ => rfl⟩

/-- A group that fits has the record the cap promises. -/
theorem Fits.isRecord {group : List Bytes} (h : a.Fits group) :
    IsRecord a.maxLen group (a.record group) := by
  obtain ⟨hne, hlen⟩ := h
  unfold record
  rw [joinLines_eq]
  cases group with
  | nil => exact absurd rfl hne
  | cons l ls =>
    cases ls with
    | nil => exact .inr ⟨l, rfl, by simp⟩
    | cons x ls =>
      have hcap := hlen (by simp)
      have hwhole : truncate ([newline].intercalate (l :: x :: ls)) a.maxLen =
          [newline].intercalate (l :: x :: ls) := if_pos (.inr hcap)
      rw [hwhole]
      exact .inl ⟨by simp, rfl, hcap⟩

/-- Without a pattern each line is a record. -/
theorem appendAll_disabled : ∀ (lines : List Bytes) {a : Assembler}, a.enabled = false →
    a.appendAll lines = (lines.map fun l => truncate l a.maxLen, a) := by
  intro lines
  induction lines with
  | nil => intro a _; rfl
  | cons l ls ih =>
    intro a hoff
    have happ : a.append l = ([truncate l a.maxLen], a) := if_pos (by simp [hoff])
    rw [appendAll, happ, ih hoff]
    rfl

end Assembler

/-- **Folding loses nothing.** The records of a sequence of lines are those of consecutive
groups that together are the lines; without a pattern each line is a group. -/
theorem foldRecords_partition (cfg : MultilineConfig) {maxLen : Int} (hmax : 0 < maxLen)
    (lines : List Bytes) :
    ∃ groups : List (List Bytes), groups.flatten = lines ∧
      List.Forall₂ (IsRecord maxLen) groups (foldRecords cfg maxLen lines) ∧
      (cfg.compiled = none → groups = lines.map fun l => [l]) := by
  have hcap : (newAssembler cfg maxLen).maxLen = maxLen := if_neg (Int.not_le.mpr hmax)
  by_cases hon : cfg.compiled = none
  · have hoff : (newAssembler cfg maxLen).enabled = false := by
      show cfg.compiled.isSome = false
      rw [hon]
      rfl
    refine ⟨lines.map fun l => [l], List.flatMap_singleton' lines, ?_, fun _ => rfl⟩
    unfold foldRecords
    rw [Assembler.appendAll_disabled lines hoff, hcap]
    dsimp only
    rw [Assembler.flush, hoff]
    simp only [Bool.false_eq_true, if_false, List.append_nil]
    rw [List.forall₂_map_left_iff, List.forall₂_map_right_iff]
    exact List.forall₂_same.mpr fun l _ => .inr ⟨l, rfl, rfl⟩
  · obtain ⟨gs, hlines⟩ := Assembler.appendAll_folds lines (Assembler.newAssembler_sized cfg maxLen)
    obtain ⟨hs, hflush, hnil⟩ := Assembler.flush_folds hlines.sized
    have hall := hlines.trans hflush
    refine ⟨gs ++ hs, ?_, ?_, fun hnone => absurd hnone hon⟩
    · have hcut : (gs ++ hs).flatten ++ _ = _ := hall.cut
      rw [hnil, List.append_nil, List.append_nil] at hcut
      exact hcut
    · have hrecords := hall.records
      unfold foldRecords
      rw [hrecords, List.forall₂_map_right_iff]
      refine List.forall₂_same.mpr fun g hg => ?_
      have hrecord := (hall.each g hg).isRecord
      rw [hcap] at hrecord
      exact hrecord

/-- Records start with an X. -/
def startsWithX : MultilineConfig where
  compiled := some fun t => t.head? == some 88
  negate := false
  matchMode := .after
  flushTimeout := 0

/-- `Xhead`, ` cont1`, ` cont2`, ` cont3` -/
def headAndThree : List Bytes :=
  [[88, 104, 101, 97, 100], [32, 99, 111, 110, 116, 49], [32, 99, 111, 110, 116, 50],
    [32, 99, 111, 110, 116, 51]]

/-- Under a cap of 14 they are two records of two lines. -/
theorem foldRecords_partition_capped :
    foldRecords startsWithX 14 headAndThree =
      [[88, 104, 101, 97, 100, 10, 32, 99, 111, 110, 116, 49],
        [32, 99, 111, 110, 116, 50, 10, 32, 99, 111, 110, 116, 51]] ∧
    ∃ groups : List (List Bytes), groups.flatten = headAndThree ∧
      List.Forall₂ (IsRecord 14) groups (foldRecords startsWithX 14 headAndThree) ∧
      (startsWithX.compiled = none → groups = headAndThree.map fun l => [l]) :=
  ⟨by decide, foldRecords_partition startsWithX (by decide) _⟩

end SenhubAgent.LogParse

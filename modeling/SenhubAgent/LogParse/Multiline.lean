import SenhubAgent.Lib.Groups
import SenhubAgent.Time
import SenhubAgent.Lib.Text

/-!
# Folding lines into records

`logparse.Assembler` folds the physical lines of one file into logical records. A
line may open a record, continue the one in progress or close it, depending on the
pattern, its negation and the match mode; a record that would pass the cap is cut
between lines. Without a pattern every line is a record of its own.

What a caller relies on is `append_appends` and `flush_flushes`: the records a call
returns are the texts of consecutive groups of what was held and the new line, the
rest stays held, and once a call has returned a record at most the new line is held.

Mirroring notes:
- A Go string is the list of its bytes; `Truncate` cuts between bytes.
- The compiled pattern is an arbitrary test on lines.
- `flushPending` is the unexported `flush`, `flush` the exported `Flush`.
-/

namespace SenhubAgent.LogParse

open SenhubAgent.Lib

def newline : UInt8 := 10

/-- `DefaultMaxBytesPerLine`, 1 MiB. -/
def defaultMaxBytesPerLine : Int := 1048576

inductive MatchMode where
  | after
  | before
deriving DecidableEq

structure MultilineConfig where
  compiled : Option (Bytes → Bool)
  negate : Bool
  matchMode : MatchMode
  flushTimeout : Duration

/-- Cut `s` to `max` bytes; no cap when `max` is not positive. -/
def truncate (s : Bytes) (max : Int) : Bytes :=
  if max ≤ 0 ∨ (s.length : Int) ≤ max then s else s.take max.toNat

def joinLines : List Bytes → Bytes
  | [] => []
  | l :: ls => ls.foldl (fun out l => out ++ newline :: l) l

structure Assembler where
  cfg : MultilineConfig
  maxLen : Int
  pending : List Bytes
  curLen : Int

def newAssembler (cfg : MultilineConfig) (maxLen : Int) : Assembler where
  cfg := cfg
  maxLen := if maxLen ≤ 0 then defaultMaxBytesPerLine else maxLen
  pending := []
  curLen := 0

namespace Assembler

def enabled (a : Assembler) : Bool := a.cfg.compiled.isSome

def matchesLine (a : Assembler) (line : Bytes) : Bool :=
  match a.cfg.compiled with
  | none => false
  | some re => if a.cfg.negate then !re line else re line

def isPending (a : Assembler) : Bool := decide (0 < a.pending.length)

/-- Whether `line` would take the record in progress past the cap. -/
def full (a : Assembler) (line : Bytes) : Bool :=
  decide (0 < a.pending.length) && decide (a.maxLen < a.curLen + line.length)

def push (a : Assembler) (line : Bytes) : Assembler :=
  -- one more for the joining newline
  { a with pending := a.pending ++ [line], curLen := a.curLen + line.length + 1 }

def flushPending (a : Assembler) : List Bytes × Assembler :=
  if a.pending.length = 0 then ([], a)
  else ([truncate (joinLines a.pending) a.maxLen], { a with pending := [], curLen := 0 })

def flush (a : Assembler) : List Bytes × Assembler :=
  if a.enabled then a.flushPending else ([], a)

/-- Feed one physical line; the completed records, usually none or one. -/
def append (a : Assembler) (line : Bytes) : List Bytes × Assembler :=
  if !a.enabled then ([truncate line a.maxLen], a)
  else match a.cfg.matchMode with
  | .before =>
    let r := if a.full line then a.flushPending else ([], a)
    let a := r.2.push line
    if a.matchesLine line then
      let r' := a.flushPending
      (r.1 ++ r'.1, r'.2)
    else (r.1, a)
  | .after =>
    if a.matchesLine line then
      let r := a.flushPending
      (r.1, r.2.push line)
    else if a.full line then
      -- carry on with this line as the start of the next record
      let r := a.flushPending
      (r.1, r.2.push line)
    else ([], a.push line)

/-! ## What a call does -/

/-- The text of a group of lines. -/
def record (a : Assembler) (group : List Bytes) : Bytes := truncate (joinLines group) a.maxLen

/-- The assembler keeps its configuration and, without a pattern, holds nothing. -/
structure Follows (a a' : Assembler) : Prop where
  cfg : a'.cfg = a.cfg
  maxLen : a'.maxLen = a.maxLen
  passThrough : a'.enabled = false → a'.pending = []

/-- `out` are the records of the groups `gs` cut off `lines`; the rest is held. -/
structure Closes (a : Assembler) (lines : List Bytes) (gs : List (List Bytes)) (out : List Bytes)
    (a' : Assembler) : Prop extends Follows a a' where
  records : out = gs.map a.record
  cut : Cut lines gs a'.pending

theorem isPending_iff (a : Assembler) : a.isPending = true ↔ a.pending ≠ [] := by
  unfold isPending
  rw [decide_eq_true_eq, List.length_pos_iff]

/-- `flushPending` closes all that is held. -/
theorem flushPending_closes (a : Assembler) :
    ∃ gs, Closes a a.pending gs a.flushPending.1 a.flushPending.2
      ∧ a.flushPending.2.pending = [] := by
  unfold flushPending
  split
  next hnil =>
    have hpending := List.eq_nil_of_length_eq_zero hnil
    exact ⟨[], ⟨⟨rfl, rfl, fun _ => hpending⟩, rfl, rfl⟩, hpending⟩
  next =>
    refine ⟨[a.pending], ⟨⟨rfl, rfl, fun _ => rfl⟩, rfl, ?_⟩, rfl⟩
    show [a.pending].flatten ++ [] = a.pending
    simp

variable {a : Assembler} {line : Bytes}

theorem flush_flushes (hpass : a.enabled = false → a.pending = []) :
    ∃ gs, Closes a a.pending gs a.flush.1 a.flush.2 ∧ a.flush.2.pending = [] := by
  unfold flush
  split
  next => exact flushPending_closes a
  next hoff =>
    have hpending := hpass (by simpa using hoff)
    exact ⟨[], ⟨⟨rfl, rfl, fun _ => hpending⟩, rfl, rfl⟩, hpending⟩

theorem push_closes (hon : a.enabled = true) (line : Bytes) :
    Closes a (a.pending ++ [line]) [] [] (a.push line) where
  cfg := rfl
  maxLen := rfl
  passThrough := fun hoff => by
    have : a.enabled = false := hoff
    rw [hon] at this
    cases this
  records := rfl
  cut := rfl

/-- Two calls in a row; the second cuts what the first held and the lines since. -/
theorem Closes.trans {a' a'' : Assembler} {lines more : List Bytes} {gs hs : List (List Bytes)}
    {out out' : List Bytes} (h : Closes a lines gs out a')
    (h' : Closes a' (a'.pending ++ more) hs out' a'') :
    Closes a (lines ++ more) (gs ++ hs) (out ++ out') a'' where
  cfg := h'.cfg.trans h.cfg
  maxLen := h'.maxLen.trans h.maxLen
  passThrough := h'.passThrough
  records := by
    have hrecord : a'.record = a.record := by
      unfold record
      rw [h.maxLen]
    rw [List.map_append, h.records, h'.records, hrecord]
  cut := h.cut.extend h'.cut

/-- Send the record in progress, then start one with `line`. -/
theorem flushPending_push_closes (hon : a.enabled = true) (line : Bytes) :
    ∃ gs, Closes a (a.pending ++ [line]) gs a.flushPending.1 (a.flushPending.2.push line)
      ∧ (a.flushPending.2.push line).pending = [line] := by
  obtain ⟨gs, hflush, hpending⟩ := flushPending_closes a
  have hon' : a.flushPending.2.enabled = true := by
    unfold enabled
    rw [hflush.cfg]
    exact hon
  have hboth := hflush.trans (push_closes hon' line)
  rw [List.append_nil, List.append_nil] at hboth
  refine ⟨gs, hboth, ?_⟩
  show a.flushPending.2.pending ++ [line] = [line]
  rw [hpending, List.nil_append]

/-- What feeding one line does. -/
structure Appends (a : Assembler) (line : Bytes) (gs : List (List Bytes)) (out : List Bytes)
    (a' : Assembler) : Prop extends Closes a (a.pending ++ [line]) gs out a' where
  /-- a call that returned a record holds at most the new line -/
  fresh : out ≠ [] → a'.pending = [] ∨ a'.pending = [line]

/-- The ways a line is taken: what was held may be sent before it, and the line may end its
record. -/
theorem append_cases (a : Assembler) (line : Bytes) :
    (a.enabled = false ∧ a.append line = ([truncate line a.maxLen], a)) ∨
    (a.enabled = true ∧ ∃ r, (r = ([], a) ∧ a.full line = false ∨ r = a.flushPending) ∧
      (a.append line = (r.1, r.2.push line) ∨
        a.append line =
          (r.1 ++ (r.2.push line).flushPending.1, (r.2.push line).flushPending.2))) := by
  unfold append
  by_cases hon : a.enabled = true
  · right
    rw [if_neg (by simp [hon])]
    refine ⟨hon, ?_⟩
    split
    next =>
      refine ⟨if a.full line then a.flushPending else ([], a), ?_, ?_⟩
      · split
        next => exact .inr rfl
        next hroom => exact .inl ⟨rfl, by simpa using hroom⟩
      · generalize (if a.full line then a.flushPending else ([], a)) = r
        dsimp only
        split
        · exact .inr rfl
        · exact .inl rfl
    next =>
      split
      next => exact ⟨a.flushPending, .inr rfl, .inl rfl⟩
      next =>
        split
        next => exact ⟨a.flushPending, .inr rfl, .inl rfl⟩
        next hroom => exact ⟨([], a), .inl ⟨rfl, by simpa using hroom⟩, .inl rfl⟩
  · left
    have hoff : a.enabled = false := by simpa using hon
    rw [if_pos (by simp [hoff])]
    exact ⟨hoff, rfl⟩

theorem append_appends (hpass : a.enabled = false → a.pending = []) (line : Bytes) :
    ∃ gs, Appends a line gs (a.append line).1 (a.append line).2 := by
  rcases append_cases a line with ⟨hoff, happend⟩ | ⟨hon, r, hr, happend⟩
  · rw [happend]
    refine ⟨[[line]], ⟨⟨rfl, rfl, hpass⟩, rfl, ?_⟩, fun _ => .inl (hpass hoff)⟩
    show [[line]].flatten ++ a.pending = a.pending ++ [line]
    rw [hpass hoff]
    rfl
  · have hstart : ∃ gs, Closes a (a.pending ++ [line]) gs r.1 (r.2.push line) ∧
        (r.1 ≠ [] → (r.2.push line).pending = [line]) := by
      rcases hr with ⟨rfl, -⟩ | rfl
      · exact ⟨[], push_closes hon line, fun hne => absurd rfl hne⟩
      · obtain ⟨gs, hcloses, hline⟩ := flushPending_push_closes hon line
        exact ⟨gs, hcloses, fun _ => hline⟩
    obtain ⟨gs, hcloses, hline⟩ := hstart
    rcases happend with happend | happend
    · rw [happend]
      exact ⟨gs, hcloses, fun hne => .inr (hline hne)⟩
    · rw [happend]
      obtain ⟨hs, hflush, hnil⟩ := flushPending_closes (r.2.push line)
      have hmore : Closes (r.2.push line) ((r.2.push line).pending ++ []) hs
          (r.2.push line).flushPending.1 (r.2.push line).flushPending.2 := by
        rw [List.append_nil]
        exact hflush
      have hall := hcloses.trans hmore
      rw [List.append_nil] at hall
      exact ⟨gs ++ hs, hall, fun _ => .inl hnil⟩

theorem flushPending_of_pending (h : a.pending ≠ []) :
    a.flushPending = ([a.record a.pending], { a with pending := [], curLen := 0 }) := by
  rw [flushPending, if_neg (fun hnil => h (List.eq_nil_of_length_eq_zero hnil))]
  rfl

theorem flushPending_of_nil (h : a.pending = []) : a.flushPending = ([], a) := by
  rw [flushPending, if_pos (by rw [h]; rfl)]

theorem matchesLine_congr {b : Assembler} (h : a.cfg = b.cfg) (line : Bytes) :
    a.matchesLine line = b.matchesLine line := by
  unfold matchesLine
  rw [h]

/-- One call gives two records when a matching line ends its record and what was held had to be
sent before it. -/
def sendsTwo (a : Assembler) (line : Bytes) : Bool :=
  a.enabled && a.cfg.matchMode = .before && a.full line && a.matchesLine line

theorem append_of_sendsTwo (h : a.sendsTwo line = true) :
    a.append line = ([a.record a.pending, a.record [line]], { a with pending := [], curLen := 0 }) := by
  simp only [sendsTwo, Bool.and_eq_true, decide_eq_true_eq] at h
  obtain ⟨⟨⟨hon, hmode⟩, hfull⟩, hmatch⟩ := h
  have hheld : a.pending ≠ [] := by
    rw [full, Bool.and_eq_true, decide_eq_true_eq] at hfull
    exact List.length_pos_iff.mp hfull.1
  have hline : (({ a with pending := [], curLen := 0 } : Assembler).push line).matchesLine line =
      true := hmatch
  have hne : (({ a with pending := [], curLen := 0 } : Assembler).push line).pending ≠ [] :=
    List.concat_ne_nil _ _
  unfold append
  rw [if_neg (by simp [hon]), hmode]
  rw [if_pos hfull, flushPending_of_pending hheld]
  rw [if_pos hline, flushPending_of_pending hne]
  rfl

theorem length_append_le (h : a.sendsTwo line = false) : (a.append line).1.length ≤ 1 := by
  have hone : ∀ b : Assembler, b.flushPending.1.length ≤ 1 := by
    intro b
    unfold flushPending
    split <;> simp
  unfold append
  split
  next => simp
  next hon =>
    split
    next hmode =>
      dsimp only
      by_cases hfull : a.full line = true
      · rw [if_pos hfull]
        have hcfg : (a.flushPending.2.push line).cfg = a.cfg := by
          obtain ⟨gs, hcloses, -⟩ := flushPending_closes a
          exact hcloses.cfg
        have hmatch : (a.flushPending.2.push line).matchesLine line = false := by
          rw [matchesLine_congr hcfg]
          have henabled : a.enabled = true := by simpa using hon
          simpa [sendsTwo, hmode, hfull, henabled] using h
        rw [if_neg (by rw [hmatch]; exact Bool.false_ne_true)]
        exact hone a
      · rw [if_neg hfull]
        split
        · simpa using hone _
        · simp
    next =>
      split
      next => exact hone a
      next =>
        split
        next => exact hone a
        next => simp

end Assembler

end SenhubAgent.LogParse

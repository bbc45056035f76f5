import Mathlib.Algebra.Group.Int.Defs
import Mathlib.Algebra.Group.Nat.Defs
import Mathlib.Data.Nat.Init

/-!
# The scheduler's backoff

The tick loop of `setupIntervalCall` keeps three counters: the failures in a row, the width of the
backoff and the ticks still to skip. From the `MaxRetries`-th failure on it skips ticks after each
failure, first one, then about twice as many each time, at most `maxBackoffTicks`.

`backoff_exact` says when the loop calls `Execute`, in terms of the ticks and the outcomes alone: the
`k`-th failure from the threshold on is followed by `min (2 ^ k - 1) maxBackoffTicks` skipped ticks,
and by the next attempt. So no `maxBackoffTicks + 1` ticks in a row go by without one.

`ok n` is the outcome of the call at tick `n`, if there is one. The counter of failures, a Go `int`,
is a natural number here.
-/

namespace SenhubAgent.Scheduler

def maxBackoffTicks : Nat := 8

/-- The counters of the tick loop. -/
structure Counters where
  errorCount : Nat
  backoffTicks : Nat
  skipRemaining : Nat
  deriving DecidableEq, Repr

/-- `doCall` returned an error. -/
def Counters.failed (maxRetries : Int) (s : Counters) : Counters :=
  let errorCount := s.errorCount + 1
  if maxRetries > 0 ∧ errorCount ≥ maxRetries then
    let backoffTicks :=
      if s.backoffTicks < maxBackoffTicks then
        if s.backoffTicks * 2 + 1 > maxBackoffTicks then maxBackoffTicks else s.backoffTicks * 2 + 1
      else s.backoffTicks
    ⟨errorCount, backoffTicks, backoffTicks⟩
  else { s with errorCount := errorCount }

/-- One tick. -/
def Counters.tick (maxRetries : Int) (s : Counters) (ok : Bool) : Counters :=
  if s.skipRemaining > 0 then { s with skipRemaining := s.skipRemaining - 1 }
  else if ok then ⟨0, 0, 0⟩
  else s.failed maxRetries

section

variable (maxRetries : Int) (ok : Nat → Bool)

/-- The counters before tick `n`. -/
def countersAt : Nat → Counters
  | 0 => ⟨0, 0, 0⟩
  | n + 1 => (countersAt n).tick maxRetries (ok n)

/-- Tick `n` calls `Execute`. -/
def Attempts (n : Nat) : Prop := (countersAt maxRetries ok n).skipRemaining = 0

instance (n : Nat) : Decidable (Attempts maxRetries ok n) := inferInstanceAs (Decidable (_ = _))

/-- How many attempts before tick `n` failed since the last one that did not. -/
def failures : Nat → Nat
  | 0 => 0
  | n + 1 =>
    if Attempts maxRetries ok n then if ok n then 0 else failures n + 1
    else failures n

/-- The ticks to skip after the `c`-th failure in a row. -/
def width (c : Nat) : Nat :=
  if 0 < maxRetries ∧ maxRetries ≤ c then min (2 ^ (c - maxRetries.toNat + 1) - 1) maxBackoffTicks
  else 0

variable {maxRetries ok}

variable {c n : Nat}

theorem width_below (h : maxRetries ≤ 0 ∨ c < maxRetries) : width maxRetries c = 0 :=
  if_neg (by omega)

theorem width_from {k : Nat} (hpos : 0 < maxRetries) (hk : 0 < k)
    (hc : (c : Int) = maxRetries - 1 + k) :
    width maxRetries c = min (2 ^ k - 1) maxBackoffTicks := by
  have hk' : c - maxRetries.toNat + 1 = k := by omega
  rw [width, if_pos (by omega), hk']

/-- Twice the width and one more, capped, is the next width. -/
theorem width_succ (h : 0 < maxRetries ∧ maxRetries ≤ c + 1) :
    width maxRetries (c + 1)
      = if width maxRetries c < maxBackoffTicks then
          if width maxRetries c * 2 + 1 > maxBackoffTicks then maxBackoffTicks
          else width maxRetries c * 2 + 1
        else width maxRetries c := by
  obtain ⟨hpos, hle⟩ := h
  rcases Int.lt_or_le c maxRetries with hlt | hge
  · have hfirst : width maxRetries (c + 1) = min (2 ^ 1 - 1) maxBackoffTicks :=
      width_from hpos Nat.one_pos (by omega)
    rw [hfirst, width_below (.inr hlt)]
    rfl
  · have hnow : width maxRetries c = min (2 ^ (c - maxRetries.toNat + 1) - 1) maxBackoffTicks :=
      width_from hpos (Nat.succ_pos _) (by omega)
    have hnext : width maxRetries (c + 1)
        = min (2 ^ (c - maxRetries.toNat + 1 + 1) - 1) maxBackoffTicks :=
      width_from hpos (Nat.succ_pos _) (by omega)
    have hdouble : 2 ^ (c - maxRetries.toNat + 1 + 1) = 2 ^ (c - maxRetries.toNat + 1) * 2 :=
      Nat.pow_succ _ _
    have hone : 1 ≤ 2 ^ (c - maxRetries.toNat + 1) := Nat.one_le_two_pow
    rw [hnow, hnext, hdouble]
    generalize 2 ^ (c - maxRetries.toNat + 1) = p at hone
    split <;> (try split) <;> omega

/-- What the counters say about the past. -/
structure Counted (maxRetries : Int) (c : Nat) (s : Counters) : Prop where
  errors : s.errorCount = c
  backoff : s.backoffTicks = width maxRetries c
  skip : s.skipRemaining ≤ maxBackoffTicks

theorem width_le (c : Nat) : width maxRetries c ≤ maxBackoffTicks := by
  unfold width
  split
  next => exact Nat.min_le_right _ _
  next => exact Nat.zero_le _

/-- A failure counts, and what is skipped after it is the new width. -/
theorem Counted.failed {s : Counters} (h : Counted maxRetries c s) (hskip : s.skipRemaining = 0) :
    Counted maxRetries (c + 1) (s.failed maxRetries) ∧
      (s.failed maxRetries).skipRemaining = width maxRetries (c + 1) := by
  unfold Counters.failed
  dsimp only
  rw [h.errors, h.backoff]
  split
  next hover =>
    rw [← width_succ ⟨hover.1, by omega⟩]
    exact ⟨⟨rfl, rfl, width_le _⟩, rfl⟩
  next hunder =>
    have hzero : width maxRetries (c + 1) = 0 := width_below (by omega)
    have hzero' : width maxRetries c = 0 := width_below (by omega)
    exact ⟨⟨rfl, hzero'.trans hzero.symm, h.skip⟩, hskip.trans hzero.symm⟩

theorem countersAt_attempt (h : Attempts maxRetries ok n) :
    countersAt maxRetries ok (n + 1)
      = if ok n then ⟨0, 0, 0⟩ else (countersAt maxRetries ok n).failed maxRetries := by
  have hzero : (countersAt maxRetries ok n).skipRemaining = 0 := h
  rw [countersAt, Counters.tick, hzero]
  rfl

theorem countersAt_skip (h : ¬Attempts maxRetries ok n) :
    countersAt maxRetries ok (n + 1)
      = { countersAt maxRetries ok n with
          skipRemaining := (countersAt maxRetries ok n).skipRemaining - 1 } :=
  if_pos (Nat.pos_of_ne_zero h)

/-- At the start, and again after a success, nothing is counted. -/
theorem counted_reset : Counted maxRetries 0 ⟨0, 0, 0⟩ := by
  refine ⟨rfl, Eq.symm (width_below ?_), Nat.zero_le _⟩
  show maxRetries ≤ 0 ∨ ((0 : Nat) : Int) < maxRetries
  omega

theorem counted (n : Nat) :
    Counted maxRetries (failures maxRetries ok n) (countersAt maxRetries ok n) := by
  induction n with
  | zero => exact counted_reset
  | succ n ih =>
    rw [failures]
    by_cases hattempt : Attempts maxRetries ok n
    · rw [if_pos hattempt, countersAt_attempt hattempt]
      cases ok n with
      | true => exact counted_reset
      | false => exact (ih.failed hattempt).1
    · rw [if_neg hattempt, countersAt_skip hattempt]
      exact ⟨ih.errors, ih.backoff, Nat.le_trans (Nat.sub_le _ _) ih.skip⟩

/-- The ticks to skip are skipped, and the next one is an attempt. -/
theorem skipped_then_attempts {d : Nat} (h : (countersAt maxRetries ok n).skipRemaining = d) :
    (∀ i < d, ¬Attempts maxRetries ok (n + i)) ∧ Attempts maxRetries ok (n + d) := by
  induction d generalizing n with
  | zero => exact ⟨nofun, h⟩
  | succ d ih =>
    have hskip : ¬Attempts maxRetries ok n := by
      unfold Attempts
      omega
    have hnext : (countersAt maxRetries ok (n + 1)).skipRemaining = d := by
      rw [countersAt_skip hskip]
      dsimp only
      omega
    obtain ⟨hskipped, hattempt⟩ := ih hnext
    refine ⟨fun i hi => ?_, by rwa [Nat.add_right_comm] at hattempt⟩
    cases i with
    | zero => exact hskip
    | succ i =>
      have := hskipped i (Nat.lt_of_succ_lt_succ hi)
      rwa [Nat.add_right_comm] at this

/-- **The backoff is exact, and the loop never gives up.** -/
theorem backoff_exact (maxRetries : Int) (ok : Nat → Bool) :
    (∀ n, Attempts maxRetries ok n → ok n = true → Attempts maxRetries ok (n + 1)) ∧
    (∀ n, Attempts maxRetries ok n → ok n = false →
      (maxRetries ≤ 0 ∨ failures maxRetries ok (n + 1) < maxRetries) →
        Attempts maxRetries ok (n + 1)) ∧
    (∀ n, Attempts maxRetries ok n → ok n = false → 0 < maxRetries →
      ∀ k : Nat, 0 < k → (failures maxRetries ok (n + 1) : Int) = maxRetries - 1 + k →
        (∀ i < min (2 ^ k - 1) maxBackoffTicks, ¬Attempts maxRetries ok (n + 1 + i)) ∧
          Attempts maxRetries ok (n + 1 + min (2 ^ k - 1) maxBackoffTicks)) ∧
    ∀ n, ∃ i ≤ maxBackoffTicks, Attempts maxRetries ok (n + i) := by
  have hfailed : ∀ n, Attempts maxRetries ok n → ok n = false →
      (countersAt maxRetries ok (n + 1)).skipRemaining
        = width maxRetries (failures maxRetries ok (n + 1)) := by
    intro n hattempt hfail
    have hcount : failures maxRetries ok (n + 1) = failures maxRetries ok n + 1 := by
      rw [failures, if_pos hattempt, hfail]
      rfl
    rw [hcount, countersAt_attempt hattempt, hfail]
    exact ((counted n).failed hattempt).2
  refine ⟨?_, ?_, ?_, ?_⟩
  · intro n hattempt hok
    rw [Attempts, countersAt_attempt hattempt, hok]
    rfl
  · intro n hattempt hfail hunder
    exact (hfailed n hattempt hfail).trans (width_below hunder)
  · intro n hattempt hfail hpos k hk hcount
    rw [← width_from hpos hk hcount]
    exact skipped_then_attempts (hfailed n hattempt hfail)
  · intro n
    exact ⟨_, (counted n).skip, (skipped_then_attempts rfl).2⟩

end

end SenhubAgent.Scheduler

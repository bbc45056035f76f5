import Mathlib.Data.List.Basic

/-!
# Debouncing a sighting

A thing that comes and goes is asserted once it has been seen `threshold` times, and forgotten once
it has been out of sight for more than `window` looks in a row. The counter keeps two numbers: how
often it was seen, up to the threshold, and for how many looks it has been absent (`advance`).

What the two numbers say about the past is `streakOf_spec`, from which `asserted_iff`: the counter
asserts exactly what was seen `threshold` times since the last gap longer than the window.
Histories are kept newest first.
-/

namespace SenhubAgent.Lib

structure Streak where
  hits : Nat
  misses : Nat

variable (threshold window : Nat)

/-- One look; `none` is a thing that is not remembered. -/
def advance (s : Option Streak) : Bool → Option Streak
  | true => some ⟨min (((s.map Streak.hits).getD 0) + 1) threshold, 0⟩
  | false => s.bind fun s =>
    if s.misses + 1 > window then none else some ⟨s.hits, s.misses + 1⟩

def streakOf : List Bool → Option Streak
  | [] => none
  | seen :: earlier => advance threshold window (streakOf earlier) seen

/-- For how many looks the thing has been absent. -/
def absences : List Bool → Nat
  | false :: earlier => absences earlier + 1
  | _ => 0

/-- The looks since the last gap longer than the window. -/
def recent : List Bool → List Bool
  | [] => []
  | seen :: earlier => if absences (seen :: earlier) > window then [] else seen :: recent earlier

/-- Seen often enough since the last long gap, and not in such a gap now. -/
def Earned (looks : List Bool) : Prop :=
  threshold ≤ (recent window looks).count true ∧ absences looks ≤ window

instance (looks : List Bool) : Decidable (Earned threshold window looks) :=
  inferInstanceAs (Decidable (_ ∧ _))

/-- What the counter says about the past. -/
def Describes (s : Option Streak) (looks : List Bool) : Prop :=
  match s with
  | none => (recent window looks).count true = 0
  | some s => s.hits = min threshold ((recent window looks).count true) ∧ s.misses = absences looks
    ∧ absences looks ≤ window

variable {threshold window}

theorem recent_seen (looks : List Bool) : recent window (true :: looks) = true :: recent window looks :=
  if_neg (Nat.not_lt_zero window)

variable {looks : List Bool} {s : Option Streak}

theorem mem_of_mem_recent {seen : Bool} (h : seen ∈ recent window looks) : seen ∈ looks := by
  induction looks with
  | nil => exact h
  | cons seen' earlier ih =>
    rw [recent] at h
    split at h
    · cases h
    · exact (List.mem_cons.mp h).elim (fun heq => heq ▸ List.mem_cons_self)
        fun hmem => List.mem_cons_of_mem _ (ih hmem)

theorem Earned.seen (hpos : 0 < threshold) (h : Earned threshold window looks) : true ∈ looks :=
  mem_of_mem_recent (List.count_pos_iff.mp (Nat.lt_of_lt_of_le hpos h.1))

theorem Describes.seen (h : Describes threshold window s looks) :
    Describes threshold window (advance threshold window s true) (true :: looks) := by
  have hcount : (recent window (true :: looks)).count true
      = (recent window looks).count true + 1 := by rw [recent_seen, List.count_cons_self]
  refine ⟨?_, rfl, Nat.zero_le _⟩
  rw [hcount]
  cases s with
  | none =>
    have hzero : (recent window looks).count true = 0 := h
    rw [hzero]
    exact Nat.min_comm _ _
  | some s =>
    show min (s.hits + 1) threshold = _
    rw [h.1]
    omega

theorem Describes.absent (h : Describes threshold window s looks) :
    Describes threshold window (advance threshold window s false) (false :: looks) := by
  by_cases hgone : absences (false :: looks) > window
  · have hnone : recent window (false :: looks) = [] := if_pos hgone
    have hforgotten : advance threshold window s false = none := by
      cases s with
      | none => rfl
      | some s => exact if_pos (by rw [h.2.1]; exact hgone)
    rw [hforgotten]
    exact congrArg (List.count true) hnone
  · have hsame : (recent window (false :: looks)).count true = (recent window looks).count true := by
      rw [recent, if_neg hgone]
      exact List.count_cons_of_ne (by decide)
    cases s with
    | none => exact hsame.trans h
    | some s =>
      have hkept : advance threshold window (some s) false = some ⟨s.hits, s.misses + 1⟩ :=
        if_neg (by rw [h.2.1]; exact hgone)
      rw [hkept]
      exact ⟨h.1.trans (by rw [hsame]), congrArg (· + 1) h.2.1, Nat.le_of_not_lt hgone⟩

theorem streakOf_spec (looks : List Bool) :
    Describes threshold window (streakOf threshold window looks) looks := by
  induction looks with
  | nil => rfl
  | cons seen earlier ih =>
    cases seen with
    | true => exact ih.seen
    | false => exact ih.absent

theorem asserted_iff (hpos : 0 < threshold) (looks : List Bool) :
    (∃ s, streakOf threshold window looks = some s ∧ threshold ≤ s.hits)
      ↔ Earned threshold window looks := by
  have hspec : Describes threshold window (streakOf threshold window looks) looks := streakOf_spec looks
  cases hs : streakOf threshold window looks with
  | none =>
    rw [hs] at hspec
    have hzero : (recent window looks).count true = 0 := hspec
    constructor
    · rintro ⟨s, hnone, -⟩
      cases hnone
    · rintro ⟨hcount, -⟩
      omega
  | some s =>
    rw [hs] at hspec
    obtain ⟨hhits, -, habsent⟩ := hspec
    constructor
    · rintro ⟨s', hs', hle⟩
      cases hs'
      exact ⟨by omega, habsent⟩
    · rintro ⟨hcount, -⟩
      exact ⟨s, rfl, by omega⟩

end SenhubAgent.Lib

import Mathlib.Algebra.Group.Int.Defs
import Mathlib.Data.Nat.Basic

/-!
# Instants and durations

`time.Time` and `time.Duration` as the rest of the development uses them. An
instant is a number of nanoseconds since the Unix epoch, unbounded; a duration is
a number of nanoseconds. `Sub` saturates at the ends of an `int64`, as Go's does.

`durationString` is `Duration.String`.
-/

namespace SenhubAgent

/-- An instant (`time.Time`), in nanoseconds since the Unix epoch. -/
abbrev Instant := Int

/-- The zero `time.Time`: January 1, year 1. -/
def zeroTime : Instant := -62135596800 * 1000000000

/-- `time.Duration`, in nanoseconds. -/
abbrev Duration := Int

/-- `t.Sub(u)`. -/
def timeSub (t u : Instant) : Duration := max (-2 ^ 63) (min (2 ^ 63 - 1) (t - u))

theorem timeSub_self (t : Instant) : timeSub t t = 0 := by
  unfold timeSub
  rw [Int.sub_self]
  decide

/-! ## Rendering a duration -/

/-- `fmtFrac`: the last `prec` digits of `v` as a fraction, without trailing zeros,
before what is in `buf`; `seen` says a digit has been written. Returns what is left
of `v`. -/
def fmtFrac : Nat → Nat → Bool → List Char → List Char × Nat
  | 0, v, seen, buf => (if seen then '.' :: buf else buf, v)
  | prec + 1, v, seen, buf =>
    let digit := v % 10
    let seen := seen || digit != 0
    fmtFrac prec (v / 10) seen (if seen then Nat.digitChar digit :: buf else buf)

/-- `fmtInt`: the digits of `v` before what is in `buf`. -/
def fmtInt (v : Nat) (buf : List Char) : List Char := Nat.toDigits 10 v ++ buf

/-- The digits after the point and the unit of a duration under a second. -/
def subsecondUnit (u : Nat) : Nat × List Char :=
  if u < 1000 then (0, ['n', 's'])
  else if u < 1000000 then (3, ['µ', 's'])
  else (6, ['m', 's'])

/-- A duration under a second, in its own unit. -/
def fmtSubsecond (u : Nat) : List Char :=
  if u = 0 then ['0', 's']
  else
    let (prec, unit) := subsecondUnit u
    let (buf, v) := fmtFrac prec u false unit
    fmtInt v buf

/-- A duration of a second or more: `72h3m0.5s`. -/
def fmtHMS (u : Nat) : List Char :=
  let (buf, secs) := fmtFrac 9 u false ['s']
  let buf := fmtInt (secs % 60) buf
  let mins := secs / 60
  if mins = 0 then buf
  else
    let buf := fmtInt (mins % 60) ('m' :: buf)
    let hours := mins / 60
    if hours = 0 then buf else fmtInt hours ('h' :: buf)

/-- The text of the magnitude. -/
def magnitudeText (u : Nat) : List Char := if u < 1000000000 then fmtSubsecond u else fmtHMS u

/-- `d.String()`. -/
def durationString (d : Duration) : String :=
  String.ofList (if d < 0 then '-' :: magnitudeText d.natAbs else magnitudeText d.natAbs)

example : durationString (-1500000) = "-1.5ms" := by decide

end SenhubAgent

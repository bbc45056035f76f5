import Mathlib.Data.List.Basic

/-!
# Regular expressions with groups

The expressions that searches with submatches need: greedy and lazy repetition, capturing groups,
word boundaries and the end of the text, over any type of symbols.

`run` is the backtracking search that prefers as the expression is written: the left branch of an
alternative first, a greedy loop as often as it can, a lazy one as seldom.

A loop does not repeat a turn that consumes nothing, and `findAll` passes over empty matches.
-/

namespace SenhubAgent.Lib

variable {β : Type}

inductive Regex (β : Type) where
  | empty
  | sym (p : β → Bool)
  | seq (a b : Regex β)
  | alt (a b : Regex β)
  | star (greedy : Bool) (a : Regex β)
  | group (n : Nat) (a : Regex β)
  | boundary (word : β → Bool)
  | textEnd

/-- Where each group begins and ends, if it took part. -/
abbrev Caps := Nat → Option (Nat × Nat)

namespace Caps

def none : Caps := fun _ => .none

def set (c : Caps) (n : Nat) (span : Nat × Nat) : Caps := fun m => if m = n then some span else c m

end Caps

namespace Regex

/-! ## Derived forms -/

/-- The symbols of a text, one after the other. -/
def str [DecidableEq β] : List β → Regex β
  | [] => .empty
  | b :: l => .seq (.sym (· == b)) (str l)

/-- Greedy `a?`. -/
def opt (a : Regex β) : Regex β := .alt a .empty

/-- `a{n}`. -/
def times (a : Regex β) : Nat → Regex β
  | 0 => .empty
  | n + 1 => .seq a (times a n)

/-- Greedy `a{n,}`. -/
def atLeast (n : Nat) (a : Regex β) : Regex β := .seq (a.times n) (.star true a)

/-- The symbols on the two sides of a position differ in being word symbols. -/
def atBoundary (word : β → Bool) (s : List β) (i : Nat) : Bool :=
  (s.take i).getLast?.any word != s[i]?.any word

/-! ## The search -/

variable {R : Type}

/-- What is left of a search: what it does at a position with the groups so far. -/
abbrev Cont (R : Type) := Nat → Caps → Option R

/-- A loop. A turn that consumes nothing fails. -/
def loop (turn : Nat → Caps → Cont R → Option R) (greedy : Bool) : Nat → Nat → Caps → Cont R →
    Option R
  | 0, i, c, k => k i c
  | fuel + 1, i, c, k =>
    let again := fun _ : Unit => turn i c fun j c' =>
      if j = i then none else loop turn greedy fuel j c' k
    if greedy then (again ()).or (k i c) else (k i c).or (again ())

/-- The search from a position, and the rest of it behind each match it tries. -/
def run (s : List β) : Regex β → Nat → Caps → Cont R → Option R
  | .empty, i, c, k => k i c
  | .sym p, i, c, k => if s[i]?.any p then k (i + 1) c else none
  | .seq a b, i, c, k => run s a i c fun j c' => run s b j c' k
  | .alt a b, i, c, k => (run s a i c k).or (run s b i c k)
  | .star g a, i, c, k => loop (run s a) g (s.length - i) i c k
  | .group n a, i, c, k => run s a i c fun j c' => k j (c'.set n (i, j))
  | .boundary word, i, c, k => if atBoundary word s i then k i c else none
  | .textEnd, i, c, k => if i = s.length then k i c else none

/-! ## All matches -/

/-- Where a match begins and ends, and its groups. -/
structure Found where
  start : Nat
  stop : Nat
  caps : Caps

/-- The preferred match at a position. -/
def matchAt (e : Regex β) (s : List β) (i : Nat) : Option Found :=
  run s e i .none fun j c => some ⟨i, j, c⟩

/-- The matches from a position on, from the left, each behind the one before. -/
def findFrom (e : Regex β) (s : List β) : Nat → Nat → List Found
  | 0, _ => []
  | fuel + 1, i =>
    if i < s.length then
      match e.matchAt s i with
      | some m =>
        if m.stop ≤ i then findFrom e s fuel (i + 1) else m :: findFrom e s fuel m.stop
      | none => findFrom e s fuel (i + 1)
    else []

def findAll (e : Regex β) (s : List β) : List Found := e.findFrom s s.length 0

end Regex

end SenhubAgent.Lib

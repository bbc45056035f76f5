/-!
# Machines that keep one state per key

A machine that serves many sources at once often keeps a map from a source's key to
the state of that source alone. `IsKeyed` says that this is all it does: an input
moves the state under its own key as a *local* step would, leaves every other key
alone, and is answered from the state under its own key.

The rules: what the machine answers to the inputs of one key, in any interleaving,
is what the local machine answers to those inputs by themselves (`IsKeyed.answers`),
and the state under the key is the local machine's (`IsKeyed.state`).
-/

namespace SenhubAgent.Lib

variable {K M S α β : Type}

/-- The inputs of a run, each with its answer. -/
def answers (step : S → α → S × β) : S → List α → List (α × β)
  | _, [] => []
  | s, a :: as => (a, (step s a).2) :: answers step (step s a).1 as

/-- The state after a run. -/
def stateAfter (step : S → α → S × β) : S → List α → S
  | s, [] => s
  | s, a :: as => stateAfter step (step s a).1 as

theorem stateAfter_append (step : S → α → S × β) :
    ∀ (as bs : List α) (s : S),
      stateAfter step s (as ++ bs) = stateAfter step (stateAfter step s as) bs := by
  intro as bs
  induction as with
  | nil => intro s; rfl
  | cons a as ih => intro s; exact ih _

/-- `step` keeps one state per key and serves each by `localStep`. -/
structure IsKeyed (key : α → K) (read : M → K → S) (step : M → α → M × β)
    (localStep : S → α → S × β) : Prop where
  own : ∀ m a, read (step m a).1 (key a) = (localStep (read m (key a)) a).1
  other : ∀ m a k, k ≠ key a → read (step m a).1 k = read m k
  answer : ∀ m a, (step m a).2 = (localStep (read m (key a)) a).2

variable [DecidableEq K] {key : α → K} {read : M → K → S} {step : M → α → M × β}
  {localStep : S → α → S × β}

/-- The inputs of one key, with what they are answered, in any interleaving. -/
theorem IsKeyed.answers (h : IsKeyed key read step localStep) (k : K) :
    ∀ (as : List α) (m : M),
      (Lib.answers step m as).filter (fun p => decide (key p.1 = k))
        = Lib.answers localStep (read m k) (as.filter fun a => decide (key a = k)) := by
  intro as
  induction as with
  | nil => intro m; rfl
  | cons a as ih =>
    intro m
    simp only [Lib.answers, List.filter_cons]
    by_cases hk : key a = k
    · subst hk
      simp only [decide_true, if_true, Lib.answers, h.answer, ih, h.own]
    · simp only [hk, decide_false, Bool.false_eq_true, if_false, ih, h.other m a k (Ne.symm hk)]

/-- The state under one key, in any interleaving. -/
theorem IsKeyed.state (h : IsKeyed key read step localStep) (k : K) :
    ∀ (as : List α) (m : M),
      read (stateAfter step m as) k
        = stateAfter localStep (read m k) (as.filter fun a => decide (key a = k)) := by
  intro as
  induction as with
  | nil => intro m; rfl
  | cons a as ih =>
    intro m
    simp only [stateAfter, List.filter_cons, ih]
    by_cases hk : key a = k
    · subst hk
      simp only [decide_true, if_true, stateAfter, h.own]
    · simp only [hk, decide_false, Bool.false_eq_true, if_false, h.other m a k (Ne.symm hk)]

end SenhubAgent.Lib

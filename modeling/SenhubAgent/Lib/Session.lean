/-!
# Programs that ask a party they do not trust

A `Session Q R α` asks questions of type `Q`, one after the other, and ends with an `α`. The
next question, and the end, may depend on all answers so far. An answerer is a function of
the questions asked before and of the question, so it may answer one question differently
each time.

`Ends answers s P` says that `P` holds however `s` ends when every answer it gets is one
that `answers` allows. It is proved along the program, with no answerer in sight, and
`Ends.run` hands it to any answerer.
-/

namespace SenhubAgent.Lib

inductive Session (Q R α : Type) where
  | done (a : α)
  | ask (q : Q) (next : R → Session Q R α)

namespace Session

variable {Q R α β : Type}

protected def bind : Session Q R α → (α → Session Q R β) → Session Q R β
  | .done a, f => f a
  | .ask q next, f => .ask q fun r => (next r).bind f

instance : Monad (Session Q R) where
  pure := .done
  bind := Session.bind

/-- Ask one question. -/
def get (q : Q) : Session Q R R := .ask q .done

/-- The end of a session, with the answerer `answer` and after the questions `asked`. -/
def run (answer : List Q → Q → R) : Session Q R α → List Q → α
  | .done a, _ => a
  | .ask q next, asked => (next (answer asked q)).run answer (asked ++ [q])

/-- `P` holds at every end of the session that allowed answers lead to. -/
def Ends (answers : Q → R → Prop) : Session Q R α → (α → Prop) → Prop
  | .done a, P => P a
  | .ask q next, P => ∀ r, answers q r → (next r).Ends answers P

variable {answers : Q → R → Prop} {s : Session Q R α} {P : α → Prop}

theorem Ends.pure {a : α} (h : P a) : Ends answers (pure a : Session Q R α) P := h

theorem Ends.get {P : R → Prop} {q : Q} (h : ∀ r, answers q r → P r) :
    Ends answers (get q : Session Q R R) P := h

variable {f : α → Session Q R β}

theorem Ends.bind {P : β → Prop} {M : α → Prop} (hs : s.Ends answers M)
    (hf : ∀ a, M a → (f a).Ends answers P) : (s >>= f).Ends answers P := by
  induction s with
  | done a => exact hf a hs
  | ask q next ih => exact fun r hr => ih r (hs r hr)

/-- A first part of which nothing needs to be known. -/
theorem Ends.bind_any {P : β → Prop} (hf : ∀ a, (f a).Ends answers P) :
    (s >>= f).Ends answers P := by
  induction s with
  | done a => exact hf a
  | ask q next ih => exact fun r _ => ih r

theorem Ends.imp {P' : α → Prop} (hs : s.Ends answers P) (h : ∀ a, P a → P' a) :
    s.Ends answers P' := by
  induction s with
  | done a => exact h a hs
  | ask q next ih => exact fun r hr => ih r (hs r hr)

/-- What holds at every end holds at the one an answerer leads to, if it only gives
allowed answers. -/
theorem Ends.run {answer : List Q → Q → R} (hs : s.Ends answers P)
    (ha : ∀ asked q, answers q (answer asked q)) (asked : List Q) :
    P (s.run answer asked) := by
  induction s generalizing asked with
  | done a => exact hs
  | ask q next ih => exact ih _ (hs _ (ha asked q)) _

end Session

end SenhubAgent.Lib

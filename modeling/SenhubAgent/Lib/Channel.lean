import Mathlib.Data.List.Basic

/-!
# Buffered channels

A channel is a bounded queue. `trySend` and `tryRecv` are the two cases of a `select` with a
default branch; a plain send or receive is one of them taken when it is possible.
-/

namespace SenhubAgent.Lib

structure Chan (α : Type) where
  buf : List α
  cap : Nat

namespace Chan

variable {α : Type}

/-- `make(chan α, cap)` -/
def make (α : Type) (cap : Nat) : Chan α := ⟨[], cap⟩

def trySend (c : Chan α) (x : α) : Option (Chan α) :=
  if c.buf.length < c.cap then some { c with buf := c.buf ++ [x] } else none

def tryRecv (c : Chan α) : Option (α × Chan α) :=
  match c.buf with
  | [] => none
  | x :: rest => some (x, { c with buf := rest })

theorem trySend_some {c c' : Chan α} {x : α} (h : c.trySend x = some c') :
    c.buf.length < c.cap ∧ c' = { c with buf := c.buf ++ [x] } := by
  unfold trySend at h
  split at h
  next hroom => exact ⟨hroom, (Option.some.inj h).symm⟩
  next => cases h

theorem tryRecv_some {c c' : Chan α} {x : α} (h : c.tryRecv = some (x, c')) :
    c.buf = x :: c'.buf ∧ c'.cap = c.cap := by
  unfold tryRecv at h
  split at h
  next => cases h
  next y rest hbuf =>
    cases h
    exact ⟨hbuf, rfl⟩

end Chan

end SenhubAgent.Lib

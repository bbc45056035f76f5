import Mathlib.Order.Basic
import Mathlib.Data.Int.Order.Basic

/-!
# Complete lines of a growing file

A reader that follows a file takes the complete lines from an offset to the end and
leaves a trailing fragment for later. `linesFrom` gives each complete line with the
offset after it; `readTo` is the offset a reader that takes them all stops at.
-/

namespace SenhubAgent.Lib

variable {β : Type} [DecidableEq β]

/-- The complete lines of `bytes`, `cur` being the line so far, backwards, and `off`
the offset of the first byte. -/
def linesFromAux (nl : β) (cur : List β) (off : Int) : List β → List (List β × Int)
  | [] => []
  | b :: bytes =>
    if b = nl then (cur.reverse, off + 1) :: linesFromAux nl [] (off + 1) bytes
    else linesFromAux nl (b :: cur) (off + 1) bytes

def linesFrom (nl : β) (off : Int) (bytes : List β) : List (List β × Int) :=
  linesFromAux nl [] off bytes

/-- The offset after the last complete line. -/
def readTo (nl : β) (off : Int) (bytes : List β) : Int :=
  ((linesFrom nl off bytes).getLast?.map Prod.snd).getD off

theorem linesFromAux_ends (nl : β) :
    ∀ (bytes cur : List β) (off : Int), ∀ l ∈ linesFromAux nl cur off bytes, off < l.2 := by
  intro bytes
  induction bytes with
  | nil => intro cur off l hl; cases hl
  | cons b bytes ih =>
    intro cur off l hl
    unfold linesFromAux at hl
    split at hl
    next =>
      rcases List.mem_cons.mp hl with hl | hl
      · rw [hl]
        exact Int.lt_succ off
      · have := ih [] (off + 1) l hl
        omega
    next =>
      have := ih (b :: cur) (off + 1) l hl
      omega

/-- A line takes at least its newline. -/
theorem linesFrom_ends {nl : β} {off : Int} {bytes : List β} {l : List β × Int}
    (h : l ∈ linesFrom nl off bytes) : off < l.2 :=
  linesFromAux_ends nl bytes [] off l h

theorem readTo_ge (nl : β) (off : Int) (bytes : List β) : off ≤ readTo nl off bytes := by
  unfold readTo
  cases hlast : (linesFrom nl off bytes).getLast? with
  | none => exact Int.le_refl off
  | some l => exact Int.le_of_lt (linesFrom_ends (List.mem_of_getLast? hlast))

end SenhubAgent.Lib

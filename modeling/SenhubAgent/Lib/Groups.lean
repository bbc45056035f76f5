import Mathlib.Data.List.Basic

/-!
# A stream cut into groups

A component that folds consecutive items into records reads a stream `xs`, has
closed some groups `gs` of it and holds a rest. `Cut xs gs rest` says that nothing
was lost, duplicated or reordered: the groups one after the other, followed by the
rest, are the stream.

The rules: cutting further what was held (`Cut.extend`), and carrying a cut of mapped
items back to the items themselves (`Cut.lift`), which is how a fact about the texts a
component holds becomes a fact about the tagged items they came from.
-/

namespace SenhubAgent.Lib

variable {α β : Type}

/-- `xs` is the groups `gs` followed by `rest`. -/
def Cut (xs : List α) (gs : List (List α)) (rest : List α) : Prop := gs.flatten ++ rest = xs

/-- Cutting what was held, with what came since. -/
theorem Cut.extend {xs ys rest rest' : List α} {gs hs : List (List α)} (h : Cut xs gs rest)
    (h' : Cut (rest ++ ys) hs rest') : Cut (xs ++ ys) (gs ++ hs) rest' := by
  unfold Cut at h h' ⊢
  rw [List.flatten_append, List.append_assoc, h', ← List.append_assoc, h]

theorem Cut.mem {xs rest : List α} {gs : List (List α)} (h : Cut xs gs rest) {x : α}
    (hx : x ∈ xs) : x ∈ gs.flatten ∨ x ∈ rest := by
  rw [← h] at hx
  exact List.mem_append.mp hx

/-- A cut of the images is a cut of the items. -/
theorem Cut.lift (f : α → β) :
    ∀ {gs : List (List β)} {rest : List β} {xs : List α}, Cut (xs.map f) gs rest →
      ∃ gs' rest', Cut xs gs' rest' ∧ gs'.map (List.map f) = gs ∧ rest'.map f = rest := by
  intro gs
  induction gs with
  | nil =>
    intro rest xs h
    exact ⟨[], xs, rfl, rfl, h.symm⟩
  | cons g gs ih =>
    intro rest xs h
    unfold Cut at h
    rw [List.flatten_cons, List.append_assoc] at h
    obtain ⟨front, back, hxs, hfront, hback⟩ := List.map_eq_append_iff.mp h.symm
    obtain ⟨gs', rest', hcut, hgs, hrest⟩ := ih (show Cut (back.map f) gs rest from hback.symm)
    refine ⟨front :: gs', rest', ?_, by rw [List.map_cons, hfront, hgs], hrest⟩
    unfold Cut at hcut ⊢
    rw [List.flatten_cons, List.append_assoc, hcut, hxs]

end SenhubAgent.Lib

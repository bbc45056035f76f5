import Mathlib.Order.Basic

/-!
# Walking a list through its first hit

A caller that tries alternatives in order stops at the first that works:
`throughFirst p` is what it has tried by then. In an increasing list an element
is tried exactly when nothing smaller hits (`mem_throughFirst`); the walk ends at
a hit (`throughFirst_hit_last`), and a walk that ends without one has seen the
whole list (`throughFirst_miss_last`). A walk ends at a hit exactly when the list
has one (`throughFirst_ends_hit_iff`).
-/

namespace SenhubAgent.Lib

variable {α : Type}

/-- The elements up to and including the first that satisfies `p`. -/
def throughFirst (p : α → Bool) : List α → List α
  | [] => []
  | x :: xs => if p x then [x] else x :: throughFirst p xs

variable (p : α → Bool) {l : List α} {i : α}

/-- A walk without a hit is the whole list; another ends at the first hit. -/
theorem throughFirst_cases (l : List α) :
    (throughFirst p l = l ∧ ∀ j ∈ l, p j = false) ∨
      ∃ front i back, l = front ++ i :: back ∧ throughFirst p l = front ++ [i] ∧ p i = true ∧
        ∀ j ∈ front, p j = false := by
  induction l with
  | nil => exact .inl ⟨rfl, by simp⟩
  | cons x xs ih =>
    rw [throughFirst]
    split
    next hx => exact .inr ⟨[], x, xs, rfl, rfl, hx, by simp⟩
    next hx =>
      have hmiss : p x = false := by simpa using hx
      rcases ih with ⟨heq, hrest⟩ | ⟨front, i, back, rfl, heq, hi, hrest⟩
      · rw [heq]
        exact .inl ⟨rfl, List.forall_mem_cons.mpr ⟨hmiss, hrest⟩⟩
      · rw [heq]
        exact .inr ⟨x :: front, i, back, rfl, rfl, hi, List.forall_mem_cons.mpr ⟨hmiss, hrest⟩⟩

theorem mem_of_mem_throughFirst (h : i ∈ throughFirst p l) : i ∈ l := by
  rcases throughFirst_cases p l with ⟨heq, -⟩ | ⟨front, x, back, hl, heq, -⟩
  · rwa [heq] at h
  · rw [heq] at h
    rw [hl, List.append_cons]
    exact List.mem_append_left _ h

/-- In an increasing list, an element is walked exactly when nothing before it
hits. -/
theorem mem_throughFirst [Preorder α] (hl : l.Pairwise (· < ·)) (i : α) :
    i ∈ throughFirst p l ↔ i ∈ l ∧ ∀ j ∈ l, j < i → p j = false := by
  rcases throughFirst_cases p l with ⟨heq, hmiss⟩ | ⟨front, x, back, rfl, heq, hx, hmiss⟩
  · rw [heq]
    exact ⟨fun hi => ⟨hi, fun j hj _ => hmiss j hj⟩, And.left⟩
  · rw [List.append_cons, List.pairwise_append] at hl
    obtain ⟨hwalk, -, hback⟩ := hl
    rw [heq, List.append_cons front x back]
    constructor
    · refine fun hi => ⟨List.mem_append_left _ hi, fun j hj hlt => ?_⟩
      rcases List.mem_append.mp hj with hj | hj
      · rcases List.mem_append.mp hj with hj | hj
        · exact hmiss j hj
        · -- nothing walked comes after the hit
          rw [List.mem_singleton.mp hj] at hlt
          rcases List.mem_append.mp hi with hi | hi
          · have hbefore := (List.pairwise_append.mp hwalk).2.2 i hi x (List.mem_singleton_self x)
            exact absurd (hlt.trans hbefore) (lt_irrefl x)
          · exact absurd (List.mem_singleton.mp hi ▸ hlt) (lt_irrefl x)
      · exact absurd (hlt.trans (hback i hi j hj)) (lt_irrefl j)
    · rintro ⟨hi, hbefore⟩
      rcases List.mem_append.mp hi with hi | hi
      · exact hi
      · have hin : x ∈ front ++ [x] := List.mem_append_right _ (List.mem_singleton_self x)
        cases hx.symm.trans (hbefore x (List.mem_append_left _ hin) (hback x hin i hi))

/-- The walk ends at a hit. -/
theorem throughFirst_hit_last (h : i ∈ throughFirst p l) (hp : p i = true) :
    ∃ front, throughFirst p l = front ++ [i] := by
  rcases throughFirst_cases p l with ⟨heq, hmiss⟩ | ⟨front, x, back, -, heq, -, hmiss⟩
  · rw [heq] at h
    cases hp.symm.trans (hmiss i h)
  · rw [heq] at h ⊢
    rcases List.mem_append.mp h with h | h
    · cases hp.symm.trans (hmiss i h)
    · rw [List.mem_singleton.mp h]
      exact ⟨front, rfl⟩

/-- A walk that ends without a hit has walked the whole list. -/
theorem throughFirst_miss_last {front : List α} (h : throughFirst p l = front ++ [i])
    (hp : p i = false) : l = front ++ [i] := by
  rcases throughFirst_cases p l with ⟨heq, -⟩ | ⟨front', x, back, -, heq, hx, -⟩
  · exact heq.symm.trans h
  · obtain ⟨-, hlast⟩ := List.append_inj' (heq.symm.trans h) rfl
    rw [List.singleton_inj.mp hlast, hp] at hx
    cases hx

/-- A list with a hit is walked to one. -/
theorem throughFirst_ends_hit_iff (l : List α) :
    (∃ front i, throughFirst p l = front ++ [i] ∧ p i = true) ↔ ∃ i ∈ l, p i = true := by
  rcases throughFirst_cases p l with ⟨heq, hmiss⟩ | ⟨front, x, back, hl, heq, hx, -⟩
  · refine iff_of_false ?_ ?_
    · rintro ⟨front, i, hwalk, hp⟩
      cases hp.symm.trans (hmiss i (by rw [← heq, hwalk]; simp))
    · rintro ⟨i, hi, hp⟩
      cases hp.symm.trans (hmiss i hi)
  · exact iff_of_true ⟨front, x, heq, hx⟩ ⟨x, by rw [hl]; simp, hx⟩

theorem throughFirst_append (h : ∀ j ∈ l, p j = false) (l' : List α) :
    throughFirst p (l ++ l') = l ++ throughFirst p l' := by
  induction l with
  | nil => rfl
  | cons x xs ih =>
    obtain ⟨hx, hxs⟩ := List.forall_mem_cons.mp h
    rw [List.cons_append, throughFirst, if_neg (by simp [hx]), ih hxs]
    rfl

theorem throughFirst_of_miss (h : ∀ j ∈ l, p j = false) : throughFirst p l = l := by
  have hwalk := throughFirst_append p h []
  rw [List.append_nil] at hwalk
  exact hwalk.trans (List.append_nil l)

/-- A walk that gets to the greatest element ends there. -/
theorem throughFirst_greatest [Preorder α] (hl : (l ++ [i]).Pairwise (· < ·))
    (h : i ∈ throughFirst p (l ++ [i])) : throughFirst p (l ++ [i]) = l ++ [i] := by
  have hmiss : ∀ j ∈ l, p j = false := fun j hj =>
    ((mem_throughFirst p hl i).mp h).2 j (List.mem_append_left _ hj)
      ((List.pairwise_append.mp hl).2.2 j hj i (List.mem_singleton_self i))
  rw [throughFirst_append p hmiss, throughFirst]
  exact congrArg (l ++ ·) (ite_self [i])

end SenhubAgent.Lib

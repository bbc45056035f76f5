/-!
# Dealing a list out over labels

An accounting argument says where every item of a batch ended up: each one in
exactly one of several bins, and the bins keep the order of the batch. This
file is that notion on its own. `pick l ks xs` reads off the items whose label
is `l`; `Distributes xs d` says that some labelling of the *positions* of `xs`
produces the bins `d`. Labelling positions, not values, is what makes "exactly
one" meaningful when the same value occurs twice in the batch.

The rules used later: bins of a concatenation are the concatenated bins
(`Distributes.append`), a whole batch may go to one bin (`Distributes.single`),
bins of mapped items come from bins of the items (`Distributes.of_map`), and a
bin is a subsequence of the batch (`Distributes.sublist`).
-/

namespace SenhubAgent.Lib

variable {κ α β : Type} [DecidableEq κ]

/-- The items of `xs` whose position carries the label `l`. -/
def pick (l : κ) : List κ → List α → List α
  | k :: ks, x :: xs => if k = l then x :: pick l ks xs else pick l ks xs
  | _, _ => []

/-- Every position of `xs` carries exactly one label, and `d l` lists the items
labelled `l` in the order of `xs`. -/
def Distributes (xs : List α) (d : κ → List α) : Prop :=
  ∃ ks : List κ, ks.length = xs.length ∧ ∀ l, d l = pick l ks xs

theorem pick_append (l : κ) :
    ∀ (ks : List κ) (xs : List α) (ls : List κ) (ys : List α), ks.length = xs.length →
      pick l (ks ++ ls) (xs ++ ys) = pick l ks xs ++ pick l ls ys := by
  intro ks
  induction ks with
  | nil =>
    intro xs ls ys h
    rw [List.length_nil] at h
    rw [List.eq_nil_of_length_eq_zero h.symm]
    simp [pick]
  | cons k ks ih =>
    intro xs ls ys h
    cases xs with
    | nil => simp at h
    | cons x xs =>
      have hlen : ks.length = xs.length := by simpa using h
      simp only [List.cons_append, pick]
      rw [ih xs ls ys hlen]
      split
      · rfl
      · rfl

theorem pick_sublist (l : κ) : ∀ (ks : List κ) (xs : List α), (pick l ks xs).Sublist xs := by
  intro ks
  induction ks with
  | nil => intro xs; exact List.nil_sublist xs
  | cons k ks ih =>
    intro xs
    cases xs with
    | nil => exact List.Sublist.refl _
    | cons x xs =>
      simp only [pick]
      split
      · exact (ih xs).cons_cons x
      · exact (ih xs).cons x

theorem pick_replicate_self (l : κ) (xs : List α) :
    pick l (List.replicate xs.length l) xs = xs := by
  induction xs with
  | nil => rfl
  | cons x xs ih => simp [List.replicate_succ, pick, ih]

theorem pick_replicate_ne {l k : κ} (h : k ≠ l) (xs : List α) :
    pick l (List.replicate xs.length k) xs = [] := by
  induction xs with
  | nil => rfl
  | cons x xs ih => simp [List.replicate_succ, pick, ih, h]

theorem pick_map (l : κ) (f : α → β) :
    ∀ (ks : List κ) (xs : List α), pick l ks (xs.map f) = (pick l ks xs).map f := by
  intro ks
  induction ks with
  | nil => intro xs; simp [pick]
  | cons k ks ih =>
    intro xs
    cases xs with
    | nil => simp [pick]
    | cons x xs =>
      simp only [List.map_cons, pick, ih]
      split
      · rfl
      · rfl

theorem Distributes.nil : Distributes ([] : List α) (fun _ : κ => []) :=
  ⟨[], rfl, fun _ => rfl⟩

theorem Distributes.append {xs ys : List α} {d e : κ → List α}
    (hx : Distributes xs d) (hy : Distributes ys e) :
    Distributes (xs ++ ys) (fun l => d l ++ e l) := by
  obtain ⟨ks, hks, hd⟩ := hx
  obtain ⟨ls, hls, he⟩ := hy
  refine ⟨ks ++ ls, by simp [hks, hls], fun l => ?_⟩
  show d l ++ e l = _
  rw [pick_append l ks xs ls ys hks, hd l, he l]

/-- The whole batch in one bin. -/
theorem Distributes.single (k : κ) (xs : List α) :
    Distributes xs (fun l => if k = l then xs else []) := by
  refine ⟨List.replicate xs.length k, by simp, fun l => ?_⟩
  show (if k = l then xs else []) = _
  by_cases h : k = l
  · subst h
    rw [if_pos rfl, pick_replicate_self]
  · rw [if_neg h, pick_replicate_ne h]

/-- Bins of mapped items are mapped bins of the items. -/
theorem Distributes.of_map {xs : List α} {e : κ → List β} {f : α → β}
    (h : Distributes (xs.map f) e) : ∃ d, Distributes xs d ∧ ∀ l, e l = (d l).map f := by
  obtain ⟨ks, hks, he⟩ := h
  refine ⟨fun l => pick l ks xs, ⟨ks, by simpa using hks, fun _ => rfl⟩, fun l => ?_⟩
  rw [he l, pick_map]

theorem Distributes.sublist {xs : List α} {d : κ → List α} (h : Distributes xs d) (l : κ) :
    (d l).Sublist xs := by
  obtain ⟨ks, _, hd⟩ := h
  rw [hd l]
  exact pick_sublist l ks xs

end SenhubAgent.Lib

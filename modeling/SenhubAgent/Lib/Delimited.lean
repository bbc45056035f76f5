import Mathlib.Data.List.TakeWhile

/-!
# Reading delimited text

A rendering is injective when it can be read back: a run of characters of one class up to where
the class stops (`run_inj`), a field up to its separator (`field_inj`). A field that may hold the
separators is escaped and read up to the first that is not (`escape_inj`, and `pairsText_inj` for
a list of pairs).
-/

namespace SenhubAgent.Lib

variable {α : Type}

/-- `x` is empty or starts outside the class. -/
def StopsAt (p : α → Bool) (x : List α) : Prop := ∀ c, x.head? = some c → p c = false

variable {c sep esc eq : α} {p special : α → Bool} {run x x' a a' : List α}

theorem stopsAt_cons (h : p c = false) (x : List α) : StopsAt p (c :: x) := by
  intro c' hc'
  rw [List.head?_cons, Option.some.injEq] at hc'
  rw [← hc']
  exact h

theorem takeWhile_of_stopsAt (hrun : ∀ c ∈ run, p c = true) (hx : StopsAt p x) :
    (run ++ x).takeWhile p = run ∧ (run ++ x).dropWhile p = x := by
  rw [List.takeWhile_append_of_pos hrun, List.dropWhile_append_of_pos hrun]
  cases x with
  | nil => simp
  | cons c x =>
    have hc := hx c rfl
    simp [hc]

/-- A run and what follows it can be told apart. -/
theorem run_inj {run' : List α} (hrun : ∀ c ∈ run, p c = true) (hrun' : ∀ c ∈ run', p c = true)
    (hx : StopsAt p x) (hx' : StopsAt p x') (h : run ++ x = run' ++ x') : run = run' ∧ x = x' := by
  obtain ⟨htake, hdrop⟩ := takeWhile_of_stopsAt hrun hx
  obtain ⟨htake', hdrop'⟩ := takeWhile_of_stopsAt hrun' hx'
  rw [h] at htake hdrop
  exact ⟨htake.symm.trans htake', hdrop.symm.trans hdrop'⟩

variable [DecidableEq α]

/-- A field before the first separator. -/
theorem field_inj (ha : sep ∉ a) (ha' : sep ∉ a') (h : a ++ sep :: x = a' ++ sep :: x') :
    a = a' ∧ x = x' := by
  have hclean : ∀ {l : List α}, sep ∉ l → ∀ c ∈ l, decide (c ≠ sep) = true := by
    intro l hl c hc
    rw [decide_eq_true_eq]
    intro he
    exact hl (he ▸ hc)
  have hstop : ∀ y : List α, StopsAt (fun c => decide (c ≠ sep)) (sep :: y) :=
    fun y => stopsAt_cons (by simp) y
  obtain ⟨hfield, hrest⟩ := run_inj (hclean ha) (hclean ha') (hstop x) (hstop x') h
  exact ⟨hfield, List.tail_eq_of_cons_eq hrest⟩

/-- A field after the last separator. -/
theorem last_field_inj (ha : sep ∉ a) (ha' : sep ∉ a') (h : x ++ sep :: a = x' ++ sep :: a') :
    x = x' ∧ a = a' := by
  have hrev : a.reverse ++ sep :: x.reverse = a'.reverse ++ sep :: x'.reverse := by
    have hboth := congrArg List.reverse h
    simpa using hboth
  obtain ⟨hfield, hrest⟩ := field_inj (by simpa using ha) (by simpa using ha') hrev
  exact ⟨List.reverse_inj.mp hrest, List.reverse_inj.mp hfield⟩

/-! ## Escaped fields -/

/-- Every special character behind `esc`. -/
def escape (special : α → Bool) (esc : α) (l : List α) : List α :=
  l.flatMap fun c => if special c then [esc, c] else [c]

omit [DecidableEq α] in
/-- An escaped field up to a special character that is not the escape. Induction on both
fields; a special character of one is behind the escape, so it is never the first of what
follows the other. -/
theorem escape_inj (hesc : special esc = true) :
    ∀ {a b x y : List α}, (∀ c, x.head? = some c → special c = true ∧ c ≠ esc) →
      (∀ c, y.head? = some c → special c = true ∧ c ≠ esc) →
      escape special esc a ++ x = escape special esc b ++ y → a = b ∧ x = y := by
  -- a field that is not empty starts with the escape or a plain character
  have hstart : ∀ {c : α} {l w z : List α},
      (∀ d, z.head? = some d → special d = true ∧ d ≠ esc) →
      z ≠ escape special esc (c :: l) ++ w := by
    intro c l w z hz heq
    unfold escape at heq
    rw [List.flatMap_cons] at heq
    by_cases hc : special c = true
    · rw [if_pos hc] at heq
      exact (hz esc (by rw [heq]; rfl)).2 rfl
    · rw [if_neg hc] at heq
      exact hc (hz c (by rw [heq]; rfl)).1
  intro a
  induction a with
  | nil =>
    intro b x y hx _ h
    cases b with
    | nil => exact ⟨rfl, h⟩
    | cons c b => exact absurd h (hstart hx)
  | cons c a ih =>
    intro b x y hx hy h
    cases b with
    | nil => exact absurd h.symm (hstart hy)
    | cons c' b =>
      have hrest : c = c' → escape special esc a ++ x = escape special esc b ++ y →
          c :: a = c' :: b ∧ x = y := by
        intro hc hrest
        obtain ⟨hab, hxy⟩ := ih hx hy hrest
        exact ⟨by rw [hc, hab], hxy⟩
      unfold escape at h
      rw [List.flatMap_cons, List.flatMap_cons] at h
      by_cases hc : special c = true <;> by_cases hc' : special c' = true
      · rw [if_pos hc, if_pos hc'] at h
        simp only [List.cons_append, List.nil_append, List.cons.injEq, true_and] at h
        exact hrest h.1 h.2
      · rw [if_pos hc, if_neg hc'] at h
        simp only [List.cons_append, List.nil_append, List.cons.injEq] at h
        rw [h.1] at hesc
        exact absurd hesc hc'
      · rw [if_neg hc, if_pos hc'] at h
        simp only [List.cons_append, List.nil_append, List.cons.injEq] at h
        rw [← h.1] at hesc
        exact absurd hesc hc
      · rw [if_neg hc, if_neg hc'] at h
        simp only [List.cons_append, List.nil_append, List.cons.injEq] at h
        exact hrest h.1 h.2

/-- Pairs of escaped fields, each pair behind `sep`. -/
def pairsText (special : α → Bool) (esc sep eq : α) (pairs : List (List α × List α)) : List α :=
  pairs.flatMap fun kv => sep :: (escape special esc kv.1 ++ eq :: escape special esc kv.2)

omit [DecidableEq α] in
theorem pairsText_head (pairs : List (List α × List α))
    (h : (pairsText special esc sep eq pairs).head? = some c) : c = sep := by
  cases pairs with
  | nil => cases h
  | cons kv pairs =>
    unfold pairsText at h
    rw [List.flatMap_cons, List.cons_append, List.head?_cons, Option.some.injEq] at h
    exact h.symm

omit [DecidableEq α] in
theorem pairsText_inj (hesc : special esc = true) (hsep : special sep = true ∧ sep ≠ esc)
    (heq : special eq = true ∧ eq ≠ esc) :
    ∀ {pairs pairs' : List (List α × List α)},
      pairsText special esc sep eq pairs = pairsText special esc sep eq pairs' → pairs = pairs' := by
  have hnil : ∀ {kv : List α × List α} {pairs : List (List α × List α)},
      pairsText special esc sep eq (kv :: pairs) ≠ [] := by
    intro kv pairs h
    simp [pairsText] at h
  -- a text that follows a key or a value starts with a separator
  have hkey : ∀ {l : List α} (c : α), (eq :: l).head? = some c → special c = true ∧ c ≠ esc := by
    intro l c hc
    rw [List.head?_cons, Option.some.injEq] at hc
    exact hc ▸ heq
  have hvalue : ∀ {pairs : List (List α × List α)} (c : α),
      (pairsText special esc sep eq pairs).head? = some c → special c = true ∧ c ≠ esc := by
    intro pairs c hc
    exact pairsText_head pairs hc ▸ hsep
  intro pairs
  induction pairs with
  | nil =>
    intro pairs' h
    cases pairs' with
    | nil => rfl
    | cons kv pairs' => exact absurd h.symm hnil
  | cons kv pairs ih =>
    intro pairs' h
    cases pairs' with
    | nil => exact absurd h hnil
    | cons kv' pairs' =>
      have htext : ∀ (kv : List α × List α) (pairs : List (List α × List α)),
          pairsText special esc sep eq (kv :: pairs) = sep :: (escape special esc kv.1 ++
            eq :: (escape special esc kv.2 ++ pairsText special esc sep eq pairs)) := by
        intro kv pairs
        simp [pairsText]
      rw [htext, htext, List.cons.injEq] at h
      obtain ⟨hk, hrest⟩ := escape_inj hesc hkey hkey h.2
      rw [List.cons.injEq] at hrest
      obtain ⟨hv, hpairs⟩ := escape_inj hesc hvalue hvalue hrest.2
      rw [ih hpairs, Prod.ext hk hv]

end SenhubAgent.Lib

import Mathlib.Data.List.Perm.Lattice
import Mathlib.Data.List.Basic

/-!
# Keeping one of many

A scan keeps one entrant and replaces it whenever a later one beats it. Nothing is asked of
`beats`: it need not be transitive, nor decide between every two entrants. Which entrant is left
then depends on the order in general; it does not exactly when one entrant beats every other and
is beaten by none (`champion_perm_iff`). Where the entrants are read off other items, every order of
the entrants comes from one of the items (`exists_perm_filterMap`).
-/

namespace SenhubAgent.Lib

variable {α : Type} {beats : α → α → Bool}

variable (beats) in
/-- The entrant kept when `v` meets `kept`. -/
def keep (kept v : α) : α := if beats v kept then v else kept

variable (beats) in
/-- The entrant left at the end. -/
def champion : List α → Option α
  | [] => none
  | v :: vs => some (vs.foldl (keep beats) v)

variable (beats) in
/-- `w` beats every other entrant and is beaten by none. -/
def IsChampion (l : List α) (w : α) : Prop :=
  w ∈ l ∧ ∀ v ∈ l, v ≠ w → beats w v = true ∧ beats v w = false

theorem keep_self (v : α) : keep beats v v = v := ite_self v

theorem foldl_keep_mem (vs : List α) : ∀ kept : α, vs.foldl (keep beats) kept ∈ kept :: vs := by
  induction vs with
  | nil =>
    intro kept
    exact List.mem_singleton_self kept
  | cons v vs ih =>
    intro kept
    have hrest := ih (keep beats kept v)
    rw [List.mem_cons] at hrest
    rcases hrest with hrest | hrest
    · rw [List.foldl_cons, hrest]
      unfold keep
      split
      next => exact List.mem_cons_of_mem _ (List.mem_cons_self ..)
      next => exact List.mem_cons_self ..
    · exact List.mem_cons_of_mem _ (List.mem_cons_of_mem _ hrest)

variable {l : List α} {w : α}

theorem champion_mem (h : champion beats l = some w) : w ∈ l := by
  cases l with
  | nil => cases h
  | cons v vs => exact Option.some.inj h ▸ foldl_keep_mem vs v

/-- Once met, a champion stays. -/
theorem foldl_keep_champion (vs : List α) : ∀ {kept : α},
    (∀ v ∈ kept :: vs, v ≠ w → beats w v = true ∧ beats v w = false) → (kept = w ∨ w ∈ vs) →
      vs.foldl (keep beats) kept = w := by
  induction vs with
  | nil =>
    intro kept _ hw
    exact hw.elim id fun hin => nomatch hin
  | cons v vs ih =>
    intro kept h hw
    rw [List.forall_mem_cons, List.forall_mem_cons] at h
    obtain ⟨hkept, hv, hvs⟩ := h
    rw [List.foldl_cons]
    by_cases heq : kept = w
    · -- the champion is kept already, and `v` does not beat it
      have hstays : keep beats kept v = w := by
        rw [heq]
        by_cases hvw : v = w
        · rw [hvw, keep_self]
        · exact if_neg (by simp [(hv hvw).2])
      rw [hstays]
      exact ih (List.forall_mem_cons.mpr ⟨fun hne => absurd rfl hne, hvs⟩) (.inl rfl)
    · rcases hw with hw | hw
      · exact absurd hw heq
      · rcases List.mem_cons.mp hw with hw | hw
        · rw [← hw, keep, if_pos (hkept heq).1]
          exact ih (List.forall_mem_cons.mpr ⟨fun hne => absurd rfl hne, hvs⟩) (.inl rfl)
        · refine ih (List.forall_mem_cons.mpr ⟨?_, hvs⟩) (.inr hw)
          unfold keep
          split
          next => exact hv
          next => exact hkept

theorem IsChampion.champion (h : IsChampion beats l w) : champion beats l = some w := by
  cases l with
  | nil => cases h.1
  | cons v vs =>
    refine congrArg some (foldl_keep_champion vs h.2 ?_)
    rcases List.mem_cons.mp h.1 with hw | hw
    · exact .inl hw.symm
    · exact .inr hw

theorem IsChampion.perm {l' : List α} (h : IsChampion beats l w) (hp : l'.Perm l) :
    IsChampion beats l' w :=
  ⟨hp.mem_iff.mpr h.1, fun v hv => h.2 v (hp.mem_iff.mp hv)⟩

theorem foldl_keep_of_not_beats {v : α} (h : beats w v = false) {ws : List α}
    (hws : ∀ x ∈ ws, x = w) : ws.foldl (keep beats) v = v := by
  induction ws with
  | nil => rfl
  | cons x ws ih =>
    rw [List.forall_mem_cons] at hws
    rw [List.foldl_cons, hws.1, keep, if_neg (by simp [h])]
    exact ih hws.2

/-- The orders that tell a champion: a rival before all its copies, and right after them. -/
theorem perm_rival {v : α} (hv : v ∈ l) (hne : v ≠ w) :
    ∃ ws rest, l.Perm (v :: (ws ++ rest)) ∧ (∀ x ∈ ws, x = w) ∧ w ∉ rest := by
  classical
  have hmem : v ∈ l.filter (fun x => !decide (x = w)) :=
    List.mem_filter.mpr ⟨hv, by simp [hne]⟩
  refine ⟨l.filter (fun x => decide (x = w)), (l.filter fun x => !decide (x = w)).erase v,
    ?_, ?_, ?_⟩
  · have hsplit := (List.filter_append_perm (fun x => decide (x = w)) l).symm
    refine hsplit.trans (((List.perm_cons_erase hmem).append_left _).trans ?_)
    exact List.perm_middle
  · intro x hx
    exact of_decide_eq_true (List.mem_filter.mp hx).2
  · intro hw
    have hin := List.mem_filter.mp (List.mem_of_mem_erase hw)
    simp at hin

theorem isChampion_of_perm (h : ∀ l', l'.Perm l → champion beats l' = some w) :
    IsChampion beats l w := by
  refine ⟨champion_mem (h l (List.Perm.refl l)), fun v hv hne => ?_⟩
  obtain ⟨ws, rest, hp, hws, hrest⟩ := perm_rival hv hne
  -- what is left of `v` and `rest` is not `w`
  have hlost : rest.foldl (keep beats) v ≠ w := by
    intro heq
    rcases List.mem_cons.mp (heq ▸ foldl_keep_mem rest v) with hw | hw
    · exact hne hw.symm
    · exact hrest hw
  constructor
  · by_contra hno
    have hfirst := h _ hp.symm
    rw [champion, List.foldl_append, foldl_keep_of_not_beats (by simpa using hno) hws] at hfirst
    exact hlost (Option.some.inj hfirst)
  · by_contra hbeaten
    have hlast := h _ ((List.perm_middle.trans hp.symm : (ws ++ v :: rest).Perm l))
    cases ws with
    | nil => exact hlost (Option.some.inj hlast)
    | cons x ws =>
      rw [List.forall_mem_cons] at hws
      have hcopies : ws.foldl (keep beats) w = w := by
        refine foldl_keep_champion ws (fun x hx hne => ?_) (.inl rfl)
        rcases List.mem_cons.mp hx with hx | hx
        · exact absurd hx hne
        · exact absurd (hws.2 x hx) hne
      rw [hws.1, List.cons_append, champion, List.foldl_append, hcopies, List.foldl_cons, keep,
        if_pos (by simpa using hbeaten)] at hlast
      exact hlost (Option.some.inj hlast)

/-- **The order does not matter** exactly when there is a champion. -/
theorem champion_perm_iff (l : List α) :
    (∀ l', l'.Perm l → champion beats l' = champion beats l) ↔
      l = [] ∨ ∃ w, IsChampion beats l w := by
  constructor
  · intro h
    cases hl : champion beats l with
    | none =>
      cases l with
      | nil => exact .inl rfl
      | cons v vs => cases hl
    | some w => exact .inr ⟨w, isChampion_of_perm fun l' hp => (h l' hp).trans hl⟩
  · intro h l' hp
    rcases h with h | ⟨w, hw⟩
    · rw [h] at hp ⊢
      rw [hp.eq_nil]
    · rw [(hw.perm hp).champion, hw.champion]

/-- Every order of the images is the image of an order. -/
theorem exists_perm_filterMap {β : Type} (g : α → Option β) (l : List α) :
    ∀ {vs : List β}, vs.Perm (l.filterMap g) → ∃ l' : List α, l'.Perm l ∧ l'.filterMap g = vs := by
  induction l with
  | nil =>
    intro vs h
    exact ⟨[], List.Perm.refl _, h.eq_nil.symm⟩
  | cons a l ih =>
    intro vs h
    cases hg : g a with
    | none =>
      rw [List.filterMap_cons_none hg] at h
      obtain ⟨l', hl', hvs⟩ := ih h
      exact ⟨a :: l', hl'.cons a, (List.filterMap_cons_none hg).trans hvs⟩
    | some v =>
      rw [List.filterMap_cons_some hg] at h
      obtain ⟨xs, ys, hvs⟩ := List.append_of_mem (h.mem_iff.mpr (List.mem_cons_self ..))
      rw [hvs] at h
      obtain ⟨l', hl', hrest⟩ := ih (List.perm_middle.symm.trans h).cons_inv
      obtain ⟨l₁, l₂, hsplit, hxs, hys⟩ := List.filterMap_eq_append_iff.mp hrest
      refine ⟨l₁ ++ a :: l₂, List.perm_middle.trans ((hsplit ▸ hl').cons a), ?_⟩
      rw [List.filterMap_append, List.filterMap_cons_some hg, hxs, hys, hvs]

end SenhubAgent.Lib

import Mathlib.Data.List.Pairwise
import Mathlib.Order.Basic
import Mathlib.Order.Lattice

/-!
# Maps as sorted association lists

A finite map written as the list of its entries in increasing order of keys has
one representation, so two such maps are equal as soon as they answer every
lookup alike (`Keyed.ext`). That makes this the representation for trees whose
inner nodes are maps: an inductive type can nest through a list, and the maps
inside still compare by plain equality.

`get?`, `insert` and `filterEntries` (a walk that keeps, changes or drops each
entry) all stay within sorted lists.
-/

namespace SenhubAgent.Lib.SortedMap

variable {κ α β : Type} [LinearOrder κ]

/-- The keys increase along the list. -/
def Keyed (es : List (κ × α)) : Prop := es.Pairwise fun a b => a.1 < b.1

instance (es : List (κ × α)) : Decidable (Keyed es) :=
  inferInstanceAs (Decidable (es.Pairwise _))

def get? (k : κ) : List (κ × α) → Option α
  | [] => none
  | (k', v) :: es => if k' = k then some v else get? k es

def insert (k : κ) (v : α) : List (κ × α) → List (κ × α)
  | [] => [(k, v)]
  | (k', v') :: es =>
    if k < k' then (k, v) :: (k', v') :: es
    else if k = k' then (k, v) :: es
    else (k', v') :: insert k v es

/-- `m[k] = v` where there is a `v`, nothing otherwise. -/
def assign (k : κ) : Option α → List (κ × α) → List (κ × α)
  | none, es => es
  | some v, es => insert k v es

/-- The entries of a walk that answers, for each entry, the value to keep. -/
def filterEntries (f : κ → α → Option β) : List (κ × α) → List (κ × β)
  | [] => []
  | (k, v) :: es =>
    match f k v with
    | none => filterEntries f es
    | some w => (k, w) :: filterEntries f es

/-! ## Sorted lists -/

theorem keyed_nil : Keyed ([] : List (κ × α)) := List.Pairwise.nil

variable {es fs : List (κ × α)} {v : α} {k : κ}

theorem keyed_cons : Keyed ((k, v) :: es) ↔ (∀ e ∈ es, k < e.1) ∧ Keyed es := List.pairwise_cons

theorem get?_eq_none (h : ∀ e ∈ es, e.1 ≠ k) : get? k es = none := by
  induction es with
  | nil => rfl
  | cons e es ih =>
    rw [get?, if_neg (h e List.mem_cons_self)]
    exact ih fun e' he' => h e' (List.mem_cons_of_mem _ he')

theorem get?_mem (h : get? k es = some v) : (k, v) ∈ es := by
  induction es with
  | nil => cases h
  | cons e es ih =>
    rw [get?] at h
    split at h
    next hk =>
      cases h
      rw [← hk]
      exact List.mem_cons_self
    next => exact List.mem_cons_of_mem _ (ih h)

theorem Keyed.get? (h : Keyed es) (hmem : (k, v) ∈ es) : get? k es = some v := by
  induction es with
  | nil => cases hmem
  | cons e es ih =>
    obtain ⟨hlt, hes⟩ := keyed_cons.mp h
    rw [SortedMap.get?]
    rcases List.mem_cons.mp hmem with heq | hin
    · rw [← heq, if_pos rfl]
    · rw [if_neg (hlt _ hin).ne]
      exact ih hes hin

/-- Two sorted lists that answer every lookup alike are equal. -/
theorem Keyed.ext (he : Keyed es) (hf : Keyed fs)
    (h : ∀ k, SortedMap.get? k es = SortedMap.get? k fs) : es = fs := by
  induction es generalizing fs with
  | nil =>
    cases fs with
    | nil => rfl
    | cons f fs => exact absurd (h f.1) (by simp [SortedMap.get?])
  | cons e es ih =>
    cases fs with
    | nil => exact absurd (h e.1) (by simp [SortedMap.get?])
    | cons f fs =>
      obtain ⟨hlt, hes⟩ := keyed_cons.mp he
      obtain ⟨hlt', hfs⟩ := keyed_cons.mp hf
      -- each head is found in the other list, so neither key is below the other
      have hmem : e ∈ f :: fs := get?_mem ((h e.1).symm.trans (he.get? List.mem_cons_self))
      have hmem' : f ∈ e :: es := get?_mem ((h f.1).trans (hf.get? List.mem_cons_self))
      have heq : e = f := by
        rcases List.mem_cons.mp hmem with heq | hin
        · exact heq
        · rcases List.mem_cons.mp hmem' with heq | hin'
          · exact heq.symm
          · exact absurd (hlt _ hin') (hlt' _ hin).asymm
      subst heq
      rw [ih hes hfs]
      intro k
      have hk := h k
      by_cases hek : e.1 = k
      · rw [get?_eq_none fun x hx => hek ▸ (hlt x hx).ne',
          get?_eq_none fun x hx => hek ▸ (hlt' x hx).ne']
      · simpa [SortedMap.get?, hek] using hk

/-! ## Insertion -/

theorem mem_insert {e : κ × α} (h : e ∈ insert k v es) : e = (k, v) ∨ e ∈ es := by
  induction es with
  | nil => exact .inl (List.mem_singleton.mp h)
  | cons e' es ih =>
    rw [insert] at h
    split at h
    next => exact List.mem_cons.mp h
    next =>
      split at h
      next =>
        rcases List.mem_cons.mp h with heq | hin
        · exact .inl heq
        · exact .inr (List.mem_cons_of_mem _ hin)
      next =>
        rcases List.mem_cons.mp h with heq | hin
        · exact .inr (heq ▸ List.mem_cons_self)
        · exact (ih hin).imp_right (List.mem_cons_of_mem _)

theorem Keyed.insert (h : Keyed es) (k : κ) (v : α) : Keyed (insert k v es) := by
  induction es with
  | nil => exact List.pairwise_singleton _ _
  | cons e es ih =>
    obtain ⟨hlt, hes⟩ := keyed_cons.mp h
    rw [SortedMap.insert]
    split
    next hk =>
      refine keyed_cons.mpr ⟨fun e' he' => ?_, h⟩
      rcases List.mem_cons.mp he' with heq | hin
      · exact heq ▸ hk
      · exact hk.trans (hlt _ hin)
    next hk =>
      split
      next heq => exact keyed_cons.mpr ⟨fun e' he' => heq ▸ hlt _ he', hes⟩
      next hne =>
        refine keyed_cons.mpr ⟨fun e' he' => ?_, ih hes⟩
        rcases mem_insert he' with heq | hin
        · rw [heq]
          exact lt_of_le_of_ne (not_lt.mp hk) (Ne.symm hne)
        · exact hlt _ hin

theorem get?_insert_self (k : κ) (v : α) (es : List (κ × α)) : get? k (insert k v es) = some v := by
  induction es with
  | nil => exact if_pos rfl
  | cons e es ih =>
    rw [insert]
    split
    next => exact if_pos rfl
    next =>
      split
      next => exact if_pos rfl
      next hne => exact (if_neg (Ne.symm hne)).trans ih

theorem get?_insert_ne {k' : κ} (h : k ≠ k') (v : α) (es : List (κ × α)) :
    get? k' (insert k v es) = get? k' es := by
  induction es with
  | nil => exact if_neg h
  | cons e es ih =>
    rw [insert]
    split
    next => exact if_neg h
    next =>
      split
      next heq => rw [get?, get?, if_neg h, if_neg (heq ▸ h)]
      next => rw [get?, get?, ih]

theorem Keyed.assign (h : Keyed es) (k : κ) (v : Option α) : Keyed (assign k v es) := by
  cases v with
  | none => exact h
  | some v => exact h.insert k v

theorem get?_assign_ne {k' : κ} (h : k ≠ k') (v : Option α) (es : List (κ × α)) :
    get? k' (assign k v es) = get? k' es := by
  cases v with
  | none => rfl
  | some v => exact get?_insert_ne h v es

/-- Assigning what a function makes of the old value; the function never unsets a key. -/
theorem get?_assign_self {f : Option α → Option α} (hf : ∀ v, f (some v) ≠ none)
    (es : List (κ × α)) : get? k (assign k (f (get? k es)) es) = f (get? k es) := by
  cases hv : f (get? k es) with
  | some v => exact get?_insert_self k v es
  | none =>
    show get? k es = none
    cases hk : get? k es with
    | none => rfl
    | some v => exact absurd (hk ▸ hv) (hf v)

/-! ## Walks -/

omit [LinearOrder κ] in
theorem mem_filterEntries {f : κ → α → Option β} {e : κ × β} (h : e ∈ filterEntries f es) :
    ∃ v, (e.1, v) ∈ es ∧ f e.1 v = some e.2 := by
  induction es with
  | nil => cases h
  | cons e' es ih =>
    obtain ⟨k, v⟩ := e'
    rw [filterEntries] at h
    have hrest (hin : e ∈ filterEntries f es) :
        ∃ v', (e.1, v') ∈ (k, v) :: es ∧ f e.1 v' = some e.2 := by
      obtain ⟨v', hmem, hv'⟩ := ih hin
      exact ⟨v', List.mem_cons_of_mem _ hmem, hv'⟩
    split at h
    next => exact hrest h
    next w hw =>
      rcases List.mem_cons.mp h with heq | hin
      · subst heq
        exact ⟨v, List.mem_cons_self, hw⟩
      · exact hrest hin

theorem Keyed.filterEntries (h : Keyed es) (f : κ → α → Option β) : Keyed (filterEntries f es) := by
  induction es with
  | nil => exact keyed_nil
  | cons e es ih =>
    obtain ⟨hlt, hes⟩ := keyed_cons.mp h
    rw [SortedMap.filterEntries]
    split
    next => exact ih hes
    next =>
      refine keyed_cons.mpr ⟨fun e' he' => ?_, ih hes⟩
      obtain ⟨v, hmem, _⟩ := mem_filterEntries he'
      exact hlt _ hmem

theorem Keyed.get?_filterEntries (h : Keyed es) (f : κ → α → Option β) (k : κ) :
    SortedMap.get? k (SortedMap.filterEntries f es) = (SortedMap.get? k es).bind (f k) := by
  induction es with
  | nil => rfl
  | cons e es ih =>
    obtain ⟨k', v⟩ := e
    obtain ⟨hlt, hes⟩ := keyed_cons.mp h
    rw [SortedMap.filterEntries, SortedMap.get?]
    by_cases hk : k' = k
    · subst hk
      rw [if_pos rfl, Option.bind_some]
      split
      next hnone =>
        rw [hnone]
        refine get?_eq_none fun e' he' => ?_
        obtain ⟨v', hmem, _⟩ := mem_filterEntries he'
        exact (hlt _ hmem).ne'
      next w hw =>
        rw [hw]
        exact if_pos rfl
    · rw [if_neg hk]
      split
      next => exact ih hes
      next => exact (if_neg hk).trans (ih hes)

end SenhubAgent.Lib.SortedMap

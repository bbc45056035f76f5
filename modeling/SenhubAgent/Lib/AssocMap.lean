import Mathlib.Algebra.GroupWithZero.Nat
import Mathlib.Data.List.AList

/-!
# Weighing an association map

A component that keeps a running count beside a map (bytes on disk, entries of
one owner) is right when the count equals the weight of the map: the sum of a
weight over its entries. `total` is that sum over Mathlib's `AList`; the rules say
what an `erase`, an `insert` and a deleting loop (`eraseWhere`) do to it.

`readCount` reads a map of counters with an absent key as zero.
-/

namespace SenhubAgent.Lib

/-- A finite map with keys `K` and values `V`. -/
abbrev AssocMap (K V : Type) := AList (fun _ : K => V)

variable {K V : Type}

/-- The sum of the weight `w` over the entries of `m`. -/
def total (w : K → V → Nat) (m : AssocMap K V) : Nat :=
  (m.entries.map fun e => w e.1 e.2).sum

/-- The weight of an indicator is a count of entries. -/
theorem total_countP (p : V → Bool) (m : AssocMap K V) :
    total (fun _ v => if p v then 1 else 0) m = m.entries.countP fun e => p e.2 := by
  unfold total
  rw [List.countP_eq_length_filter]
  induction m.entries with
  | nil => rfl
  | cons e es ih =>
    rw [List.map_cons, List.sum_cons, ih, List.filter_cons]
    by_cases hp : p e.2
    · simp only [hp, if_true, List.length_cons]
      omega
    · simp [hp]

theorem total_one (m : AssocMap K V) : total (fun _ _ => 1) m = m.entries.length := by
  unfold total
  simp

variable [DecidableEq K] {m : AssocMap K V} {k q : K} {v w : V}

/-! ## Reading -/

theorem mem_of_lookup (h : m.lookup k = some v) : k ∈ m :=
  AList.lookup_isSome.mp (by rw [h]; rfl)

theorem exists_lookup (h : k ∈ m) : ∃ v, m.lookup k = some v :=
  Option.isSome_iff_exists.mp (AList.lookup_isSome.mpr h)

theorem lookup_insert_if (m : AssocMap K V) (k q : K) (v : V) :
    (m.insert k v).lookup q = if q = k then some v else m.lookup q := by
  split
  next h => rw [h, AList.lookup_insert]
  next h => exact AList.lookup_insert_ne h

theorem lookup_erase_if (m : AssocMap K V) (k q : K) :
    (m.erase k).lookup q = if q = k then none else m.lookup q := by
  split
  next h => rw [h, AList.lookup_erase]
  next h => exact AList.lookup_erase_ne h

/-- What is read after an `insert` is the new value, or was there before. -/
theorem lookup_of_insert (h : (m.insert k v).lookup q = some w) :
    q = k ∧ v = w ∨ m.lookup q = some w := by
  rw [lookup_insert_if] at h
  split at h
  next heq => exact .inl ⟨heq, Option.some.inj h⟩
  next => exact .inr h

theorem lookup_of_erase (h : (m.erase k).lookup q = some v) : m.lookup q = some v := by
  rw [lookup_erase_if] at h
  split at h
  next => cases h
  next => exact h

/-! ## Weighing -/

/-- An entry weighs in once. -/
theorem total_erase (w : K → V → Nat) (h : m.lookup k = some v) :
    total w m = w k v + total w (m.erase k) := by
  have hmem : k ∈ m.entries.keys := AList.mem_keys.mp (mem_of_lookup h)
  obtain ⟨v', l₁, l₂, _, hentries, hrest⟩ := List.exists_of_kerase hmem
  have hv : v' = v := by
    have hin : (⟨k, v'⟩ : Sigma fun _ : K => V) ∈ m.entries := by rw [hentries]; simp
    have hlook := AList.mem_lookup_iff.mpr hin
    rw [h] at hlook
    exact (Option.mem_some_iff.mp hlook).symm
  subst hv
  unfold total
  rw [show (m.erase k).entries = l₁ ++ l₂ from hrest, hentries]
  simp only [List.map_append, List.map_cons, List.sum_append, List.sum_cons]
  omega

theorem total_insert (w : K → V → Nat) (m : AssocMap K V) (k : K) (v : V) :
    total w (m.insert k v) = w k v + total w (m.erase k) := by
  unfold total
  rw [AList.entries_insert]
  rfl

/-- An update that changes no weight. -/
theorem total_update (w : K → V → Nat) {v' : V} (h : m.lookup k = some v) (hw : w k v' = w k v) :
    total w (m.insert k v') = total w m := by
  rw [total_insert, hw, ← total_erase w h]

/-- A map whose entries all weigh nothing weighs nothing. -/
theorem total_eq_zero (w : K → V → Nat) (h : ∀ k v, m.lookup k = some v → w k v = 0) :
    total w m = 0 := by
  unfold total
  rw [List.sum_eq_zero_iff_forall_eq_nat]
  intro n hn
  obtain ⟨e, he, hw⟩ := List.mem_map.mp hn
  rw [← hw]
  exact h e.1 e.2 (AList.mem_lookup_iff.mpr he)

theorem erase_of_absent (h : k ∉ m) : m.erase k = m :=
  AList.ext (List.kerase_of_notMem_keys (fun hk => h (AList.mem_keys.mpr hk)))

/-! ## Deleting while ranging over a map -/

/-- `for k, v := range m { if p(k, v) { delete(m, k) } }`, visiting the keys in
the order given. -/
def eraseWhere (p : K → V → Bool) : List K → AssocMap K V → AssocMap K V
  | [], m => m
  | k :: order, m =>
    match m.lookup k with
    | none => eraseWhere p order m
    | some v => eraseWhere p order (if p k v then m.erase k else m)

/-- What the loop leaves: an entry it visits and `p` picks is gone, and it deletes
nothing else. -/
theorem lookup_eraseWhere (p : K → V → Bool) (k : K) :
    ∀ (order : List K) (m : AssocMap K V), (eraseWhere p order m).lookup k
      = (m.lookup k).filter fun v => !(decide (k ∈ order) && p k v) := by
  intro order
  induction order with
  | nil =>
    intro m
    unfold eraseWhere
    cases m.lookup k with
    | none => rfl
    | some v => simp [Option.filter_some]
  | cons k' order ih =>
    intro m
    unfold eraseWhere
    by_cases hk : k = k'
    · subst hk
      cases hv : m.lookup k with
      | none => simp [ih, hv]
      | some v =>
        by_cases hp : p k v
        · simp [ih, hp, Option.filter_some]
        · simp [ih, hv, hp, Option.filter_some]
    · cases m.lookup k' with
      | none => simp [ih, hk]
      | some v =>
        show (eraseWhere p order (if p k' v then m.erase k' else m)).lookup k = _
        have herase : (if p k' v then m.erase k' else m).lookup k = m.lookup k := by
          split
          next => exact AList.lookup_erase_ne hk
          next => rfl
        rw [ih, herase]
        simp [hk]

/-- Deleting entries that weigh nothing. -/
theorem total_eraseWhere (w : K → V → Nat) {p : K → V → Bool}
    (h : ∀ k v, p k v = true → w k v = 0) :
    ∀ (order : List K) (m : AssocMap K V), total w (eraseWhere p order m) = total w m := by
  intro order
  induction order with
  | nil => intro m; rfl
  | cons k order ih =>
    intro m
    unfold eraseWhere
    split
    next => exact ih m
    next v hv =>
      rw [ih]
      split
      next hp =>
        have hw := total_erase w hv
        have hzero := h k v hp
        omega
      next => rfl

/-- A deleting loop never adds weight. -/
theorem total_eraseWhere_le (w : K → V → Nat) (p : K → V → Bool) :
    ∀ (order : List K) (m : AssocMap K V), total w (eraseWhere p order m) ≤ total w m := by
  intro order
  induction order with
  | nil => intro m; exact Nat.le_refl _
  | cons k order ih =>
    intro m
    unfold eraseWhere
    split
    next => exact ih m
    next v hv =>
      split
      next =>
        have hw := total_erase w hv
        have hrest := ih (m.erase k)
        omega
      next => exact ih m

/-! ## Counters -/

/-- `m[k]`, zero when absent. -/
def readCount (m : AssocMap K Nat) (k : K) : Nat := (m.lookup k).getD 0

theorem readCount_insert (m : AssocMap K Nat) (k q : K) (n : Nat) :
    readCount (m.insert k n) q = if q = k then n else readCount m q := by
  unfold readCount
  rw [lookup_insert_if]
  split
  · rfl
  · rfl

theorem readCount_erase (m : AssocMap K Nat) (k q : K) :
    readCount (m.erase k) q = if q = k then 0 else readCount m q := by
  unfold readCount
  rw [lookup_erase_if]
  split
  · rfl
  · rfl

end SenhubAgent.Lib

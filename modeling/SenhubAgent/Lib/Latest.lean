import SenhubAgent.Lib.AssocMap

/-!
# The last entry of a key

A loop `m[k] = v` over a list of pairs leaves, under each key, the last value the list has for it
(`lookup_insertAll`). `latest` is that value; `latest_append`, `latest_filter` and
`latest_filterMap_eq_some_iff` read it off a list that is put together from parts, and
`latest_entries` off the entries of another map.
-/

namespace SenhubAgent.Lib

variable {K V : Type} [DecidableEq K]

/-- `for _, w := range ws { m[w.k] = w.v }` -/
def insertAll (m : AssocMap K V) (ws : List (K × V)) : AssocMap K V :=
  ws.foldl (fun m w => m.insert w.1 w.2) m

/-- The last value a list has for a key. -/
def latest (k : K) : List (K × V) → Option V
  | [] => none
  | w :: ws => (latest k ws).or (if w.1 = k then some w.2 else none)

theorem insertAll_append (m : AssocMap K V) (ws ws' : List (K × V)) :
    insertAll m (ws ++ ws') = insertAll (insertAll m ws) ws' := by
  simp [insertAll]

theorem latest_append (k : K) (ws ws' : List (K × V)) :
    latest k (ws ++ ws') = (latest k ws').or (latest k ws) := by
  induction ws with
  | nil => simp [latest]
  | cons w ws ih => rw [List.cons_append, latest, latest, ih, Option.or_assoc]

theorem lookup_insertAll (k : K) : ∀ (ws : List (K × V)) (m : AssocMap K V),
    (insertAll m ws).lookup k = (latest k ws).or (m.lookup k) := by
  intro ws
  induction ws with
  | nil => intro m; rfl
  | cons w ws ih =>
    intro m
    show (insertAll (m.insert w.1 w.2) ws).lookup k = _
    rw [ih]
    by_cases hk : w.1 = k
    · rw [latest, if_pos hk, hk, AList.lookup_insert, Option.or_assoc, Option.some_or]
    · rw [latest, if_neg hk, Option.or_none, AList.lookup_insert_ne (Ne.symm hk)]

variable {k : K} {ws : List (K × V)}

theorem latest_filter {p : K × V → Bool} (h : ∀ w ∈ ws, w.1 = k → p w = true) :
    latest k (ws.filter p) = latest k ws := by
  induction ws with
  | nil => rfl
  | cons w ws ih =>
    have hrest := ih fun w' hw' => h w' (List.mem_cons_of_mem _ hw')
    by_cases hk : w.1 = k
    · rw [List.filter_cons_of_pos (h w List.mem_cons_self hk), latest, latest, hrest]
    · by_cases hp : p w = true
      · rw [List.filter_cons_of_pos hp, latest, latest, hrest]
      · rw [List.filter_cons_of_neg hp, hrest, latest, if_neg hk, Option.or_none]

theorem latest_eq_none_iff : latest k ws = none ↔ ∀ w ∈ ws, w.1 ≠ k := by
  induction ws with
  | nil => simp [latest]
  | cons w ws ih => simp [latest, Option.or_eq_none_iff, ih, and_comm]

/-- A value is the last when no pair after it has the key. -/
theorem latest_filterMap_eq_some_iff {A : Type} {f : A → Option (K × V)} {v : V} {l : List A} :
    latest k (l.filterMap f) = some v
      ↔ ∃ before a after, l = before ++ a :: after ∧ f a = some (k, v)
        ∧ ∀ b ∈ after, ∀ v', f b ≠ some (k, v') := by
  have hnone : ∀ {l : List A}, latest k (l.filterMap f) = none
      ↔ ∀ b ∈ l, ∀ v', f b ≠ some (k, v') := by
    intro l
    rw [latest_eq_none_iff]
    constructor
    · intro h b hb v' hf
      exact h _ (List.mem_filterMap.mpr ⟨b, hb, hf⟩) rfl
    · rintro h ⟨k', v'⟩ hw rfl
      obtain ⟨b, hb, hf⟩ := List.mem_filterMap.mp hw
      exact h b hb v' hf
  constructor
  · intro h
    induction l with
    | nil => cases h
    | cons a l ih =>
      rw [← List.singleton_append, List.filterMap_append, latest_append] at h
      cases hrest : latest k (l.filterMap f) with
      | some v' =>
        rw [hrest, Option.some_or] at h
        obtain ⟨before, b, after, heq, hb⟩ := ih (hrest.trans h)
        exact ⟨a :: before, b, after, by rw [heq]; rfl, hb⟩
      | none =>
        rw [hrest, Option.none_or] at h
        refine ⟨[], a, l, rfl, ?_, hnone.mp hrest⟩
        cases ha : f a with
        | none => simp [ha, latest] at h
        | some w =>
          obtain ⟨k', v'⟩ := w
          simpa [ha, latest] using h
  · rintro ⟨before, a, after, rfl, ha, hafter⟩
    rw [List.filterMap_append, latest_append, List.filterMap_cons_some ha, latest,
      hnone.mpr hafter, if_pos rfl]
    rfl

/-- A loop over a map that keeps the keys: each key has what the loop makes of its value. -/
theorem latest_entries {W : Type} (m : AssocMap K V) (f : K → V → Option W) (k : K) :
    latest k (m.entries.filterMap fun e => (f e.1 e.2).map (e.1, ·)) = (m.lookup k).bind (f k) := by
  have hmem : ∀ {w}, latest k (m.entries.filterMap fun e => (f e.1 e.2).map (e.1, ·)) = some w →
      (m.lookup k).bind (f k) = some w := by
    intro w h
    obtain ⟨before, e, after, heq, he, -⟩ := latest_filterMap_eq_some_iff.mp h
    obtain ⟨w', hw, hpair⟩ := Option.map_eq_some_iff.mp he
    obtain ⟨rfl, rfl⟩ := Prod.mk.inj hpair
    have hentry : e ∈ m.entries := by rw [heq]; simp
    rw [Option.mem_def.mp (AList.mem_lookup_iff.mpr hentry)]
    exact hw
  cases hlatest : latest k (m.entries.filterMap fun e => (f e.1 e.2).map (e.1, ·)) with
  | some w => exact (hmem hlatest).symm
  | none =>
    cases hlookup : m.lookup k with
    | none => rfl
    | some v =>
      symm
      rw [Option.bind_some, ← Option.not_isSome_iff_eq_none, Option.isSome_iff_exists]
      rintro ⟨w, hw⟩
      refine latest_eq_none_iff.mp hlatest (k, w) (List.mem_filterMap.mpr ⟨⟨k, v⟩, ?_, ?_⟩) rfl
      · exact AList.mem_lookup_iff.mp hlookup
      · show (f k v).map (k, ·) = _
        rw [hw]
        rfl

end SenhubAgent.Lib

import SenhubAgent.Lib.AssocMap
import Mathlib.Data.List.Perm.Lattice

/-!
# A map with an index by owner

A store keeps `m : K → V` and, beside it, for every owner the set of keys whose value
belongs to that owner. `Indexed owner m idx` says the index is right: a key stands in
the group of an owner exactly when it is stored with a value of that owner. So no
entry of the index dangles, and listing a group lists the owner's values once each
(`Indexed.perm`).

The rules cover what such stores do: store under a key that is new or already belongs
to the same owner (`Indexed.put`), drop one entry (`Indexed.drop`), forget an owner
(`Indexed.forget`). Storing over another owner's key has no rule: the old owner's group
keeps the key.
-/

namespace SenhubAgent.Lib

/-- A set of keys, as a map to nothing. -/
abbrev KeySet (K : Type) := AssocMap K Unit

variable {K V I : Type} [DecidableEq I]

/-- `idx[i]`, empty when absent. -/
def group (idx : AssocMap I (KeySet K)) (i : I) : KeySet K := (idx.lookup i).getD ∅

theorem group_insert (idx : AssocMap I (KeySet K)) (i j : I) (keys : KeySet K) :
    group (idx.insert i keys) j = if j = i then keys else group idx j := by
  unfold group
  rw [lookup_insert_if]
  split
  · rfl
  · rfl

theorem group_erase (idx : AssocMap I (KeySet K)) (i j : I) :
    group (idx.erase i) j = if j = i then ∅ else group idx j := by
  unfold group
  rw [lookup_erase_if]
  split
  · rfl
  · rfl

/-- `if len(idx[i]) == 0 { delete(idx, i) }`. -/
def dropEmpty (idx : AssocMap I (KeySet K)) (i : I) : AssocMap I (KeySet K) :=
  if (group idx i).entries.length = 0 then idx.erase i else idx

theorem mem_group_dropEmpty (idx : AssocMap I (KeySet K)) (i j : I) (q : K) :
    q ∈ group (dropEmpty idx i) j ↔ q ∈ group idx j := by
  unfold dropEmpty
  split
  next hempty =>
    rw [group_erase]
    by_cases h : j = i
    · have hgroup : group idx i = ∅ := AList.ext (List.eq_nil_of_length_eq_zero hempty)
      rw [if_pos h, h, hgroup]
    · rw [if_neg h]
  next => exact Iff.rfl

variable [DecidableEq K]

def addKey (idx : AssocMap I (KeySet K)) (i : I) (k : K) : AssocMap I (KeySet K) :=
  idx.insert i ((group idx i).insert k ())

/-- `delete(idx[i], k)`. -/
def dropKey (idx : AssocMap I (KeySet K)) (i : I) (k : K) : AssocMap I (KeySet K) :=
  match idx.lookup i with
  | none => idx
  | some keys => idx.insert i (keys.erase k)

theorem mem_group_addKey (idx : AssocMap I (KeySet K)) (i j : I) (k q : K) :
    q ∈ group (addKey idx i k) j ↔ (j = i ∧ q = k) ∨ q ∈ group idx j := by
  unfold addKey
  rw [group_insert]
  by_cases h : j = i
  · rw [if_pos h, AList.mem_insert, h]
    simp
  · rw [if_neg h]
    simp [h]

theorem mem_group_dropKey (idx : AssocMap I (KeySet K)) (i j : I) (k q : K) :
    q ∈ group (dropKey idx i k) j ↔ q ∈ group idx j ∧ ¬ (j = i ∧ q = k) := by
  unfold dropKey
  split
  next hnone =>
    constructor
    · intro hq
      refine ⟨hq, fun ⟨hj, _⟩ => ?_⟩
      unfold group at hq
      rw [hj, hnone] at hq
      exact absurd hq (AList.notMem_empty q)
    · exact And.left
  next keys hkeys =>
    have hgroup : group idx i = keys := by
      unfold group
      rw [hkeys]
      rfl
    rw [group_insert]
    by_cases h : j = i
    · rw [if_pos h, AList.mem_erase, h, hgroup]
      constructor
      · rintro ⟨hne, hmem⟩
        exact ⟨hmem, fun hboth => hne hboth.2⟩
      · rintro ⟨hmem, hnot⟩
        exact ⟨fun heq => hnot ⟨rfl, heq⟩, hmem⟩
    · rw [if_neg h]
      simp [h]

/-- The index is right. -/
def Indexed (owner : V → I) (m : AssocMap K V) (idx : AssocMap I (KeySet K)) : Prop :=
  ∀ k i, k ∈ group idx i ↔ ∃ v, m.lookup k = some v ∧ owner v = i

section Rules

variable {owner : V → I} {m : AssocMap K V} {idx : AssocMap I (KeySet K)}

theorem Indexed.empty (owner : V → I) :
    Indexed owner (∅ : AssocMap K V) (∅ : AssocMap I (KeySet K)) := by
  intro k i
  constructor
  · intro h
    exact absurd h (AList.notMem_empty k)
  · rintro ⟨v, hv, _⟩
    cases hv

theorem Indexed.dropEmpty (h : Indexed owner m idx) (i : I) :
    Indexed owner m (dropEmpty idx i) := by
  intro k j
  rw [mem_group_dropEmpty]
  exact h k j

theorem Indexed.put (h : Indexed owner m idx) {k : K} {v : V}
    (hown : ∀ v', m.lookup k = some v' → owner v' = owner v) :
    Indexed owner (m.insert k v) (addKey idx (owner v) k) := by
  intro q j
  rw [mem_group_addKey, h q j]
  by_cases hq : q = k
  · rw [hq, AList.lookup_insert]
    constructor
    · rintro (⟨hj, _⟩ | ⟨v', hv', hj⟩)
      · exact ⟨v, rfl, hj.symm⟩
      · exact ⟨v, rfl, (hown v' hv').symm.trans hj⟩
    · rintro ⟨v', hv', hj⟩
      cases hv'
      exact .inl ⟨hj.symm, rfl⟩
  · rw [AList.lookup_insert_ne hq]
    simp [hq]

theorem Indexed.drop (h : Indexed owner m idx) {k : K} {v : V} (hv : m.lookup k = some v) :
    Indexed owner (m.erase k) (dropKey idx (owner v) k) := by
  intro q j
  rw [mem_group_dropKey, h q j]
  by_cases hq : q = k
  · rw [hq, AList.lookup_erase, hv]
    constructor
    · rintro ⟨⟨v', hv', hj⟩, hnot⟩
      cases hv'
      exact absurd ⟨hj.symm, rfl⟩ hnot
    · rintro ⟨v', hv', _⟩
      cases hv'
  · rw [AList.lookup_erase_ne hq]
    simp [hq]

theorem lookup_foldl_erase (ks : List K) :
    ∀ (m : AssocMap K V) (q : K), (ks.foldl (fun m k => m.erase k) m).lookup q
      = if q ∈ ks then none else m.lookup q := by
  induction ks with
  | nil => intro m q; simp
  | cons k ks ih =>
    intro m q
    rw [List.foldl_cons, ih, lookup_erase_if]
    by_cases hq : q = k
    · simp [hq]
    · simp [hq]

/-- Dropping all that an owner's group lists, and the group. -/
theorem Indexed.forget (h : Indexed owner m idx) (i : I) :
    Indexed owner ((group idx i).keys.foldl (fun m k => m.erase k) m) (idx.erase i) := by
  intro q j
  rw [group_erase, lookup_foldl_erase]
  have hkeys : q ∈ (group idx i).keys ↔ ∃ v, m.lookup q = some v ∧ owner v = i := by
    rw [AList.mem_keys.symm]
    exact h q i
  by_cases hj : j = i
  · rw [if_pos hj]
    constructor
    · intro hq
      exact absurd hq (AList.notMem_empty q)
    · rintro ⟨v, hv, hown⟩
      split at hv
      next => cases hv
      next hnot => exact absurd (hkeys.mpr ⟨v, hv, hown.trans hj⟩) hnot
  · rw [if_neg hj, h q j]
    constructor
    · rintro ⟨v, hv, hown⟩
      refine ⟨v, ?_, hown⟩
      rw [if_neg, hv]
      intro hq
      obtain ⟨v', hv', hown'⟩ := hkeys.mp hq
      rw [hv] at hv'
      cases hv'
      exact hj (hown.symm.trans hown')
    · rintro ⟨v, hv, hown⟩
      split at hv
      next => cases hv
      next => exact ⟨v, hv, hown⟩

/-- A group lists its owner's values, each once. -/
theorem Indexed.perm (h : Indexed owner m idx) (i : I) :
    ((group idx i).keys.filterMap m.lookup).Perm
      ((m.entries.filter fun e => owner e.2 = i).map Sigma.snd) := by
  have hsub : (m.entries.filter fun e => owner e.2 = i).map Sigma.snd
      = ((m.entries.filter fun e => owner e.2 = i).map Sigma.fst).filterMap m.lookup := by
    rw [List.filterMap_map]
    symm
    rw [← List.filterMap_eq_map]
    refine List.filterMap_congr fun e he => ?_
    exact AList.mem_lookup_iff.mpr (List.mem_of_mem_filter he)
  rw [hsub]
  refine List.Perm.filterMap _ ?_
  refine (List.perm_ext_iff_of_nodup (group idx i).keys_nodup ?_).mpr fun k => ?_
  · exact m.keys_nodup.sublist ((List.filter_sublist).map Sigma.fst)
  · rw [← AList.mem_keys, h k i]
    constructor
    · rintro ⟨v, hv, hown⟩
      refine List.mem_map.mpr ⟨⟨k, v⟩, List.mem_filter.mpr ⟨AList.mem_lookup_iff.mp hv, ?_⟩, rfl⟩
      simpa using hown
    · intro hk
      obtain ⟨e, he, rfl⟩ := List.mem_map.mp hk
      obtain ⟨hmem, hown⟩ := List.mem_filter.mp he
      exact ⟨e.2, AList.mem_lookup_iff.mpr hmem, by simpa using hown⟩

end Rules

end SenhubAgent.Lib

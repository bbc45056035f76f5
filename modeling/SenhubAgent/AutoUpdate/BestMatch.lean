import SenhubAgent.AutoUpdate.Versions

/-!
# The best matching version is looked up by its text

`getBestMatchingVersion` parses the versions of the registry's list, sorts those that satisfy
the constraint and takes the last; then it goes through the list again for a record whose text
is that version's `String()`. The first half works on parsed versions, the second on spellings:
`v1.2.0`, `1.2` and `1.2.0` are one version, and only the last is how the library prints it.

`sort.Sort` does not say which of several equal versions comes last, so the outcome is that of
any sorted arrangement of the matches (`SortedOf`); the stable sort of `Versions` is one of them
(`getBestMatchingVersion_outcome`). Whatever the arrangement, a best record is found exactly
when every highest match is spelled out in the list (`best_match_found_iff`).

What is assumed of the library is its contract: an order on versions, and that a printed version
reads back as one that compares and checks the same (`LawfulVersions`).
-/

namespace SenhubAgent.AutoUpdate

section

variable {V C : Type} (vers : VersionOps V C)

/-- The contract of `hashicorp/go-version`. -/
structure LawfulVersions : Prop where
  asymm : ∀ {u v}, vers.lessThan u v = true → vers.lessThan v u = false
  /-- versions that do not exceed one another in a row -/
  le_trans : ∀ {u v w}, vers.lessThan v u = false → vers.lessThan w v = false →
    vers.lessThan w u = false
  /-- `NewVersion` of `String()` -/
  reparse : ∀ {s v}, vers.newVersion s = .ok v → ∃ v', vers.newVersion (vers.string v) = .ok v' ∧
    (∀ c, vers.check c v' = vers.check c v) ∧ ∀ u, vers.lessThan v' u = vers.lessThan v u

/-- What `sort.Sort(version.Collection(found))` may leave. -/
def SortedOf (found sorted : List V) : Prop :=
  sorted.Perm found ∧ sorted.Pairwise fun a b => vers.lessThan b a = false

/-- The second half: the last of the sorted matches, looked up by its text. -/
def bestOfSorted (sorted : List V) (metadataList : List VersionMetadata) :
    Except String (Option VersionMetadata) :=
  match sorted.getLast? with
  | none => .ok none
  | some bestMatch =>
    match metadataList.find? fun metadata => metadata.version = vers.string bestMatch with
    | some metadata => .ok (some metadata)
    | none => .error "No matching version found"

/-- A record of the list that parses, satisfies the constraint and is exceeded by none. -/
def IsBest (wantedVersion : C) (metadataList : List VersionMetadata)
    (r : Except String (Option VersionMetadata)) : Prop :=
  ∃ metadata v, r = .ok (some metadata) ∧ metadata ∈ metadataList ∧
    vers.newVersion metadata.version = .ok v ∧ vers.check wantedVersion v = true ∧
    ∀ u ∈ matchingVersions vers wantedVersion metadataList, vers.lessThan v u = false

/-- A match that no match exceeds. -/
def Highest (wantedVersion : C) (metadataList : List VersionMetadata) (v : V) : Prop :=
  v ∈ matchingVersions vers wantedVersion metadataList ∧
    ∀ u ∈ matchingVersions vers wantedVersion metadataList, vers.lessThan v u = false

variable {vers} {wantedVersion : C} {metadataList : List VersionMetadata}

variable {v : V} {sorted : List V}

theorem mem_matchingVersions : v ∈ matchingVersions vers wantedVersion metadataList ↔
    ∃ metadata ∈ metadataList, vers.newVersion metadata.version = .ok v ∧
      vers.check wantedVersion v = true := by
  unfold matchingVersions
  rw [List.mem_filterMap]
  refine exists_congr fun metadata => and_congr_right fun _ => ?_
  cases hparse : vers.newVersion metadata.version with
  | error e => simp
  | ok u =>
    by_cases hu : vers.check wantedVersion u = true
    · simp only [hu, if_true, Option.some.injEq, Except.ok.injEq]
      exact ⟨fun h => ⟨h, h ▸ hu⟩, fun h => h.1⟩
    · simp only [hu, Bool.false_eq_true, if_false, reduceCtorEq, Except.ok.injEq, false_iff, not_and]
      exact fun h => h ▸ hu

section

variable (laws : LawfulVersions vers)

include laws

theorem LawfulVersions.total (u v : V) : vers.lessThan v u = false ∨ vers.lessThan u v = false := by
  cases h : vers.lessThan v u with
  | false => exact .inl rfl
  | true => exact .inr (laws.asymm h)

theorem LawfulVersions.irrefl (v : V) : vers.lessThan v v = false :=
  (laws.total v v).elim id id

theorem sortedOf_insertionSort (found : List V) :
    SortedOf vers found (found.insertionSort fun a b => vers.lessThan b a = false) := by
  have htotal : Std.Total fun a b : V => vers.lessThan b a = false := ⟨laws.total⟩
  have htrans : IsTrans V fun a b => vers.lessThan b a = false := ⟨fun _ _ _ => laws.le_trans⟩
  exact ⟨List.perm_insertionSort _ found, List.pairwise_insertionSort _ found⟩

/-- The model of the whole function is one of the outcomes. -/
theorem getBestMatchingVersion_outcome (wantedVersion : C) (metadataList : List VersionMetadata) :
    ∃ sorted, SortedOf vers (matchingVersions vers wantedVersion metadataList) sorted ∧
      getBestMatchingVersion vers wantedVersion metadataList
        = bestOfSorted vers sorted metadataList :=
  ⟨_, sortedOf_insertionSort laws _, rfl⟩

/-- The last of the sorted matches is a highest one. -/
theorem highest_of_last
    (hsorted : SortedOf vers (matchingVersions vers wantedVersion metadataList) sorted)
    (hlast : sorted.getLast? = some v) : Highest vers wantedVersion metadataList v := by
  obtain ⟨front, rfl⟩ := List.getLast?_eq_some_iff.mp hlast
  refine ⟨hsorted.1.mem_iff.mp (by simp), fun u hu => ?_⟩
  rcases List.mem_append.mp (hsorted.1.mem_iff.mpr hu) with hfront | hend
  · exact (List.pairwise_append.mp hsorted.2).2.2 u hfront v (List.mem_singleton_self v)
  · rw [List.mem_singleton.mp hend]
    exact laws.irrefl v

/-- Each highest match may come last. -/
theorem exists_sorted_last (hv : Highest vers wantedVersion metadataList v) :
    ∃ sorted, SortedOf vers (matchingVersions vers wantedVersion metadataList) sorted ∧
      sorted.getLast? = some v := by
  classical
  have hrest := sortedOf_insertionSort laws
    ((matchingVersions vers wantedVersion metadataList).erase v)
  refine ⟨_ ++ [v], ⟨?_, List.pairwise_append.mpr ⟨hrest.2, List.pairwise_singleton _ _, ?_⟩⟩,
    List.getLast?_concat⟩
  · exact (List.perm_append_comm.trans (hrest.1.cons v)).trans (List.perm_cons_erase hv.1).symm
  · intro u hu w hw
    rw [List.mem_singleton.mp hw]
    exact hv.2 u (List.mem_of_mem_erase (hrest.1.mem_iff.mp hu))

/-- A record that spells a highest match as the library does is a best one. -/
theorem isBest_of_spelled (hv : Highest vers wantedVersion metadataList v)
    (hlast : sorted.getLast? = some v)
    (hspelled : ∃ metadata ∈ metadataList, metadata.version = vers.string v) :
    IsBest vers wantedVersion metadataList (bestOfSorted vers sorted metadataList) := by
  obtain ⟨m, hm, hspelling⟩ := hspelled
  have hfind : (metadataList.find? fun metadata => metadata.version = vers.string v).isSome := by
    rw [List.find?_isSome]
    exact ⟨m, hm, by simpa using hspelling⟩
  obtain ⟨metadata, hfound⟩ := Option.isSome_iff_exists.mp hfind
  have htext : metadata.version = vers.string v := by simpa using List.find?_some hfound
  obtain ⟨origin, _, hparse, hcheck⟩ := mem_matchingVersions.mp hv.1
  obtain ⟨v', hreads, hsame, hless⟩ := laws.reparse hparse
  refine ⟨metadata, v', ?_, List.mem_of_find?_eq_some hfound, ?_, ?_, ?_⟩
  · simp only [bestOfSorted, hlast, hfound]
  · rw [htext, hreads]
  · rw [hsame, hcheck]
  · intro u hu
    rw [hless, hv.2 u hu]

end

/-- **A best record is found, however the sort arranges equal versions**, exactly when every
highest match is spelled in the list as the library prints it. -/
theorem best_match_found_iff (laws : LawfulVersions vers) (wantedVersion : C)
    (metadataList : List VersionMetadata)
    (hsome : ∃ metadata ∈ metadataList, ∃ v, vers.newVersion metadata.version = .ok v ∧
      vers.check wantedVersion v = true) :
    (∀ sorted, SortedOf vers (matchingVersions vers wantedVersion metadataList) sorted →
      IsBest vers wantedVersion metadataList (bestOfSorted vers sorted metadataList)) ↔
    ∀ v, Highest vers wantedVersion metadataList v →
      ∃ metadata ∈ metadataList, metadata.version = vers.string v := by
  constructor
  · intro hbest v hv
    obtain ⟨sorted, hsorted, hlast⟩ := exists_sorted_last laws hv
    obtain ⟨metadata, _, hr, hmem, -⟩ := hbest sorted hsorted
    simp only [bestOfSorted, hlast] at hr
    split at hr
    next m hfound =>
      cases hr
      exact ⟨metadata, hmem, by simpa using List.find?_some hfound⟩
    next => cases hr
  · intro hspelled sorted hsorted
    obtain ⟨m, hm, u, hparse, hcheck⟩ := hsome
    have hu : u ∈ sorted := hsorted.1.mem_iff.mpr (mem_matchingVersions.mpr ⟨m, hm, hparse, hcheck⟩)
    have hlast : sorted.getLast? = some (sorted.getLast (List.ne_nil_of_mem hu)) :=
      List.getLast?_eq_some_getLast _
    have hv := highest_of_last laws hsorted hlast
    exact isBest_of_spelled laws hv hlast (hspelled _ hv)

end

/-! ## Two spellings of one version -/

/-- The library on three texts: `1.1.0`, and `1.2.0` with and without its `v`. A version is
its minor number, and every version satisfies the one constraint. -/
def twoReleases : VersionOps Nat Unit where
  newVersion s :=
    if s = "1.1.0" then .ok 1 else if s = "1.2.0" ∨ s = "v1.2.0" then .ok 2
    else .error ("Malformed version: " ++ s)
  greaterThan u v := decide (v < u)
  lessThan u v := decide (u < v)
  string v := if v = 1 then "1.1.0" else "1.2.0"
  newConstraint _ := .ok ()
  check _ _ := true
  anyRelease := ()

theorem twoReleases_parses {s : String} {v : Nat} (h : twoReleases.newVersion s = .ok v) :
    v = 1 ∨ v = 2 := by
  simp only [twoReleases] at h
  split at h
  · cases h; exact .inl rfl
  · split at h
    · cases h; exact .inr rfl
    · cases h

theorem twoReleases_lawful : LawfulVersions twoReleases where
  asymm h := by simp only [twoReleases, decide_eq_true_eq, decide_eq_false_iff_not] at h ⊢; omega
  le_trans h h' := by simp only [twoReleases, decide_eq_false_iff_not] at h h' ⊢; omega
  reparse h := by
    refine ⟨_, ?_, fun _ => rfl, fun _ => rfl⟩
    rcases twoReleases_parses h with rfl | rfl <;> rfl

theorem best_match_found_plain :
    IsBest twoReleases () [⟨"old", "1.1.0"⟩, ⟨"new", "1.2.0"⟩]
      (bestOfSorted twoReleases [1, 2] [⟨"old", "1.1.0"⟩, ⟨"new", "1.2.0"⟩]) := by
  have hfound : matchingVersions twoReleases () [⟨"old", "1.1.0"⟩, ⟨"new", "1.2.0"⟩] = [1, 2] := rfl
  refine (best_match_found_iff twoReleases_lawful () _
    ⟨_, List.mem_cons_self, 1, rfl, rfl⟩).mpr ?_ [1, 2] ⟨List.Perm.refl _, by decide⟩
  rintro v ⟨hv, -⟩
  rw [hfound] at hv
  rcases List.mem_cons.mp hv with rfl | hv
  · exact ⟨_, List.mem_cons_self, rfl⟩
  · rw [List.mem_singleton.mp hv]
    exact ⟨_, List.mem_cons_of_mem _ List.mem_cons_self, rfl⟩

/-- The one release of the registry is spelled with a `v`: it parses and satisfies the
constraint, and the lookup fails. -/
theorem leading_v_not_found :
    twoReleases.newVersion "v1.2.0" = .ok 2 ∧ twoReleases.check () 2 = true ∧
      getBestMatchingVersion twoReleases () [⟨"new", "v1.2.0"⟩]
        = .error "No matching version found" := by
  refine ⟨rfl, rfl, ?_⟩
  rfl

end SenhubAgent.AutoUpdate

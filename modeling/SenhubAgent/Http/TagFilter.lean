import Mathlib.Algebra.Order.BigOperators.Group.Finset
import Mathlib.Data.List.Perm.Subperm
import SenhubAgent.AgentState.RedactFields
import SenhubAgent.Http.MetricFilter
import SenhubAgent.Lib.Latest
import SenhubAgent.Lib.UrlQuery

/-!
# Tag filters in a request

A request names the series it wants in `tags` parameters, `name:value,value`, and those it does not
want in `exclude_tags`. `ParseMetricFilter` takes the parameters as the URL layer decoded them, and
decodes names and values a second time. A plus or a percent escape in a value is then something
else; the spaces around names and values are dropped; a name ends at its first colon; a parameter
without values is skipped; and a second parameter for a name takes the place of the first.

So a list of names and values is filtered by as it stands exactly when every name of it is sent
plainly (`tag_filter_selects_iff`): the name and the values come through unchanged, and one
parameter has all the values of the name and no later one replaces it. That nothing else works is an
argument about weight: reading never makes a name or a list of values heavier, so names and values
that are all found again after reading are read as they were.

Mirroring notes:
- Texts are bytes. `strconv.Atoi` is a parameter, as no request here has a limit or an offset.
- The fields of a filter that only the output formats read are left out, as in `MetricFilter`.
-/

namespace SenhubAgent.Http

open SenhubAgent.Lib hiding trimSpace
open SenhubAgent.AgentState (ascii asciiText)
open SenhubAgent.AgentState.Redact (trimSpace trimStart spaceRunes)

def colon : UInt8 := ascii ':'
def comma : UInt8 := ascii ','

/-- `url.QueryUnescape`, or the text itself where that fails -/
def decodeOr (s : Bytes) : Bytes := (queryUnescape s).getD s

/-- The entry a parameter makes. -/
def readParam (param : Bytes) : Option (Bytes × List Bytes) :=
  if colon ∈ param then
    let tagName := trimSpace (param.takeWhile (· ≠ colon))
    let valuesStr := trimSpace ((param.dropWhile (· ≠ colon)).drop 1)
    if tagName = [] ∨ valuesStr = [] then none
    else some (decodeOr tagName, ((decodeOr valuesStr).splitOn comma).map trimSpace)
  else none

def parseTagFilter (param : Bytes) (filterMap : AssocMap Bytes (List Bytes)) :
    AssocMap Bytes (List Bytes) :=
  match readParam param with
  | none => filterMap
  | some (tagName, values) => filterMap.insert tagName values

/-- `r.URL.Query()[key]` -/
def queryValues (raw : Bytes) (key : String) : List Bytes :=
  ((parseQuery raw).filter fun pair => pair.1 = asciiText key).map (·.2)

/-- `query.Get(key)` read as a number that passes `ok`, or 0 -/
def queryNumber (atoi : Bytes → Option Int) (raw : Bytes) (key : String) (ok : Int → Bool) : Int :=
  let param := (queryValues raw key).headD []
  if param = [] then 0 else ((atoi param).filter ok).getD 0

/-- `ParseMetricFilter` of a request with this raw query -/
def parseMetricFilter (atoi : Bytes → Option Int) (raw : Bytes) : MetricFilter Bytes where
  tagFilters := (queryValues raw "tags").foldl (fun m param => parseTagFilter param m) ∅
  excludeTags := (queryValues raw "exclude_tags").foldl (fun m param => parseTagFilter param m) ∅
  metricNames := ((queryValues raw "metrics").flatMap fun param =>
    (param.splitOn comma).map trimSpace).filter fun metric => metric ≠ []
  limit := queryNumber atoi raw "limit" (· > 0)
  offset := queryNumber atoi raw "offset" (· ≥ 0)

structure Series where
  metricName : Bytes
  tags : AssocMap Bytes Bytes

def seriesView : SeriesView Series Bytes where
  metricName := Series.metricName
  tag m k := m.tags.lookup k
  lit := asciiText
  startsWith start name := start.isPrefixOf name

/-! ## What a list of names and values asks for -/

def joined (values : List Bytes) : Bytes := [comma].intercalate values

/-- Names of tags, each with values. -/
abbrev TagLists := List (Bytes × List Bytes)

/-- The text of a parameter. -/
def paramOf (p : Bytes × List Bytes) : Bytes := p.1 ++ colon :: joined p.2

/-- The query that sends a list under a key, each parameter encoded once. -/
def rawQuery (key : String) (L : TagLists) : Bytes :=
  encodeQuery (L.map fun p => (asciiText key, paramOf p))

/-- All the values a list gives for a name. -/
def valuesFor (L : TagLists) (name : Bytes) : List Bytes :=
  (L.filter fun p => p.1 = name).flatMap (·.2)

/-- The series holds, for every named tag, one of the values given for it. -/
def Wanted (L : TagLists) (m : Series) : Prop :=
  ∀ p ∈ L, ∃ v ∈ valuesFor L p.1, m.tags.lookup p.1 = some v

/-- The series holds one of the values given for some named tag. -/
def Unwanted (L : TagLists) (m : Series) : Prop :=
  ∃ p ∈ L, ∃ v ∈ valuesFor L p.1, m.tags.lookup p.1 = some v

instance (L : TagLists) (m : Series) : Decidable (Wanted L m) :=
  inferInstanceAs (Decidable (∀ p ∈ L, ∃ v ∈ valuesFor L p.1, m.tags.lookup p.1 = some v))

instance (L : TagLists) (m : Series) : Decidable (Unwanted L m) :=
  inferInstanceAs (Decidable (∃ p ∈ L, ∃ v ∈ valuesFor L p.1, m.tags.lookup p.1 = some v))

/-- Sent as `tags` the list keeps the wanted series, as `exclude_tags` it removes the unwanted. -/
def SelectsNamed (atoi : Bytes → Option Int) (L : TagLists) : Prop :=
  (∀ metrics, applyMetricFilter seriesView metrics (parseMetricFilter atoi (rawQuery "tags" L))
      = some (metrics.filter fun m => Wanted L m))
    ∧ ∀ metrics,
      applyMetricFilter seriesView metrics (parseMetricFilter atoi (rawQuery "exclude_tags" L))
        = some (metrics.filter fun m => ¬Unwanted L m)

structure PlainName (name : Bytes) : Prop where
  ne_nil : name ≠ []
  no_colon : colon ∉ name
  trimmed : trimSpace name = name
  decoded : decodeOr name = name

structure PlainValues (values : List Bytes) : Prop where
  ne_nil : joined values ≠ []
  trimmed : trimSpace (joined values) = joined values
  decoded : decodeOr (joined values) = joined values
  each_trimmed : ∀ v ∈ values, trimSpace v = v

/-- One parameter has all the values of the name, comes through unchanged and is the last for the
name that is not blank. -/
def SentPlainly (L : TagLists) (name : Bytes) : Prop :=
  PlainName name ∧ ∃ before values after, L = before ++ (name, values) :: after
    ∧ (∀ p ∈ after, p.1 = name → trimSpace (joined p.2) = [])
    ∧ PlainValues values ∧ ∀ v ∈ valuesFor L name, v ∈ values

/-! ## The filter that is built -/

/-- What the parameters of a list are read as. -/
def reads (L : TagLists) : TagLists :=
  L.filterMap fun p => readParam (paramOf p)

theorem foldl_parseTagFilter (params : List Bytes) (m : AssocMap Bytes (List Bytes)) :
    params.foldl (fun m param => parseTagFilter param m) m
      = insertAll m (params.filterMap readParam) := by
  induction params generalizing m with
  | nil => rfl
  | cons param params ih =>
    rw [List.foldl_cons, ih, parseTagFilter]
    cases hread : readParam param with
    | none => rw [List.filterMap_cons_none hread]
    | some e => rw [List.filterMap_cons_some hread]; rfl

theorem queryValues_rawQuery (key key' : String) (L : TagLists) :
    queryValues (rawQuery key L) key'
      = if asciiText key = asciiText key' then L.map paramOf else [] := by
  rw [queryValues, rawQuery, parseQuery_encodeQuery, List.filter_map, List.map_map]
  split
  next heq => rw [List.filter_eq_self.mpr (by simp [heq])]; rfl
  next hne => rw [List.filter_eq_nil_iff.mpr (by simp [hne])]; rfl

theorem queryNumber_rawQuery (atoi : Bytes → Option Int) {key key' : String}
    (h : asciiText key ≠ asciiText key') (ok : Int → Bool) (L : TagLists) :
    queryNumber atoi (rawQuery key L) key' ok = 0 := by
  rw [queryNumber, queryValues_rawQuery, if_neg h]
  rfl

theorem foldl_paramOf (L : TagLists) :
    (L.map paramOf).foldl (fun m param => parseTagFilter param m) ∅ = insertAll ∅ (reads L) := by
  rw [foldl_parseTagFilter, List.filterMap_map]
  rfl

def includeOnly {τ : Type} (tagFilters : AssocMap τ (List τ)) : MetricFilter τ where
  tagFilters := tagFilters
  excludeTags := ∅
  metricNames := []
  limit := 0
  offset := 0

def excludeOnly {τ : Type} (excludeTags : AssocMap τ (List τ)) : MetricFilter τ where
  tagFilters := ∅
  excludeTags := excludeTags
  metricNames := []
  limit := 0
  offset := 0

theorem parseMetricFilter_tags (atoi : Bytes → Option Int) (L : TagLists) :
    parseMetricFilter atoi (rawQuery "tags" L)
      = includeOnly (insertAll ∅ (reads L)) := by
  rw [parseMetricFilter, queryNumber_rawQuery _ (by decide), queryNumber_rawQuery _ (by decide),
    queryValues_rawQuery, queryValues_rawQuery, queryValues_rawQuery, if_pos rfl,
    if_neg (by decide), if_neg (by decide), foldl_paramOf]
  rfl

theorem parseMetricFilter_excludeTags (atoi : Bytes → Option Int) (L : TagLists) :
    parseMetricFilter atoi (rawQuery "exclude_tags" L)
      = excludeOnly (insertAll ∅ (reads L)) := by
  rw [parseMetricFilter, queryNumber_rawQuery _ (by decide), queryNumber_rawQuery _ (by decide),
    queryValues_rawQuery, queryValues_rawQuery, queryValues_rawQuery, if_pos rfl,
    if_neg (by decide), if_neg (by decide), foldl_paramOf]
  rfl

/-! ## What a filter keeps -/

section

variable {α τ : Type} [DecidableEq τ] {view : SeriesView α τ}

/-- The map has the value under the key. -/
def Lists (filterMap : AssocMap τ (List τ)) (k v : τ) : Prop :=
  ∃ vs, filterMap.lookup k = some vs ∧ v ∈ vs

variable {m : α} {tagFilters : AssocMap τ (List τ)}

theorem holdsOne_iff {k : τ} {vs : List τ} :
    (match view.tag m k with
      | none => false
      | some v => vs.contains v) = true ↔ ∃ v ∈ vs, view.tag m k = some v := by
  cases view.tag m k <;> simp

theorem matchesTags_iff :
    matchesTags view tagFilters m = true
      ↔ ∀ k vs, tagFilters.lookup k = some vs → ∃ v ∈ vs, view.tag m k = some v := by
  rw [matchesTags, List.all_eq_true]
  constructor
  · intro h k vs hk
    exact holdsOne_iff.mp (h ⟨k, vs⟩ (AList.mem_lookup_iff.mp hk))
  · intro h e he
    exact holdsOne_iff.mpr (h e.1 e.2 (AList.mem_lookup_iff.mpr he))

theorem isExcluded_iff {excludeTags : AssocMap τ (List τ)} :
    isExcluded view excludeTags m = true
      ↔ ∃ k v, Lists excludeTags k v ∧ view.tag m k = some v := by
  rw [isExcluded, List.any_eq_true]
  constructor
  · rintro ⟨e, he, hone⟩
    obtain ⟨v, hv, htag⟩ := holdsOne_iff.mp hone
    exact ⟨e.1, v, ⟨e.2, AList.mem_lookup_iff.mpr he, hv⟩, htag⟩
  · rintro ⟨k, v, ⟨vs, hk, hv⟩, htag⟩
    exact ⟨⟨k, vs⟩, AList.mem_lookup_iff.mp hk, holdsOne_iff.mpr ⟨v, hv, htag⟩⟩

/-- A filter on tags without a contextual rule keeps what carries all of its tags. -/
theorem keeps_includeOnly
    (hrules : ∀ k vs, tagFilters.lookup k = some vs → contextualPrefixesOf view k = []) :
    keeps view (includeOnly tagFilters) = matchesTags view tagFilters := by
  have hstarts : getContextualMetricPrefixes view tagFilters = [] := by
    rw [getContextualMetricPrefixes, List.flatMap_eq_nil_iff]
    intro k hk
    obtain ⟨vs, hvs⟩ := exists_lookup (AList.mem_keys.mpr hk)
    exact hrules k vs hvs
  funext m
  simp only [keeps, includeOnly, hstarts]
  simp [isExcluded]

theorem keeps_excludeOnly (excludeTags : AssocMap τ (List τ)) :
    keeps view (excludeOnly excludeTags) = fun m => !isExcluded view excludeTags m := by
  funext m
  simp [keeps, excludeOnly, getContextualMetricPrefixes, matchesTags]

end

/-! ## Names and values that are all found again -/

/-- The map has the values of the list, and a key for every name. -/
structure Agrees (L : TagLists) (filterMap : AssocMap Bytes (List Bytes)) : Prop where
  lists_iff : ∀ k v, Lists filterMap k v ↔ v ∈ valuesFor L k
  named : ∀ p ∈ L, ∃ vs, filterMap.lookup p.1 = some vs

variable {k name : Bytes} {L : TagLists} {vs values : List Bytes} {α : Type}
    {p : Bytes × List Bytes}

theorem mem_valuesFor {v : Bytes} : v ∈ valuesFor L k ↔ ∃ p ∈ L, p.1 = k ∧ v ∈ p.2 := by
  simp [valuesFor, and_assoc]

theorem unwanted_iff {m : Series} :
    Unwanted L m ↔ ∃ k v, v ∈ valuesFor L k ∧ m.tags.lookup k = some v := by
  constructor
  · rintro ⟨p, -, v, hv, htag⟩
    exact ⟨p.1, v, hv, htag⟩
  · rintro ⟨k, v, hv, htag⟩
    obtain ⟨p, hp, rfl, -⟩ := mem_valuesFor.mp hv
    exact ⟨p, hp, v, hv, htag⟩

theorem readParam_values_ne_nil {param : Bytes} {e : Bytes × List Bytes}
    (h : readParam param = some e) : e.2 ≠ [] := by
  unfold readParam at h
  split at h
  · dsimp only at h
    split at h
    · cases h
    · cases h
      simp [List.splitOn_ne_nil]
  · cases h

theorem lookup_reads_ne_nil (h : (insertAll ∅ (reads L)).lookup k = some vs) : vs ≠ [] := by
  rw [lookup_insertAll, AList.lookup_empty, Option.or_none] at h
  obtain ⟨-, p, -, -, hread, -⟩ := latest_filterMap_eq_some_iff.mp h
  exact readParam_values_ne_nil hread

/-- A key of the map is a name of the list. -/
theorem exists_of_lookup_reads
    (hlists : ∀ k v, Lists (insertAll ∅ (reads L)) k v ↔ v ∈ valuesFor L k)
    (h : (insertAll ∅ (reads L)).lookup k = some vs) : ∃ p ∈ L, p.1 = k := by
  obtain ⟨v, hv⟩ := List.exists_mem_of_ne_nil vs (lookup_reads_ne_nil h)
  obtain ⟨p, hp, hk, -⟩ := mem_valuesFor.mp ((hlists k v).mp ⟨vs, h, hv⟩)
  exact ⟨p, hp, hk⟩

theorem exists_tags (f : Bytes → Bytes) (ks : List Bytes) :
    ∃ tags : AssocMap Bytes Bytes, ∀ k ∈ ks, tags.lookup k = some (f k) := by
  induction ks with
  | nil => exact ⟨∅, nofun⟩
  | cons k ks ih =>
    obtain ⟨tags, htags⟩ := ih
    refine ⟨tags.insert k (f k), fun k' hk' => ?_⟩
    by_cases hkk : k' = k
    · rw [hkk, AList.lookup_insert]
    · rw [AList.lookup_insert_ne hkk]
      exact htags k' (List.mem_of_ne_of_mem hkk hk')

theorem filter_eq_filter_iff {p q : α → Bool} :
    (∀ l : List α, l.filter p = l.filter q) ↔ ∀ a, p a = true ↔ q a = true := by
  constructor
  · intro h a
    have ha : [a].filter p = [a] ↔ [a].filter q = [a] := by rw [h]
    simpa using ha
  · intro h l
    exact List.filter_congr fun a _ => Bool.eq_iff_iff.mpr (h a)

section

variable {atoi : Bytes → Option Int} {L : TagLists}

theorem applyMetricFilter_excludeTags (metrics : List Series) :
    applyMetricFilter seriesView metrics (parseMetricFilter atoi (rawQuery "exclude_tags" L))
      = some (metrics.filter fun m => !isExcluded seriesView (insertAll ∅ (reads L)) m) := by
  rw [parseMetricFilter_excludeTags, applyMetricFilter_eq rfl rfl, keeps_excludeOnly]

theorem applyMetricFilter_tags
    (hrules : ∀ k vs, (insertAll ∅ (reads L)).lookup k = some vs →
      contextualPrefixesOf seriesView k = []) (metrics : List Series) :
    applyMetricFilter seriesView metrics (parseMetricFilter atoi (rawQuery "tags" L))
      = some (metrics.filter (matchesTags seriesView (insertAll ∅ (reads L)))) := by
  rw [parseMetricFilter_tags, applyMetricFilter_eq rfl rfl, keeps_includeOnly hrules]

/-- Excluding by a list is right exactly for a map with its values. -/
theorem excludes_iff : (∀ metrics,
      applyMetricFilter seriesView metrics (parseMetricFilter atoi (rawQuery "exclude_tags" L))
        = some (metrics.filter fun m => ¬Unwanted L m))
    ↔ ∀ k v, Lists (insertAll ∅ (reads L)) k v ↔ v ∈ valuesFor L k := by
  simp only [applyMetricFilter_excludeTags, Option.some.injEq]
  rw [filter_eq_filter_iff]
  simp only [Bool.not_eq_true', decide_eq_true_iff, ← Bool.not_eq_true, not_iff_not, isExcluded_iff,
    unwanted_iff]
  constructor
  · intro h k v
    -- the series with the one tag `k=v`
    have hone := h ⟨[], (∅ : AssocMap Bytes Bytes).insert k v⟩
    have htag : ∀ k' v', ((∅ : AssocMap Bytes Bytes).insert k v).lookup k' = some v'
        ↔ k' = k ∧ v' = v := by
      intro k' v'
      rw [lookup_insert_if]
      by_cases hk : k' = k
      · simp [hk, eq_comm]
      · simp [hk]
    simp only [seriesView, htag] at hone
    constructor
    · intro hlists
      obtain ⟨k', v', hmem, rfl, rfl⟩ := hone.mp ⟨k, v, hlists, rfl, rfl⟩
      exact hmem
    · intro hmem
      obtain ⟨k', v', hlists, rfl, rfl⟩ := hone.mpr ⟨k, v, hmem, rfl, rfl⟩
      exact hlists
  · intro h m
    simp only [h, seriesView]

/-- A list is filtered by as it stands exactly when the map that is built agrees with it. -/
theorem selectsNamed_iff_agrees (hnames : ∀ p ∈ L, contextualPrefixesOf seriesView p.1 = []) :
    SelectsNamed atoi L ↔ Agrees L (insertAll ∅ (reads L)) := by
  have hincludes : (∀ k v, Lists (insertAll ∅ (reads L)) k v ↔ v ∈ valuesFor L k) →
      ((∀ metrics, applyMetricFilter seriesView metrics (parseMetricFilter atoi (rawQuery "tags" L))
        = some (metrics.filter fun m => Wanted L m))
      ↔ ∀ m, matchesTags seriesView (insertAll ∅ (reads L)) m = true ↔ Wanted L m) := by
    intro hlists
    have hrules : ∀ k vs, (insertAll ∅ (reads L)).lookup k = some vs →
        contextualPrefixesOf seriesView k = [] := by
      intro k vs hk
      obtain ⟨p, hp, rfl⟩ := exists_of_lookup_reads hlists hk
      exact hnames p hp
    simp only [applyMetricFilter_tags hrules, Option.some.injEq]
    rw [filter_eq_filter_iff]
    simp only [decide_eq_true_iff]
  constructor
  · rintro ⟨hinclude, hexclude⟩
    have hlists := excludes_iff.mp hexclude
    refine ⟨hlists, fun p hp => ?_⟩
    -- the series that has, for every key of the map, the first of its values
    obtain ⟨tags, htags⟩ := exists_tags
      (fun k => (((insertAll ∅ (reads L)).lookup k).getD []).headD []) (insertAll ∅ (reads L)).keys
    have hmatch : matchesTags seriesView (insertAll ∅ (reads L)) ⟨[], tags⟩ = true := by
      rw [matchesTags_iff]
      intro k vs hk
      obtain ⟨v, rest, rfl⟩ := List.exists_cons_of_ne_nil (lookup_reads_ne_nil hk)
      have hkey : k ∈ (insertAll ∅ (reads L)).keys :=
        AList.mem_keys.mp (mem_of_lookup hk)
      refine ⟨v, List.mem_cons_self, (htags k hkey).trans ?_⟩
      rw [hk]
      rfl
    obtain ⟨v, hv, -⟩ := ((hincludes hlists).mp hinclude _).mp hmatch p hp
    obtain ⟨vs, hvs, -⟩ := (hlists p.1 v).mpr hv
    exact ⟨vs, hvs⟩
  · intro hagrees
    refine ⟨(hincludes hagrees.lists_iff).mpr fun m => ?_, excludes_iff.mpr hagrees.lists_iff⟩
    rw [matchesTags_iff]
    constructor
    · intro h p hp
      obtain ⟨vs, hvs⟩ := hagrees.named p hp
      obtain ⟨v, hv, htag⟩ := h p.1 vs hvs
      exact ⟨v, (hagrees.lists_iff p.1 v).mp ⟨vs, hvs, hv⟩, htag⟩
    · intro h k vs hk
      obtain ⟨p, hp, rfl⟩ := exists_of_lookup_reads hagrees.lists_iff hk
      obtain ⟨v, hv, htag⟩ := h p hp
      obtain ⟨vs', hvs', hmem⟩ := (hagrees.lists_iff p.1 v).mpr hv
      cases hk.symm.trans hvs'
      exact ⟨v, hmem, htag⟩

end

/-! ## Reading never adds weight -/

theorem trimStart_suffix (spaces : List Bytes) : ∀ fuel s, trimStart spaces fuel s <:+ s
  | 0, s => List.suffix_rfl
  | fuel + 1, s => by
    unfold trimStart
    split
    · exact (trimStart_suffix spaces fuel _).trans (List.drop_suffix _ _)
    · exact List.suffix_rfl

theorem trimSpace_sublist (s : Bytes) : (trimSpace s).Sublist s := by
  have hback := (trimStart_suffix (spaceRunes.map List.reverse)
    (trimStart spaceRunes s.length s).length (trimStart spaceRunes s.length s).reverse).sublist.reverse
  rw [List.reverse_reverse] at hback
  exact hback.trans (trimStart_suffix _ _ _).sublist

theorem weight_decodeOr (s : Bytes) : weight (decodeOr s) < weight s ∨ decodeOr s = s := by
  unfold decodeOr
  cases hdecoded : queryUnescape s with
  | none => exact .inr rfl
  | some decoded => exact weight_queryUnescape hdecoded

/-- A text that is trimmed and decoded keeps its weight only if it stays what it is. -/
theorem weight_decodeOr_trimSpace (s : Bytes) : weight (decodeOr (trimSpace s)) ≤ weight s
    ∧ (weight s ≤ weight (decodeOr (trimSpace s)) → trimSpace s = s ∧ decodeOr s = s) := by
  have htrim := weight_mono (trimSpace_sublist s)
  have hdecode := weight_decodeOr (trimSpace s)
  have hle : weight (decodeOr (trimSpace s)) ≤ weight (trimSpace s) := by
    rcases hdecode with hlt | heq
    · omega
    · rw [heq]
  refine ⟨hle.trans htrim, fun hge => ?_⟩
  have hsame : trimSpace s = s := eq_of_weight_le (trimSpace_sublist s) (hge.trans hle)
  rw [hsame] at hdecode hge
  exact ⟨hsame, hdecode.resolve_left (by omega)⟩

/-- The key a name is read as. -/
def nameKey (name : Bytes) : Bytes := decodeOr (trimSpace (name.takeWhile (· ≠ colon)))

theorem weight_nameKey (name : Bytes) : weight (nameKey name) ≤ weight name :=
  (weight_decodeOr_trimSpace _).1.trans (weight_mono (List.takeWhile_sublist _))

theorem ne_colon_of_not_mem (h : colon ∉ name) : ∀ c ∈ name, decide (c ≠ colon) :=
  fun _ hc => decide_eq_true fun heq => h (heq ▸ hc)

theorem takeWhile_eq_self (h : colon ∉ name) : name.takeWhile (· ≠ colon) = name :=
  List.takeWhile_eq_self_iff.mpr (ne_colon_of_not_mem h)

theorem plain_of_weight_nameKey (h : weight name ≤ weight (nameKey name)) :
    colon ∉ name ∧ trimSpace name = name ∧ decodeOr name = name := by
  have hpart := List.takeWhile_sublist (fun c => decide (c ≠ colon)) (l := name)
  have hread := weight_decodeOr_trimSpace (name.takeWhile (· ≠ colon))
  have hwhole : name.takeWhile (· ≠ colon) = name := eq_of_weight_le hpart (h.trans hread.1)
  rw [hwhole] at hread
  rw [nameKey, hwhole] at h
  refine ⟨fun hcolon => ?_, hread.2 h⟩
  have := List.takeWhile_eq_self_iff.mp hwhole colon hcolon
  simp at this

/-- A map that reaches every element of a finite set again, and adds no weight, takes none away. -/
theorem weight_eq_of_covers [DecidableEq α] {S : Finset α} {f : α → α} {w : α → Nat}
    (hcovers : S ⊆ S.image f) (hle : ∀ a ∈ S, w (f a) ≤ w a) : ∀ a ∈ S, w (f a) = w a := by
  have hsame : S = S.image f := Finset.eq_of_subset_of_card_le hcovers Finset.card_image_le
  have hinj : Set.InjOn f S := Finset.card_image_iff.mp (congrArg Finset.card hsame).symm
  have hsum : ∑ a ∈ S, w (f a) = ∑ a ∈ S, w a := by
    rw [← Finset.sum_image (f := w) hinj, ← hsame]
  exact (Finset.sum_eq_sum_iff_of_le hle).mp hsum

/-! ## Reading a parameter -/

/-- The values a parameter's values are read as. -/
def valuesOf (values : List Bytes) : List Bytes :=
  ((decodeOr (trimSpace (joined values))).splitOn comma).map trimSpace

theorem takeWhile_paramOf (p : Bytes × List Bytes) :
    (paramOf p).takeWhile (· ≠ colon) = p.1.takeWhile (· ≠ colon) := by
  rw [paramOf, List.takeWhile_append]
  split
  next hall =>
    rw [(List.takeWhile_sublist _).eq_of_length hall]
    simp
  next => rfl

theorem nameKey_of_readParam (h : readParam (paramOf p) = some (k, vs)) :
    nameKey p.1 = k ∧ p.1 ≠ [] := by
  unfold readParam at h
  rw [takeWhile_paramOf] at h
  split at h
  · dsimp only at h
    split at h
    · cases h
    · next hne =>
      cases h
      refine ⟨rfl, fun hnil => hne (.inl ?_)⟩
      rw [hnil]
      rfl
  · cases h

theorem readParam_of_plainName (hname : PlainName p.1) :
    readParam (paramOf p)
      = if trimSpace (joined p.2) = [] then none else some (p.1, valuesOf p.2) := by
  have hstart : (paramOf p).takeWhile (· ≠ colon) = p.1 :=
    (takeWhile_paramOf p).trans (takeWhile_eq_self hname.no_colon)
  have hrest : ((paramOf p).dropWhile (· ≠ colon)).drop 1 = joined p.2 := by
    rw [paramOf, List.dropWhile_append_of_pos (ne_colon_of_not_mem hname.no_colon)]
    simp
  have hcolon : colon ∈ paramOf p := by simp [paramOf]
  rw [readParam, if_pos hcolon, hstart, hrest]
  simp only [hname.trimmed, hname.decoded, hname.ne_nil, false_or, valuesOf]

theorem nameKey_of_plainName (hname : PlainName name) : nameKey name = name := by
  rw [nameKey, takeWhile_eq_self hname.no_colon, hname.trimmed, hname.decoded]

/-! ## Values -/

def weights (values : List Bytes) : Nat := (values.map fun v => weight v + 1).sum

theorem weight_joined (hne : values ≠ []) : weight (joined values) + 1 = weights values := by
  induction values with
  | nil => exact absurd rfl hne
  | cons v rest ih =>
    cases rest with
    | nil => simp [joined, weights, List.intercalate]
    | cons v' rest =>
      have hcomma : byteWeight comma = 1 := rfl
      have hjoined : joined (v :: v' :: rest) = v ++ comma :: joined (v' :: rest) := by
        simp [joined, List.intercalate]
      have := ih (by simp)
      rw [hjoined, weight_append, weight_cons, hcomma]
      simp only [weights, List.map_cons, List.sum_cons] at this ⊢
      omega

theorem weights_splitOn (s : Bytes) : weights (s.splitOn comma) = weight s + 1 := by
  rw [← weight_joined (List.splitOn_ne_nil _ _), joined, List.intercalate_splitOn]

theorem weights_trimSpace (values : List Bytes) : weights (values.map trimSpace) ≤ weights values
    ∧ (weights values ≤ weights (values.map trimSpace) → ∀ v ∈ values, trimSpace v = v) := by
  induction values with
  | nil => simp
  | cons v values ih =>
    have hv := weight_mono (trimSpace_sublist v)
    simp only [weights, List.map_cons, List.sum_cons, List.map_map] at ih ⊢
    refine ⟨by omega, fun hge => ?_⟩
    intro v' hv'
    rcases List.mem_cons.mp hv' with rfl | hmem
    · exact eq_of_weight_le (trimSpace_sublist v') (by omega)
    · exact ih.2 (by omega) v' hmem

theorem weights_le_of_subset {values' : List Bytes} (hnodup : values.Nodup)
    (hsub : values ⊆ values') : weights values ≤ weights values' := by
  obtain ⟨l, hperm, hsublist⟩ := List.subperm_of_subset hnodup hsub
  calc weights values = weights l := ((hperm.map _).sum_eq).symm
    _ ≤ weights values' := (hsublist.map _).sum_le_sum (by simp)

theorem splitOn_joined (hcomma : ∀ v ∈ values, comma ∉ v) (hne : values ≠ []) :
    (joined values).splitOn comma = values :=
  List.splitOn_intercalate comma hcomma hne

theorem valuesOf_of_plain (hcomma : ∀ v ∈ values, comma ∉ v) (hplain : PlainValues values) :
    valuesOf values = values := by
  have hne : values ≠ [] := fun hnil => hplain.ne_nil (by rw [hnil]; rfl)
  rw [valuesOf, hplain.trimmed, hplain.decoded, splitOn_joined hcomma hne]
  exact (List.map_congr_left hplain.each_trimmed).trans (List.map_id _)

/-- Values that are all among those they are read as are read as they are. -/
theorem plainValues_of_subset (hnodup : values.Nodup) (hcomma : ∀ v ∈ values, comma ∉ v)
    (hblank : trimSpace (joined values) ≠ []) (hsub : values ⊆ valuesOf values) :
    PlainValues values := by
  have hne : values ≠ [] := by
    rintro rfl
    exact hblank rfl
  have hread := weight_decodeOr_trimSpace (joined values)
  have htrim := weights_trimSpace ((decodeOr (trimSpace (joined values))).splitOn comma)
  have hle := weights_le_of_subset hnodup hsub
  have hjoined := weight_joined hne
  rw [weights_splitOn] at htrim
  unfold valuesOf at hle
  obtain ⟨htrimmed, hdecoded⟩ := hread.2 (by omega)
  rw [htrimmed, hdecoded, splitOn_joined hcomma hne] at htrim hle
  exact ⟨fun hnil => hblank (by rw [htrimmed, hnil]), htrimmed, hdecoded, htrim.2 (by omega)⟩

/-! ## The result -/

section

variable {L : TagLists}

theorem lookup_reads_eq_some_iff :
    (insertAll ∅ (reads L)).lookup k = some vs
      ↔ ∃ before p after, L = before ++ p :: after ∧ readParam (paramOf p) = some (k, vs)
        ∧ ∀ q ∈ after, ∀ vs', readParam (paramOf q) ≠ some (k, vs') := by
  rw [lookup_insertAll, AList.lookup_empty, Option.or_none]
  exact latest_filterMap_eq_some_iff

theorem plainName_of_agrees (h : Agrees L (insertAll ∅ (reads L))) : ∀ p ∈ L, PlainName p.1 := by
  have hread : ∀ p ∈ L, ∃ q ∈ L, nameKey q.1 = p.1 ∧ q.1 ≠ [] := by
    intro p hp
    obtain ⟨vs, hvs⟩ := h.named p hp
    obtain ⟨before, q, after, heq, hq, -⟩ := lookup_reads_eq_some_iff.mp hvs
    exact ⟨q, by rw [heq]; simp, nameKey_of_readParam hq⟩
  -- every name is the key of a name, so no name loses weight
  have hweight : ∀ name ∈ (L.map (·.1)).toFinset, weight (nameKey name) = weight name := by
    refine weight_eq_of_covers (fun name hname => ?_) fun name _ => weight_nameKey name
    obtain ⟨p, hp, rfl⟩ := List.mem_map.mp (List.mem_toFinset.mp hname)
    obtain ⟨q, hq, hkey, -⟩ := hread p hp
    exact Finset.mem_image.mpr ⟨q.1, List.mem_toFinset.mpr (List.mem_map_of_mem hq), hkey⟩
  have hplain : ∀ p ∈ L, colon ∉ p.1 ∧ trimSpace p.1 = p.1 ∧ decodeOr p.1 = p.1 := fun p hp =>
    plain_of_weight_nameKey (hweight p.1 (List.mem_toFinset.mpr (List.mem_map_of_mem hp))).ge
  intro p hp
  obtain ⟨q, hq, hkey, hne⟩ := hread p hp
  obtain ⟨hcolon, htrimmed, hdecoded⟩ := hplain q hq
  have hname := nameKey_of_plainName ⟨hne, hcolon, htrimmed, hdecoded⟩
  rw [← hkey, hname]
  exact ⟨hne, hcolon, htrimmed, hdecoded⟩

theorem sentPlainly_of_agrees (hvalues : ∀ p ∈ L, p.2.Nodup ∧ ∀ v ∈ p.2, comma ∉ v)
    (h : Agrees L (insertAll ∅ (reads L))) : ∀ p ∈ L, SentPlainly L p.1 := by
  intro p hp
  have hplain := plainName_of_agrees h
  obtain ⟨vs, hvs⟩ := h.named p hp
  have hlisted : ∀ v ∈ valuesFor L p.1, v ∈ vs := by
    intro v hv
    obtain ⟨vs', hlookup, hv'⟩ := (h.lists_iff p.1 v).mpr hv
    cases hvs.symm.trans hlookup
    exact hv'
  obtain ⟨before, q, after, heq, hq, hafter⟩ := lookup_reads_eq_some_iff.mp hvs
  have hmem : q ∈ L := by rw [heq]; simp
  have hname : q.1 = p.1 :=
    (nameKey_of_plainName (hplain q hmem)).symm.trans (nameKey_of_readParam hq).1
  rw [readParam_of_plainName (hplain q hmem)] at hq
  split at hq
  · cases hq
  next hblank =>
  have hread : valuesOf q.2 = vs := congrArg Prod.snd (Option.some.inj hq)
  have hvalue : PlainValues q.2 := by
    refine plainValues_of_subset (hvalues q hmem).1 (hvalues q hmem).2 hblank fun v hv => ?_
    rw [hread]
    exact hlisted v (mem_valuesFor.mpr ⟨q, hmem, hname, hv⟩)
  rw [valuesOf_of_plain (hvalues q hmem).2 hvalue] at hread
  refine ⟨hplain p hp, before, q.2, after, by rw [heq, ← hname], fun r hr hrname => ?_, hvalue, ?_⟩
  · have hr' : r ∈ L := by rw [heq]; simp [hr]
    have hunread := hafter r hr (valuesOf r.2)
    rw [readParam_of_plainName (hplain r hr'), hrname] at hunread
    by_contra hne
    exact hunread (if_neg hne)
  · rw [hread]
    exact hlisted

theorem lookup_of_sentPlainly (hvalues : ∀ p ∈ L, p.2.Nodup ∧ ∀ v ∈ p.2, comma ∉ v)
    (h : ∀ p ∈ L, SentPlainly L p.1) (hp : p ∈ L) :
    ∃ values, (insertAll ∅ (reads L)).lookup p.1 = some values
      ∧ ∀ v, v ∈ values ↔ v ∈ valuesFor L p.1 := by
  obtain ⟨hname, before, values, after, heq, hafter, hplain, hall⟩ := h p hp
  have hmem : (p.1, values) ∈ L := by rw [heq]; simp
  refine ⟨values, lookup_reads_eq_some_iff.mpr ⟨before, (p.1, values), after, heq, ?_, ?_⟩, ?_⟩
  · rw [readParam_of_plainName (p := (p.1, values)) hname, hplain.trimmed, if_neg hplain.ne_nil,
      valuesOf_of_plain (hvalues _ hmem).2 hplain]
  · intro q hq vs hread
    have hq' : q ∈ L := by rw [heq]; simp [hq]
    have hqname := (h q hq').1
    have hsame : q.1 = p.1 := (nameKey_of_plainName hqname).symm.trans (nameKey_of_readParam hread).1
    rw [readParam_of_plainName hqname, if_pos (hafter q hq hsame)] at hread
    cases hread
  · exact fun v => ⟨fun hv => mem_valuesFor.mpr ⟨_, hmem, rfl, hv⟩, hall v⟩

theorem agrees_of_sentPlainly (hvalues : ∀ p ∈ L, p.2.Nodup ∧ ∀ v ∈ p.2, comma ∉ v)
    (h : ∀ p ∈ L, SentPlainly L p.1) : Agrees L (insertAll ∅ (reads L)) := by
  refine ⟨fun k v => ⟨?_, fun hv => ?_⟩, fun p hp => ?_⟩
  · rintro ⟨vs, hvs, hv⟩
    obtain ⟨before, p, after, heq, hread, -⟩ := lookup_reads_eq_some_iff.mp hvs
    have hp : p ∈ L := by rw [heq]; simp
    have hname : p.1 = k :=
      (nameKey_of_plainName (h p hp).1).symm.trans (nameKey_of_readParam hread).1
    obtain ⟨values, hlookup, hiff⟩ := lookup_of_sentPlainly hvalues h hp
    rw [hname] at hlookup hiff
    cases hvs.symm.trans hlookup
    exact (hiff v).mp hv
  · obtain ⟨p, hp, rfl, -⟩ := mem_valuesFor.mp hv
    obtain ⟨values, hlookup, hiff⟩ := lookup_of_sentPlainly hvalues h hp
    exact ⟨values, hlookup, (hiff v).mpr hv⟩
  · obtain ⟨values, hlookup, -⟩ := lookup_of_sentPlainly hvalues h hp
    exact ⟨values, hlookup⟩

end

/-- A list of names, without a contextual rule, and of sets of values selects what it says exactly
when every name of it is sent plainly. -/
theorem tag_filter_selects_iff (atoi : Bytes → Option Int) {L : TagLists}
    (hvalues : ∀ p ∈ L, p.2.Nodup ∧ ∀ v ∈ p.2, comma ∉ v)
    (hnames : ∀ p ∈ L, contextualPrefixesOf seriesView p.1 = []) :
    SelectsNamed atoi L ↔ ∀ p ∈ L, SentPlainly L p.1 :=
  (selectsNamed_iff_agrees hnames).trans
    ⟨sentPlainly_of_agrees hvalues, agrees_of_sentPlainly hvalues⟩

/-- `region:eu,us` and `host:a` are filtered by as they stand. -/
theorem tag_filter_selects_plain :
    SelectsNamed (fun _ => none)
      [(asciiText "region", [asciiText "eu", asciiText "us"]), (asciiText "host", [asciiText "a"])] := by
  refine (tag_filter_selects_iff _ (by decide) (by decide)).mpr ?_
  intro p hp
  rcases List.mem_cons.mp hp with rfl | hp
  · exact ⟨⟨by decide, by decide, by decide, by decide⟩, [], _, _, rfl, by decide,
      ⟨by decide, by decide, by decide, by decide⟩, by decide⟩
  · cases List.mem_singleton.mp hp
    exact ⟨⟨by decide, by decide, by decide, by decide⟩, [_], _, _, rfl, by decide,
      ⟨by decide, by decide, by decide, by decide⟩, by decide⟩

/-- A plus is a space after the second decoding, so the series with the value `a+b` is not found;
and of two parameters for a name only the second counts. -/
theorem tag_filter_misses :
    ¬SelectsNamed (fun _ => none) [(asciiText "host", [asciiText "a+b"])]
      ∧ ¬SelectsNamed (fun _ => none)
        [(asciiText "host", [asciiText "a"]), (asciiText "host", [asciiText "b"])] := by
  constructor
  · rintro ⟨hinclude, -⟩
    have h := congrArg (Option.map List.length)
      (hinclude [⟨[], (∅ : AssocMap Bytes Bytes).insert (asciiText "host") (asciiText "a+b")⟩])
    exact absurd h (by decide)
  · rintro ⟨hinclude, -⟩
    have h := congrArg (Option.map List.length)
      (hinclude [⟨[], (∅ : AssocMap Bytes Bytes).insert (asciiText "host") (asciiText "a")⟩])
    exact absurd h (by decide)

end SenhubAgent.Http

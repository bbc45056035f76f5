import Mathlib.Algebra.Group.Nat.Defs
import Mathlib.Data.List.Perm.Basic
import Mathlib.Data.List.TakeDrop
import SenhubAgent.Http.MetricCache
import SenhubAgent.Lib.Contest
import SenhubAgent.Lib.Text

/-!
# Filtering and paging the series of a probe

`applyMetricFilter` keeps the series that pass the filter and returns the part of them that limit
and offset ask for; the list it works on is what `GetProbeMetrics` builds from the cache's maps on
each request.

Pages of one list are a partition of it (`partitions_same_order`). But Go ranges over a map in no fixed
order, so each request has an order of its own; then the pages partition the result whatever the
orders are only when it fits on one page. And the end of a page is computed in an `int`: an offset
and a limit that add up past 2^63 - 1 give a negative end, and the slice expression panics
(`pages_partition_iff`).

Mirroring notes:
- What the filter reads of a series (its name and tags) is a parameter (`SeriesView`), as are the
  texts it compares; `lit` is the text of a literal of the source.
- The fields of a filter that only the output formats read are left out. `none` is a panic.
-/

namespace SenhubAgent.Http

open SenhubAgent.Lib

/-- What a filter reads of a series. -/
structure SeriesView (α τ : Type) where
  metricName : α → τ
  tag : α → τ → Option τ
  lit : String → τ
  /-- `strings.HasPrefix(s, start)`, the start first -/
  startsWith : τ → τ → Bool

/-- The view of a request for strings, on whatever comes with a metric. -/
def metricView {α V : Type} (metric : α → CachedMetric V) : SeriesView α String where
  metricName m := (metric m).metricName
  tag m k := (metric m).tags.lookup k
  lit := id
  startsWith := Lib.startsWith

structure MetricFilter (τ : Type) where
  tagFilters : AssocMap τ (List τ)
  excludeTags : AssocMap τ (List τ)
  metricNames : List τ
  limit : Int
  offset : Int

/-- An `int` of 64 bits. -/
def wrap64 (n : Int) : Int := (n + 2 ^ 63) % 2 ^ 64 - 2 ^ 63

theorem wrap64_of_lt {n : Int} (h : 0 ≤ n) (h' : n < 2 ^ 63) : wrap64 n = n := by
  unfold wrap64
  omega

theorem wrap64_neg {n : Int} (h : 2 ^ 63 ≤ n) (h' : n < 2 ^ 64) : wrap64 n < 0 := by
  unfold wrap64
  omega

section

variable {α τ : Type} [DecidableEq τ] (view : SeriesView α τ)

/-- The name prefixes that a filter on a tag brings along. -/
def contextualRules : List (List String × List String) :=
  [(["pool_name"], ["storage.pool.", "hardware.storage.pool."]),
   (["volume_name"], ["storage.volume.", "hardware.storage.volume."]),
   (["drive_name"], ["storage.drive.", "hardware.storage.drive."]),
   (["controller"], ["storage.controller.", "hardware.storage.controller."]),
   (["psu_name"], ["hardware.power."]),
   (["interface", "adapter", "connection_name"],
    ["network.", "network_", "packets_", "bytes_", "errors_", "discards_", "hardware.network.",
      "netscaler.interface."]),
   (["core"], ["cpu.", "cpu_", "hardware.cpu."]),
   (["mount_point", "filesystem", "drive"], ["logicaldisk.", "disk_", "hardware.disk."])]

def contextualPrefixesOf (tagKey : τ) : List τ :=
  ((contextualRules.find? fun rule => rule.1.any fun k => view.lit k == tagKey).map fun rule =>
    rule.2.map view.lit).getD []

def getContextualMetricPrefixes (tagFilters : AssocMap τ (List τ)) : List τ :=
  tagFilters.keys.flatMap (contextualPrefixesOf view)

/-- The metric carries every filtered tag with one of the allowed values. -/
def matchesTags (tagFilters : AssocMap τ (List τ)) (m : α) : Bool :=
  tagFilters.entries.all fun e =>
    match view.tag m e.1 with
    | none => false
    | some v => e.2.contains v

/-- The metric carries some excluded tag with one of the excluded values. -/
def isExcluded (excludeTags : AssocMap τ (List τ)) (m : α) : Bool :=
  excludeTags.entries.any fun e =>
    match view.tag m e.1 with
    | none => false
    | some v => e.2.contains v

/-- One turn of the loop: whether the metric is kept. -/
def keeps (f : MetricFilter τ) (m : α) : Bool :=
  let starts := getContextualMetricPrefixes view f.tagFilters
  (starts.isEmpty || starts.any fun start => view.startsWith start (view.metricName m))
    && (f.metricNames.isEmpty || f.metricNames.contains (view.metricName m))
    && matchesTags view f.tagFilters m && !isExcluded view f.excludeTags m

/-- `l[start:end]` -/
def sliceOf (l : List α) (start stop : Int) : Option (List α) :=
  if 0 ≤ start ∧ start ≤ stop ∧ stop ≤ l.length then
    some ((l.drop start.toNat).take (stop - start).toNat)
  else none

/-- The page of the series that were kept. -/
def pageOf (limit offset : Int) (filtered : List α) : Option (List α) :=
  if offset > filtered.length then some []
  else
    let stop := if limit > 0 ∧ wrap64 (offset + limit) < filtered.length then wrap64 (offset + limit)
      else filtered.length
    sliceOf filtered offset stop

def applyMetricFilter (metrics : List α) (f : MetricFilter τ) : Option (List α) :=
  if f.limit = 0 ∧ f.offset = 0 ∧ f.metricNames = [] ∧ f.tagFilters.entries = []
      ∧ f.excludeTags.entries = [] then some metrics
  else pageOf f.limit f.offset (metrics.filter (keeps view f))

variable {view}

/-- Without limit and offset, filtering is one pass. -/
theorem applyMetricFilter_eq {f : MetricFilter τ} (hlimit : f.limit = 0) (hoffset : f.offset = 0)
    (metrics : List α) : applyMetricFilter view metrics f = some (metrics.filter (keeps view f)) := by
  unfold applyMetricFilter
  split
  next hempty =>
    obtain ⟨-, -, hnames, htags, hexclude⟩ := hempty
    have hall : ∀ m ∈ metrics, keeps view f m = true := by
      intro m _
      simp [keeps, getContextualMetricPrefixes, AList.keys, matchesTags, isExcluded, htags, hexclude,
        hnames, List.keys]
    rw [List.filter_eq_self.mpr hall]
  next =>
    rw [hlimit, hoffset]
    simp [pageOf, sliceOf]

end

/-! ## Slices -/

section

variable {α : Type}

variable {limit offset : Int} {l : List α}

theorem pageOf_eq (hlimit : 0 < limit) (hoffset : 0 ≤ offset) (hsum : offset + limit < 2 ^ 63) :
    pageOf limit offset l = some ((l.drop offset.toNat).take limit.toNat) := by
  unfold pageOf
  split
  next hpast =>
    rw [List.drop_eq_nil_of_le (by omega), List.take_nil]
  next hin =>
    rw [wrap64_of_lt (by omega) hsum]
    split
    next hinner =>
      unfold sliceOf
      rw [if_pos ⟨hoffset, by omega, by omega⟩]
      congr 2
      omega
    next houter =>
      unfold sliceOf
      rw [if_pos ⟨hoffset, by omega, le_refl _⟩, List.take_of_length_le, List.take_of_length_le]
      · rw [List.length_drop]
        omega
      · rw [List.length_drop]
        omega

/-- When the slice expression is in range, for the numbers a request can carry. -/
theorem pageOf_isSome_iff (hlimit : 0 ≤ limit) (hlimit' : limit < 2 ^ 63) (hoffset : 0 ≤ offset)
    (hoffset' : offset < 2 ^ 63) :
    (pageOf limit offset l).isSome ↔ limit = 0 ∨ l.length < offset ∨ offset + limit < 2 ^ 63 := by
  by_cases hsum : offset + limit < 2 ^ 63
  · rcases eq_or_lt_of_le hlimit with hzero | hpos
    · subst hzero
      refine ⟨fun _ => .inl rfl, fun _ => ?_⟩
      unfold pageOf
      split
      next => rfl
      next hin =>
        rw [if_neg (by omega)]
        unfold sliceOf
        rw [if_pos ⟨hoffset, by omega, le_refl _⟩]
        rfl
    · rw [pageOf_eq hpos hoffset hsum]
      exact ⟨fun _ => .inr (.inr hsum), fun _ => rfl⟩
  · have hpos : limit ≠ 0 := by omega
    have hneg := wrap64_neg (n := offset + limit) (by omega) (by omega)
    unfold pageOf
    split
    next hpast => exact ⟨fun _ => .inr (.inl hpast), fun _ => rfl⟩
    next hin =>
      rw [if_pos ⟨by omega, by omega⟩]
      unfold sliceOf
      rw [if_neg (by omega)]
      constructor
      · intro h
        cases h
      · intro h
        omega

theorem pages_take (l : List α) (L : Nat) : ∀ n : Nat,
    ((List.range n).map fun k => (l.drop (k * L)).take L).flatten = l.take (n * L) := by
  intro n
  induction n with
  | zero => simp
  | succ n ih =>
    rw [List.range_succ, List.map_append, List.flatten_append, ih, Nat.succ_mul, List.take_add]
    simp

end

/-! ## Requests of one client -/

section

variable {τ : Type} [DecidableEq τ] (view : SeriesView (String × CachedMetric) τ) (c : MetricCache)
  (f : MetricFilter τ)

/-- The series a filter keeps, in the order of one request. -/
def matching (order : List String) : List (String × CachedMetric) :=
  (c.metricsAt order).filter (keeps view f)

/-- What the request for page `k` returns. -/
def page (L : Nat) (orders : Nat → List String) (k : Nat) : Option (List (String × CachedMetric)) :=
  applyMetricFilter view (c.metricsAt (orders k)) { f with limit := L, offset := (k * L : Nat) }

/-- As many requests as cover the result return every matching series exactly once. -/
def Partitions (keys : List String) (L : Nat) (orders : Nat → List String) : Prop :=
  ∀ n, (matching view c f keys).length ≤ n * L → (∀ k < n, k * L < 2 ^ 63) →
    ∃ pages : List (List (String × CachedMetric)),
      (List.range n).map (page view c f L orders) = pages.map some ∧
      pages.flatten.Perm (matching view c f keys)

/-- The series of one key, if the filter keeps it. -/
def hit (key : String) : Option (String × CachedMetric) :=
  ((c.timeSeries.lookup key).map fun metric => (key, metric)).filter (keeps view f)

theorem matching_eq (order : List String) : matching view c f order = order.filterMap (hit view c f) := by
  unfold matching MetricCache.metricsAt
  rw [List.filter_filterMap]
  rfl

variable {m : String × CachedMetric} {order : List String} {L : Nat} {orders : Nat → List String}

theorem hit_key {key : String} (h : hit view c f key = some m) : m.1 = key := by
  obtain ⟨h, -⟩ := Option.filter_eq_some_iff.mp h
  obtain ⟨metric, _, rfl⟩ := Option.map_eq_some_iff.mp h
  rfl

variable {view c f} {keys : List String}

theorem matching_perm (h : order.Perm keys) :
    (matching view c f order).Perm (matching view c f keys) := by
  rw [matching_eq, matching_eq]
  exact h.filterMap _

theorem matching_map_fst : (matching view c f keys).map Prod.fst
    = keys.filter fun key => (hit view c f key).isSome := by
  rw [matching_eq]
  induction keys with
  | nil => rfl
  | cons key keys ih =>
    cases h : hit view c f key with
    | none => simp [h, ih]
    | some m => simp [h, ih, hit_key view c f h]

theorem matching_nodup (hkeys : keys.Nodup) : (matching view c f keys).Nodup := by
  apply List.Nodup.of_map Prod.fst
  rw [matching_map_fst]
  exact hkeys.filter _

/-- Any arrangement of the result is that of some order of the map. -/
theorem exists_order {m : List (String × CachedMetric)} (hm : m.Perm (matching view c f keys)) :
    ∃ order, order.Perm keys ∧ matching view c f order = m := by
  rw [matching_eq] at hm
  obtain ⟨order, horder, hfound⟩ := Lib.exists_perm_filterMap _ keys hm
  exact ⟨order, horder, by rw [matching_eq, hfound]⟩

theorem page_eq {k : Nat} (hL : 0 < L) (hL' : L < 2 ^ 63) (hk : k * L < 2 ^ 63)
    (hsize : (matching view c f (orders k)).length < 2 ^ 62) :
    page view c f L orders k = some (((matching view c f (orders k)).drop (k * L)).take L) := by
  have hpage : page view c f L orders k = pageOf L ((k * L : Nat) : Int) (matching view c f (orders k)) := by
    unfold page applyMetricFilter
    rw [if_neg (by rintro ⟨h, -⟩; simp only at h; omega)]
    rfl
  rw [hpage]
  by_cases hsum : ((k * L : Nat) : Int) + L < 2 ^ 63
  · rw [pageOf_eq (by omega) (by omega) hsum]
    rfl
  · -- past the end: a page that starts in the list is not longer than it, or the first
    have hpast : (matching view c f (orders k)).length < k * L := by
      cases k with
      | zero => omega
      | succ k =>
        rw [Nat.succ_mul] at hsum ⊢
        omega
    unfold pageOf
    rw [if_pos (by omega), List.drop_eq_nil_of_le (by omega), List.take_nil]

/-- The pages as slices of the lists they were cut from. -/
theorem pages_eq (hL : 0 < L) (hL' : L < 2 ^ 63) (horders : ∀ k, (orders k).Perm keys)
    (hsize : keys.length < 2 ^ 62) {n : Nat} (hn : ∀ k < n, k * L < 2 ^ 63) :
    (List.range n).map (page view c f L orders)
      = ((List.range n).map fun k =>
        ((matching view c f (orders k)).drop (k * L)).take L).map some := by
  rw [List.map_map]
  refine List.map_congr_left fun k hk => ?_
  have hlength : (matching view c f (orders k)).length < 2 ^ 62 := by
    rw [(matching_perm (horders k)).length_eq, matching_eq]
    exact Nat.lt_of_le_of_lt (List.length_filterMap_le _ _) hsize
  exact page_eq hL hL' (hn k (List.mem_range.mp hk)) hlength

/-- Requests that see the map in one order. -/
theorem partitions_same_order (hL : 0 < L) (hL' : L < 2 ^ 63) (horder : order.Perm keys)
    (hsize : keys.length < 2 ^ 62) : Partitions view c f keys L fun _ => order := by
  intro n hcover hn
  refine ⟨_, pages_eq hL hL' (fun _ => horder) hsize hn, ?_⟩
  rw [pages_take, List.take_of_length_le]
  · exact matching_perm horder
  · rw [(matching_perm horder).length_eq]
    exact hcover

/-- A result that fits the first page. -/
theorem partitions_one_page (hL : 0 < L) (hL' : L < 2 ^ 63) (horders : ∀ k, (orders k).Perm keys)
    (hsize : keys.length < 2 ^ 62) (hfits : (matching view c f keys).length ≤ L) :
    Partitions view c f keys L orders := by
  intro n hcover hn
  refine ⟨_, pages_eq hL hL' horders hsize hn, ?_⟩
  have hpages : ((List.range n).map fun k => ((matching view c f (orders k)).drop (k * L)).take L)
      = (List.range n).map fun k => ((matching view c f (orders 0)).drop (k * L)).take L := by
    refine List.map_congr_left fun k _ => ?_
    cases k with
    | zero => rfl
    | succ k =>
      have hpast : L ≤ (k + 1) * L := Nat.le_mul_of_pos_left L (by omega)
      rw [List.drop_eq_nil_of_le, List.drop_eq_nil_of_le]
      · rw [(matching_perm (horders 0)).length_eq]
        omega
      · rw [(matching_perm (horders (k + 1))).length_eq]
        omega
  rw [hpages, pages_take, List.take_of_length_le]
  · exact matching_perm (horders 0)
  · rw [(matching_perm (horders 0)).length_eq]
    exact hcover

/-- Two requests that see the map in two orders: the first series of the first page comes again
on the second. -/
theorem exists_repeated (hL : 0 < L) (hL' : L < 2 ^ 63) (hkeys : keys.Nodup)
    (hsize : keys.length < 2 ^ 62) (hlong : L < (matching view c f keys).length) :
    ∃ orders : Nat → List String, (∀ k, (orders k).Perm keys) ∧ ¬ Partitions view c f keys L orders := by
  cases hm : matching view c f keys with
  | nil => rw [hm] at hlong; exact absurd hlong (Nat.not_lt_zero _)
  | cons a rest =>
    have hrest : L ≤ rest.length := by
      rw [hm, List.length_cons] at hlong
      omega
    have hmoved : (rest.take L ++ a :: rest.drop L).Perm (matching view c f keys) := by
      rw [hm]
      exact List.perm_middle.trans (by rw [List.take_append_drop])
    obtain ⟨order, horder, hsecond⟩ := exists_order hmoved
    have horders : ∀ k, ((fun k => if k = 1 then order else keys) k).Perm keys := by
      intro k
      dsimp only
      split
      · exact horder
      · exact List.Perm.refl _
    refine ⟨_, horders, fun hpartition => ?_⟩
    have hbound : ∀ k < rest.length / L + 2, k * L < 2 ^ 63 := by
      intro k hk
      have hle : k * L ≤ (rest.length / L + 1) * L := Nat.mul_le_mul_right L (by omega)
      have hdiv := Nat.div_mul_le_self rest.length L
      have hlength : (matching view c f keys).length ≤ keys.length := by
        rw [matching_eq]
        exact List.length_filterMap_le _ _
      rw [hm, List.length_cons] at hlength
      rw [Nat.add_mul] at hle
      omega
    have hcover : (matching view c f keys).length ≤ (rest.length / L + 2) * L := by
      have hmod := Nat.div_add_mod rest.length L
      have hlt := Nat.mod_lt rest.length hL
      rw [hm, List.length_cons, Nat.add_mul, Nat.mul_comm]
      omega
    obtain ⟨pages, hpages, hperm⟩ := hpartition _ hcover hbound
    rw [pages_eq hL hL' horders hsize hbound] at hpages
    have heq := List.map_injective_iff.mpr (Option.some_injective _) hpages
    have hnodup := hperm.nodup_iff.mpr (matching_nodup hkeys)
    rw [← heq, List.range_succ_eq_map, List.range_succ_eq_map] at hnodup
    simp only [List.map_cons, List.nodup_flatten, List.pairwise_cons] at hnodup
    have hdisjoint := hnodup.2.1 _ List.mem_cons_self
    refine hdisjoint (a := a) ?_ ?_
    · simp only [Nat.zero_mul, List.drop_zero, Nat.zero_ne_one, if_false, hm]
      cases L with
      | zero => exact absurd hL (Nat.lt_irrefl 0)
      | succ L => exact List.mem_cons_self
    · simp only [Nat.succ_eq_add_one, Nat.zero_add, Nat.one_mul, if_true, hsecond]
      rw [List.drop_append_of_le_length (by rw [List.length_take]; omega), List.drop_of_length_le
        (by rw [List.length_take]; omega), List.nil_append]
      cases L with
      | zero => exact absurd hL (Nat.lt_irrefl 0)
      | succ L => exact List.mem_cons_self

/-- The index keys of a probe; `GetProbeMetrics` folds the case of the name it is given. -/
def probeKeys (toLower : String → String) (c : MetricCache) (probeName : String) : List String :=
  (group c.probeIndex (toLower probeName)).keys

/-- **When pages partition the result**: whatever order the map is ranged over at each request,
exactly when the result fits on one page; with one order for all requests, always. And a page is
cut without a panic exactly when its limit is none, its offset past the end, or the two add up to
an `int`. -/
theorem pages_partition_iff (view : SeriesView (String × CachedMetric) τ) (toLower : String → String)
    (c : MetricCache) (probeName : String) (f : MetricFilter τ) (L : Nat) (hL : 0 < L)
    (hL' : L < 2 ^ 63) (hsize : (probeKeys toLower c probeName).length < 2 ^ 62) :
    ((∀ orders : Nat → List String, (∀ k, (orders k).Perm (probeKeys toLower c probeName)) →
        Partitions view c f (probeKeys toLower c probeName) L orders) ↔
      (matching view c f (probeKeys toLower c probeName)).length ≤ L) ∧
    (∀ order : List String, order.Perm (probeKeys toLower c probeName) →
      Partitions view c f (probeKeys toLower c probeName) L fun _ => order) ∧
    ∀ limit offset : Int, 0 ≤ limit → limit < 2 ^ 63 → 0 ≤ offset → offset < 2 ^ 63 →
      ∀ order : List String, order.Perm (probeKeys toLower c probeName) →
        ((applyMetricFilter view (c.metricsAt order)
            { f with limit := limit, offset := offset }).isSome ↔
          limit = 0 ∨ (matching view c f (probeKeys toLower c probeName)).length < offset ∨
            offset + limit < 2 ^ 63) := by
  have hkeys : (probeKeys toLower c probeName).Nodup := AList.keys_nodup _
  refine ⟨⟨fun hall => ?_, fun hfits orders horders => ?_⟩, fun order horder => ?_, ?_⟩
  · by_contra hlong
    obtain ⟨orders, horders, hnot⟩ := exists_repeated hL hL' hkeys hsize (Nat.lt_of_not_le hlong)
    exact hnot (hall orders horders)
  · exact partitions_one_page hL hL' horders hsize hfits
  · exact partitions_same_order hL hL' horder hsize
  · intro limit offset hlimit hlimit' hoffset hoffset' order horder
    have hlength := (@matching_perm _ _ view c f _ _ horder).length_eq
    rw [← hlength]
    unfold applyMetricFilter
    split
    next hnone => exact ⟨fun _ => .inl hnone.1, fun _ => rfl⟩
    next => exact pageOf_isSome_iff hlimit hlimit' hoffset hoffset'

end

/-! ## A cache of two series -/

def textView : SeriesView (String × CachedMetric) String := metricView Prod.snd

def plainMetric (name : String) : CachedMetric := ⟨0, 0, "", "web", name, ∅, none⟩

def twoSeries : MetricCache where
  timeSeries := (AList.insert "a" (plainMetric "a") ∅).insert "b" (plainMetric "b")
  probeIndex := AList.insert "web" ((AList.insert "a" () ∅).insert "b" ()) ∅
  ttl := 0
  maxSeries := 0
  cadences := ∅

def noFilter : MetricFilter String := ⟨∅, ∅, [], 0, 0⟩

theorem pages_partition_two :
    Partitions textView twoSeries noFilter (probeKeys id twoSeries "web") 2
      fun k => if k = 0 then ["a", "b"] else ["b", "a"] := by
  refine (pages_partition_iff textView id twoSeries "web" noFilter 2 (by decide) (by decide)
    (by decide)).1.mpr (by decide) _ fun k => ?_
  split
  next => exact List.Perm.swap _ _ _
  next => exact List.Perm.refl _

/-- Two requests for pages of one series return the same series when the map is ranged over the
other way round, and an offset of one with the largest limit panics. -/
theorem pages_repeat_and_panic :
    ((page textView twoSeries noFilter 1 (fun k => if k = 0 then ["a", "b"] else ["b", "a"]) 0).map
        (List.map Prod.fst) = some ["a"] ∧
      (page textView twoSeries noFilter 1 (fun k => if k = 0 then ["a", "b"] else ["b", "a"]) 1).map
        (List.map Prod.fst) = some ["a"]) ∧
    applyMetricFilter textView (twoSeries.metricsAt ["a", "b"])
      { noFilter with limit := 2 ^ 63 - 1, offset := 1 } = none :=
  ⟨by decide +kernel, rfl⟩

end SenhubAgent.Http

import SenhubAgent.Http.MetricCache

/-!
# The cache's index

In a run that never writes a series over another probe's, the probe index is the owner
index of the stored series. One lemma for each operation says that it keeps `Indexed`;
the operations that delete only ever see keys of the probe they delete for, because the
index says whose they are. The cap and the updates of stored series need no condition.
-/

namespace SenhubAgent.Http

open SenhubAgent.Lib SenhubAgent.Otlp

variable {env : Env} {c : MetricCache}

/-! ## Sizes -/

theorem size_eq_total (c : MetricCache) : c.size = total (fun _ _ => 1) c.timeSeries := by
  unfold MetricCache.size
  rw [total_one]

/-- `c'` was reached from `c` by deleting series. -/
structure Shrinks (c c' : MetricCache) : Prop where
  size : c'.size ≤ c.size
  maxSeries : c'.maxSeries = c.maxSeries

theorem Shrinks.refl (c : MetricCache) : Shrinks c c := ⟨Nat.le_refl _, rfl⟩

theorem Shrinks.trans {c c' c'' : MetricCache} (h : Shrinks c c') (h' : Shrinks c' c'') :
    Shrinks c c'' :=
  ⟨Nat.le_trans h'.size h.size, h'.maxSeries.trans h.maxSeries⟩

theorem erase_length_le (m : AssocMap String CachedMetric) (k : String) :
    (m.erase k).entries.length ≤ m.entries.length :=
  (List.kerase_sublist k m.entries).length_le

theorem remove_shrinks (c : MetricCache) (idxKey tsKey : String) :
    Shrinks c (c.remove idxKey tsKey) :=
  ⟨erase_length_le c.timeSeries tsKey, rfl⟩

theorem pruneIndex_shrinks (c : MetricCache) (idxKey : String) :
    Shrinks c (c.pruneIndex idxKey) := ⟨Nat.le_refl _, rfl⟩

/-! ## Storing a batch -/

variable {m : CachedMetric} {tsKey q : String} {dp : DataPoint}

/-- The probe index is the owner index of the stored series. -/
def OwnerIndexed (env : Env) (c : MetricCache) : Prop :=
  Indexed (ownerOf env) c.timeSeries c.probeIndex

theorem store_size_known (env : Env) (hk : tsKey ∈ c.timeSeries) (m : CachedMetric) :
    (c.store env tsKey m).size = c.size := by
  obtain ⟨m', hm'⟩ := exists_lookup hk
  rw [size_eq_total, size_eq_total]
  exact total_update _ hm' rfl

theorem store_size_le (env : Env) (c : MetricCache) (tsKey : String) (m : CachedMetric) :
    (c.store env tsKey m).size ≤ c.size + 1 := by
  rw [size_eq_total, size_eq_total]
  show total _ (c.timeSeries.insert tsKey m) ≤ _
  rw [total_insert, total_one, total_one]
  have := erase_length_le c.timeSeries tsKey
  omega

/-- The cap was not changed and holds. -/
def Capped (n : Int) (c : MetricCache) : Prop :=
  c.maxSeries = n ∧ (0 < n → (c.size : Int) ≤ n)

theorem Capped.shrink {n : Int} {c c' : MetricCache} (h : Capped n c) (hs : Shrinks c c') :
    Capped n c' := by
  refine ⟨hs.maxSeries.trans h.1, fun hpos => ?_⟩
  have hbefore := h.2 hpos
  have hsize := hs.size
  omega

theorem addDataPoint_capped {n : Int} (env : Env) (dp : DataPoint) (now : Instant)
    (h : Capped n c) : Capped n (c.addDataPoint env dp now).1 := by
  obtain ⟨rfl, h⟩ := h
  unfold MetricCache.addDataPoint
  split
  next => exact ⟨rfl, h⟩
  next hadmit =>
    refine ⟨rfl, fun hpos => ?_⟩
    by_cases hk : pointKey env dp ∈ c.timeSeries
    · have heq := store_size_known env hk (pointMetric env dp now)
      show ((c.store env _ _).size : Int) ≤ c.maxSeries
      omega
    · -- a new series is admitted below the cap only
      have hbelow : (c.size : Int) < c.maxSeries := by
        by_contra hfull
        exact hadmit ⟨hk, hpos, by omega⟩
      have hle := store_size_le env c (pointKey env dp) (pointMetric env dp now)
      show ((c.store env _ _).size : Int) ≤ c.maxSeries
      omega

/-- The series a batch writes to are new or belong to the probe that writes them. -/
structure OwnKeys (env : Env) (c : MetricCache) (dps : List DataPoint) : Prop where
  stored : ∀ dp ∈ dps, ∀ m ∈ c.timeSeries.lookup (pointKey env dp),
    ownerOf env m = env.toLower (pointProbe dp)
  batch : ∀ dp ∈ dps, ∀ dp' ∈ dps, pointKey env dp = pointKey env dp' →
    env.toLower (pointProbe dp) = env.toLower (pointProbe dp')

instance (env : Env) (c : MetricCache) (dps : List DataPoint) : Decidable (OwnKeys env c dps) :=
  decidable_of_iff
    ((∀ dp ∈ dps, ∀ m ∈ c.timeSeries.lookup (pointKey env dp),
        ownerOf env m = env.toLower (pointProbe dp))
      ∧ ∀ dp ∈ dps, ∀ dp' ∈ dps, pointKey env dp = pointKey env dp' →
        env.toLower (pointProbe dp) = env.toLower (pointProbe dp'))
    ⟨fun h => ⟨h.1, h.2⟩, fun h => ⟨h.stored, h.batch⟩⟩

variable (now : Instant)

theorem addDataPoint_indexed {dps : List DataPoint} (h : OwnerIndexed env c)
    (hown : OwnKeys env c (dp :: dps)) :
    OwnerIndexed env (c.addDataPoint env dp now).1 ∧ OwnKeys env (c.addDataPoint env dp now).1 dps := by
  have hrest : OwnKeys env c dps :=
    ⟨fun d hd => hown.stored d (List.mem_cons_of_mem dp hd),
      fun d hd d' hd' => hown.batch d (List.mem_cons_of_mem dp hd) d' (List.mem_cons_of_mem dp hd')⟩
  unfold MetricCache.addDataPoint
  split
  next => exact ⟨h, hrest⟩
  next =>
    refine ⟨h.put fun m hm => hown.stored dp (List.mem_cons_self ..) m hm, ?_, hrest.batch⟩
    intro d hd m hm
    obtain ⟨hkey, rfl⟩ | hold := lookup_of_insert hm
    · -- the key just written: the batch agrees on its owner
      exact hown.batch dp (List.mem_cons_self ..) d (List.mem_cons_of_mem dp hd) hkey.symm
    · exact hrest.stored d hd m hold

theorem addLoop_cons (env : Env) (c : MetricCache) (now : Instant) (dp : DataPoint)
    (dps : List DataPoint) (probes : List String) :
    ∃ probes', MetricCache.addLoop env now (dp :: dps) (c, probes)
      = MetricCache.addLoop env now dps ((c.addDataPoint env dp now).1, probes') := by
  rcases hadd : c.addDataPoint env dp now with ⟨c', stored⟩
  cases stored with
  | none => exact ⟨probes, by rw [MetricCache.addLoop, hadd]⟩
  | some idxKey => exact ⟨probes.insert idxKey, by rw [MetricCache.addLoop, hadd]⟩

/-- What every datapoint keeps, the batch keeps; `P` may speak of the points left. -/
theorem addLoop_rule {P : List DataPoint → MetricCache → Prop} (env : Env) (now : Instant)
    (hstep : ∀ c dp dps, P (dp :: dps) c → P dps (c.addDataPoint env dp now).1) :
    ∀ (dps : List DataPoint) (c : MetricCache) (probes : List String), P dps c →
      P [] (MetricCache.addLoop env now dps (c, probes)).1 := by
  intro dps
  induction dps with
  | nil => intro c probes h; exact h
  | cons dp dps ih =>
    intro c probes h
    obtain ⟨probes', hloop⟩ := addLoop_cons env c now dp dps probes
    rw [hloop]
    exact ih _ probes' (hstep c dp dps h)

/-! ## Deleting -/

/-- What every deletion keeps, the loop keeps. -/
theorem retireKeys_rule {P : MetricCache → Prop} (idxKey : String) (arrival : Instant)
    (interval : Duration) (tsKeys : List String) :
    (∀ c, ∀ k ∈ tsKeys, ∀ m, c.timeSeries.lookup k = some m →
      ¬ timeSub arrival m.timestamp ≤ interval.tdiv 2 → P c → P (c.remove idxKey k)) →
    ∀ c, P c → P (MetricCache.retireKeys idxKey arrival interval tsKeys c) := by
  induction tsKeys with
  | nil => intro _ c h; exact h
  | cons k tsKeys ih =>
    intro hstep c h
    have hrest := ih fun c q hq => hstep c q (List.mem_cons_of_mem k hq)
    unfold MetricCache.retireKeys
    split
    next => exact hrest c h
    next m hm =>
      split
      next => exact hrest c h
      next hstale => exact hrest _ (hstep c k (List.mem_cons_self ..) m hm hstale h)

variable (arrival : Instant)

theorem retireProbe_indexed (idxKey : String) (h : OwnerIndexed env c) :
    OwnerIndexed env (MetricCache.retireProbe arrival c idxKey) := by
  unfold MetricCache.retireProbe
  split
  next => exact h
  next =>
    have hkeys := retireKeys_rule
      (P := fun c' => OwnerIndexed env c' ∧ ∀ q ∈ (group c.probeIndex idxKey).keys, ∀ m,
        c'.timeSeries.lookup q = some m → ownerOf env m = idxKey)
      idxKey arrival (c.interval idxKey) (group c.probeIndex idxKey).keys ?_ c ⟨h, fun k hk m hm => ?_⟩
    · exact Indexed.dropEmpty hkeys.1 idxKey
    · intro c' k hk m hm _ hc'
      have hremoved := Indexed.drop hc'.1 hm
      rw [hc'.2 k hk m hm] at hremoved
      exact ⟨hremoved, fun q hq m' hm' => hc'.2 q hq m' (lookup_of_erase hm')⟩
    · obtain ⟨m', hm', hown⟩ := (h k idxKey).mp (AList.mem_keys.mpr hk)
      rw [hm] at hm'
      cases hm'
      exact hown

theorem retireProbe_shrinks (c : MetricCache) (idxKey : String) :
    Shrinks c (MetricCache.retireProbe arrival c idxKey) := by
  unfold MetricCache.retireProbe
  split
  next => exact Shrinks.refl c
  next =>
    refine Shrinks.trans ?_ (pruneIndex_shrinks _ idxKey)
    exact retireKeys_rule idxKey arrival _ _ (fun c' k _ _ _ _ h => h.trans (remove_shrinks c' _ k))
      c (Shrinks.refl c)

theorem removeExpired_spec (keys : List String) :
    ∀ c, Shrinks c (MetricCache.removeExpired env keys c) ∧
      (OwnerIndexed env c → OwnerIndexed env (MetricCache.removeExpired env keys c)) := by
  induction keys with
  | nil => intro c; exact ⟨Shrinks.refl c, id⟩
  | cons k keys ih =>
    intro c
    unfold MetricCache.removeExpired
    split
    next => exact ih c
    next m hm =>
      have hshrinks := (remove_shrinks c (ownerOf env m) k).trans (pruneIndex_shrinks _ (ownerOf env m))
      obtain ⟨hrest, hindexed⟩ := ih ((c.remove (ownerOf env m) k).pruneIndex (ownerOf env m))
      exact ⟨hshrinks.trans hrest, fun h => hindexed ((Indexed.drop h hm).dropEmpty (ownerOf env m))⟩

theorem foldl_erase_length_le (ks : List String) (m : AssocMap String CachedMetric) :
    (ks.foldl (fun m k => m.erase k) m).entries.length ≤ m.entries.length :=
  List.foldlRecOn (motive := fun m' => m'.entries.length ≤ m.entries.length) _ _ (Nat.le_refl _)
    fun m' h k _ => (erase_length_le m' k).trans h

/-! ## Updates -/

/-- A value of the batch that just arrived is not superseded. -/
theorem retireSuperseded_lookup (hnow : m.timestamp = arrival)
    (probes : List String) (c : MetricCache) (h : c.timeSeries.lookup q = some m) :
    (c.retireSupersededLocked probes arrival).timeSeries.lookup q = some m := by
  refine List.foldlRecOn (motive := fun c : MetricCache => c.timeSeries.lookup q = some m)
    _ _ h fun c h p _ => ?_
  unfold MetricCache.retireProbe
  split
  next => exact h
  next hpos =>
    refine retireKeys_rule (P := fun c => c.timeSeries.lookup q = some m) p arrival _ _ ?_ c h
    intro c k _ m' hm' hstale h
    have hqk : q ≠ k := by
      intro hqk
      rw [hqk, hm'] at h
      cases h
      refine hstale ?_
      rw [hnow, timeSub_self]
      exact Int.tdiv_nonneg (Int.le_of_lt (Int.not_le.mp hpos)) (by decide)
    exact (AList.lookup_erase_ne hqk).trans h

theorem addDataPoint_keeps (dp : DataPoint) (now : Instant) (hq : q ∈ c.timeSeries) :
    q ∈ (c.addDataPoint env dp now).1.timeSeries := by
  unfold MetricCache.addDataPoint
  split
  next => exact hq
  next => exact (AList.mem_insert _).mpr (.inr hq)

theorem addDataPoint_other (hne : pointKey env dp ≠ q) :
    (c.addDataPoint env dp now).1.timeSeries.lookup q = c.timeSeries.lookup q := by
  unfold MetricCache.addDataPoint
  split
  next => rfl
  next => exact AList.lookup_insert_ne (Ne.symm hne)

/-- A stored series takes the last value the batch has for it. -/
theorem addLoop_update (dp : DataPoint) (pre post : List DataPoint)
    (hlast : ∀ dp' ∈ post, pointKey env dp' ≠ pointKey env dp) (probes : List String)
    (hk : pointKey env dp ∈ c.timeSeries) :
    (MetricCache.addLoop env now (pre ++ dp :: post) (c, probes)).1.timeSeries.lookup
      (pointKey env dp) = some (pointMetric env dp now) := by
  -- `dp` is still to come, or only points of other series are
  have hloop := addLoop_rule
    (P := fun dps c => (∃ pre, dps = pre ++ dp :: post ∧ pointKey env dp ∈ c.timeSeries) ∨
      (∀ d ∈ dps, pointKey env d ≠ pointKey env dp) ∧
        c.timeSeries.lookup (pointKey env dp) = some (pointMetric env dp now))
    env now ?_ (pre ++ dp :: post) c probes (.inl ⟨pre, rfl, hk⟩)
  · obtain ⟨pre, hnil, -⟩ | ⟨-, hstored⟩ := hloop
    · simp at hnil
    · exact hstored
  · rintro c d dps (⟨pre, heq, hk⟩ | ⟨hother, hstored⟩)
    · cases pre with
      | nil =>
        obtain ⟨rfl, rfl⟩ := List.cons.inj heq
        refine .inr ⟨hlast, ?_⟩
        unfold MetricCache.addDataPoint
        rw [if_neg fun hno => hno.1 hk]
        exact AList.lookup_insert _
      | cons x pre =>
        obtain ⟨rfl, rfl⟩ := List.cons.inj heq
        exact .inl ⟨pre, rfl, addDataPoint_keeps d now hk⟩
    · obtain ⟨hne, hother⟩ := List.forall_mem_cons.mp hother
      exact .inr ⟨hother, (addDataPoint_other now hne).trans hstored⟩

theorem addDataPoints_update (c : MetricCache) (pre : List DataPoint) (dp : DataPoint)
    (post : List DataPoint) (now : Instant) (hk : pointKey env dp ∈ c.timeSeries)
    (hlast : ∀ dp' ∈ post, pointKey env dp' ≠ pointKey env dp) :
    (c.addDataPointsWithTransformer env (pre ++ dp :: post) now).timeSeries.lookup
      (pointKey env dp) = some (pointMetric env dp now) :=
  retireSuperseded_lookup now rfl _ _ (addLoop_update now dp pre post hlast [] hk)

/-! ## Whole runs -/

/-- The call writes no series over another probe's. -/
def KeepsOwners (env : Env) (c : MetricCache) : CacheCall → Prop
  | .addDataPoints dataPoints _ => OwnKeys env c dataPoints
  | _ => True

instance (env : Env) (c : MetricCache) : ∀ a, Decidable (KeepsOwners env c a)
  | .addDataPoints dps _ => inferInstanceAs (Decidable (OwnKeys env c dps))
  | .cleanup _ | .forgetProbes _ | .noteProbeCadence _ _ | .clear => inferInstanceAs (Decidable True)

theorem cacheStep_indexed (a : CacheCall) (h : OwnerIndexed env c) (hok : KeepsOwners env c a) :
    OwnerIndexed env (cacheStep env c a) := by
  cases a with
  | addDataPoints dps now =>
    have hloop := addLoop_rule (P := fun dps c => OwnerIndexed env c ∧ OwnKeys env c dps) env now
      (fun c dp dps hc => addDataPoint_indexed now hc.1 hc.2) dps c [] ⟨h, hok⟩
    exact List.foldlRecOn _ _ hloop.1 fun c h k _ => retireProbe_indexed now k h
  | cleanup now => exact (removeExpired_spec _ c).2 h
  | forgetProbes names =>
    exact List.foldlRecOn names _ h fun c h name _ => Indexed.forget h (env.toLower name)
  | noteProbeCadence name interval =>
    show OwnerIndexed env (c.noteProbeCadence env name interval)
    unfold MetricCache.noteProbeCadence
    split
    next => exact h
    next => exact h
  | clear => exact Indexed.empty (ownerOf env)

/-- The cap holds whatever the keys are. -/
theorem cacheStep_capped {n : Int} (a : CacheCall) (h : Capped n c) :
    Capped n (cacheStep env c a) := by
  cases a with
  | addDataPoints dps now =>
    have hloop := addLoop_rule (P := fun _ c => Capped n c) env now
      (fun c dp _ hc => addDataPoint_capped env dp now hc) dps c [] h
    exact List.foldlRecOn _ _ hloop fun c h k _ => h.shrink (retireProbe_shrinks now c k)
  | cleanup now => exact h.shrink (removeExpired_spec _ c).1
  | forgetProbes names =>
    exact List.foldlRecOn names _ h fun c h name _ =>
      h.shrink ⟨foldl_erase_length_le _ c.timeSeries, rfl⟩
  | noteProbeCadence name interval =>
    show Capped n (c.noteProbeCadence env name interval)
    unfold MetricCache.noteProbeCadence
    split
    next => exact h
    next => exact h
  | clear => exact h.shrink ⟨Nat.zero_le _, rfl⟩

/-- What the pull endpoints rely on: a probe's page lists the stored metrics of that
probe, each once; no index entry dangles; the cap holds; and the update of a stored
series replaces it. -/
structure Consistent (env : Env) (n : Int) (c : MetricCache) : Prop where
  listed : ∀ p, (c.getProbeMetrics env p).Perm
    ((c.timeSeries.entries.filter fun e => env.toLower e.2.probeName = env.toLower p).map
      Sigma.snd)
  stored : ∀ idxKey tsKey, tsKey ∈ group c.probeIndex idxKey → tsKey ∈ c.timeSeries
  capped : 0 < n → (c.size : Int) ≤ n
  updated : ∀ pre dp post now, pointKey env dp ∈ c.timeSeries →
    (∀ dp' ∈ post, pointKey env dp' ≠ pointKey env dp) →
    (c.addDataPointsWithTransformer env (pre ++ dp :: post) now).timeSeries.lookup
      (pointKey env dp) = some (pointMetric env dp now)

/-- **The index of the cache.** In every run in which no batch writes a series over
another probe's, the cache is consistent in the state reached. -/
theorem cacheRun_consistent (env : Env) (ttl : Duration) (n : Int) (calls : List CacheCall)
    (hok : Admits (fun c a => some (cacheStep env c a)) (KeepsOwners env) (newMetricCache ttl n)
      calls) :
    Consistent env n (calls.foldl (cacheStep env) (newMetricCache ttl n)) := by
  have hempty : OwnerIndexed env (newMetricCache ttl n) := Indexed.empty (ownerOf env)
  have hinv : OwnerIndexed env (calls.foldl (cacheStep env) (newMetricCache ttl n))
      ∧ Capped n (calls.foldl (cacheStep env) (newMetricCache ttl n)) := by
    refine runSchedule_inv (I := fun c => OwnerIndexed env c ∧ Capped n c)
      (fun c a c' hI hown hstep => ?_) calls ⟨hempty, rfl, fun hpos => ?_⟩ hok
      (runSchedule_total (cacheStep env) calls _)
    · cases hstep
      exact ⟨cacheStep_indexed a hI.1 hown, cacheStep_capped a hI.2⟩
    · exact Int.le_of_lt hpos
  obtain ⟨hindexed, _, hcapped⟩ := hinv
  refine ⟨fun p => ?_, fun idxKey tsKey hmem => ?_, hcapped,
    fun pre dp post now hk hlast => addDataPoints_update _ pre dp post now hk hlast⟩
  · rw [MetricCache.getProbeMetrics_eq]
    exact Indexed.perm hindexed (env.toLower p)
  obtain ⟨m, hm, _⟩ := (hindexed tsKey idxKey).mp hmem
  exact mem_of_lookup hm

/-- Names in lower case, no discriminant tags, no transformer. -/
def plainEnv : Env := ⟨id, fun _ => none, fun _ => none⟩

/-- A datapoint of a named probe. -/
def pointOf (probe metric : String) : DataPoint :=
  ⟨metric, 0, 1, [⟨"probe_name", probe, false⟩, ⟨"probe_type", "exec", false⟩], none⟩

/-- Two probes, one of them delivering twice, and a cleanup that expires the other. -/
def tidyRun : List CacheCall :=
  [.addDataPoints [pointOf "w" "u", pointOf "d" "u"] 0, .addDataPoints [pointOf "w" "u"] 50,
    .cleanup 90]

theorem cacheRun_consistent_tidyRun :
    let c := tidyRun.foldl (cacheStep plainEnv) (newMetricCache 60 2)
    (c.getProbeMetrics plainEnv "w").length = 1 ∧ c.size = 1 ∧ Consistent plainEnv 2 c :=
  ⟨by decide +kernel, by decide +kernel,
    cacheRun_consistent plainEnv 60 2 tidyRun (by decide +kernel)⟩

/-- Probe `a` with the metric `b:c`, then probe `a:b` with the metric `c`. -/
def sharedKeyRun : List CacheCall :=
  [.addDataPoints [pointOf "a" "b:c"] 0, .addDataPoints [pointOf "a:b" "c"] 1]

/-- Both render the key `a:b:c`: the page of `a` serves the value of `a:b`. -/
theorem sharedKey_misindexed :
    let c := sharedKeyRun.foldl (cacheStep plainEnv) (newMetricCache 60 10)
    (c.getProbeMetrics plainEnv "a").map (fun m => (m.probeName, m.metricName)) = [("a:b", "c")]
      ∧ ¬ Consistent plainEnv 10 c := by
  refine ⟨by decide +kernel, fun h => ?_⟩
  have hlength := (h.listed "a").length_eq
  revert hlength
  decide +kernel

end SenhubAgent.Http

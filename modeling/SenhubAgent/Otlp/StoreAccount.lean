import SenhubAgent.Otlp.MetricStore

/-!
# Cardinality accounting of the metric store

`probeCounts` repeats what the entries already say, and every operation keeps it up
in its own way: an upsert increments it for a new key, a retirement decrements it
and leaves a zero behind, an eviction decrements it and deletes the zero, a
forgotten probe is deleted from both maps by a case-folded name, and a restore
counts the snapshot it reads. `StoreInv` says they agree, for every probe.

The upsert is where it could go wrong: it increments only when the *key* is new, so
two probes sharing a key would be counted once and dropped twice. The other half of
the invariant rules that out: an entry is filed under its own key, and a probe name
without a separator is readable from the key (`storeKey_probeName`). The same fact
makes the keys of a snapshot distinct, which is why a restore may count its entries
one by one.
-/

namespace SenhubAgent.Otlp

open SenhubAgent.Lib

def StoredMetric.ofProbe (p : String) (e : StoredMetric) : Bool := decide (e.probeName = p)

/-- The number of stored entries whose probe name is `p`. -/
def MetricStore.seriesOf (s : MetricStore) (p : String) : Nat :=
  s.entries.entries.countP fun e => e.2.ofProbe p

/-- What an entry adds to the series of `p`. -/
def seriesWeight (p : String) : String → StoredMetric → Nat :=
  fun _ e => if e.ofProbe p then 1 else 0

theorem seriesOf_eq (s : MetricStore) (p : String) :
    s.seriesOf p = total (seriesWeight p) s.entries :=
  (total_countP (StoredMetric.ofProbe p) s.entries).symm

theorem size_eq (s : MetricStore) : s.size = total (fun _ _ => 1) s.entries :=
  (total_one s.entries).symm

theorem seriesWeight_eq (p k : String) (e : StoredMetric) :
    seriesWeight p k e = if e.probeName = p then 1 else 0 := by
  simp [seriesWeight, StoredMetric.ofProbe]

/-! ## The invariant -/

/-- An entry the store can hold: its probe is named, and the name is readable from
the key. -/
structure StoredMetric.WellNamed (e : StoredMetric) : Prop where
  clean : '|' ∉ e.probeName.toList
  named : e.probeName ≠ ""
  typed : e.probeType ≠ ""

structure StoreInv (s : MetricStore) : Prop where
  counted : ∀ p, s.probeSeriesCount p = s.seriesOf p
  keyed : ∀ k e, s.entries.lookup k = some e → e.key = k ∧ e.WellNamed

theorem storeInv_empty (s : MetricStore) :
    StoreInv { s with entries := ∅, probeCounts := ∅ } where
  counted := by intro p; rfl
  keyed := by intro k e h; cases h

variable {s : MetricStore} {e : StoredMetric} {k : String} {dp : DataPoint}
    {uncount : AssocMap String Nat → String → AssocMap String Nat}

theorem keyed_put (h : StoreInv s) (hk : e.key = k) (he : e.WellNamed) :
    ∀ k' e', (s.put k e).entries.lookup k' = some e' → e'.key = k' ∧ e'.WellNamed := by
  intro k' e' hlook
  obtain ⟨rfl, rfl⟩ | hold := lookup_of_insert hlook
  · exact ⟨hk, he⟩
  · exact h.keyed k' e' hold

theorem total_put_new (w : String → StoredMetric → Nat) (hk : k ∉ s.entries) (e : StoredMetric) :
    total w (s.put k e).entries = w k e + total w s.entries := by
  show total w (s.entries.insert k e) = _
  rw [total_insert, erase_of_absent hk]

theorem probeSeriesCount_bump (s : MetricStore) (p q : String) :
    (s.bump p).probeSeriesCount q = s.probeSeriesCount q + if p = q then 1 else 0 := by
  show readCount (s.probeCounts.insert p _) q = _
  rw [readCount_insert]
  by_cases h : q = p
  · subst h
    simp
  · rw [if_neg h, if_neg (Ne.symm h)]
    rfl

/-- A new series is counted. -/
theorem storeInv_put_new (h : StoreInv s) (hk : k ∉ s.entries) (hkey : e.key = k)
    (he : e.WellNamed) :
    StoreInv ((s.bump e.probeName).put k e) where
  counted := by
    intro p
    show (s.bump e.probeName).probeSeriesCount p = _
    have hsum := total_put_new (seriesWeight p) hk e
    rw [probeSeriesCount_bump, h.counted p, seriesOf_eq, seriesOf_eq]
    show _ = total (seriesWeight p) (s.put k e).entries
    rw [hsum, seriesWeight_eq]
    omega
  keyed := fun k' e' hlook => keyed_put h hkey he k' e' hlook

/-- A stored series keeps its probe: the key names it. -/
theorem storeInv_put_old (h : StoreInv s) (hk : k ∈ s.entries) (hkey : e.key = k)
    (he : e.WellNamed) : StoreInv (s.put k e) := by
  refine ⟨fun p => ?_, keyed_put h hkey he⟩
  obtain ⟨old, hold⟩ := exists_lookup hk
  obtain ⟨holdKey, holdNamed⟩ := h.keyed k old hold
  have hname : old.probeName = e.probeName :=
    storeKey_probeName holdNamed.clean he.clean (holdKey.trans hkey.symm)
  -- the old entry weighs what the new one does
  have hweight : seriesWeight p k e = seriesWeight p k old := by
    rw [seriesWeight_eq, seriesWeight_eq, hname]
  rw [seriesOf_eq]
  exact (h.counted p).trans ((seriesOf_eq s p).trans (total_update _ hold hweight).symm)

/-! ## Upserts -/

theorem storePoint_inv (h : StoreInv s) (he : e.WellNamed) : StoreInv (s.storePoint e.key e).1 := by
  unfold MetricStore.storePoint
  split
  next hk => exact storeInv_put_old h hk rfl he
  next hk =>
    split
    next => exact h
    next =>
      split
      next => exact h
      next => exact storeInv_put_new h hk rfl he

/-- What `upsertAt` can do: nothing, or `storePoint` a named entry. -/
theorem upsertAt_cases (s : MetricStore) (guard : Option MemoryState) (dp : DataPoint)
    (receivedAt now : Instant) :
    (s.upsertAt guard dp receivedAt now).1 = s ∨
      ((dp.entry receivedAt now).probeName ≠ "" ∧ (dp.entry receivedAt now).probeType ≠ "" ∧
        s.upsertAt guard dp receivedAt now
          = s.storePoint (dp.entry receivedAt now).key (dp.entry receivedAt now)) := by
  unfold MetricStore.upsertAt
  dsimp only
  split
  next => exact Or.inl rfl
  next hnamed =>
    rw [not_or] at hnamed
    split
    next => exact Or.inl rfl
    next =>
      split
      next => exact Or.inl rfl
      next => exact Or.inr ⟨hnamed.1, hnamed.2, rfl⟩
    next => exact Or.inr ⟨hnamed.1, hnamed.2, rfl⟩

/-- Its probe name, probe type and metric name hold no separator. -/
def DataPoint.Unbarred (dp : DataPoint) : Prop :=
  '|' ∉ (tagValue (flattenTags dp.tags) "probe_name").toList ∧
    '|' ∉ (tagValue (flattenTags dp.tags) "probe_type").toList ∧ '|' ∉ dp.name.toList

/-! ## Deletions -/

/-- Both ways of keeping a count down take one off a positive one. -/
structure Uncounts (uncount : AssocMap String Nat → String → AssocMap String Nat) : Prop where
  read : ∀ counts p q, readCount (uncount counts p) q
    = readCount counts q - if q = p then 1 else 0

theorem uncountKeep_uncounts : Uncounts uncountKeep where
  read := by
    intro counts p q
    unfold uncountKeep
    split
    next =>
      rw [readCount_insert]
      by_cases hq : q = p
      · rw [if_pos hq, if_pos hq, hq]
      · rw [if_neg hq, if_neg hq, Nat.sub_zero]
    next hzero =>
      by_cases hq : q = p
      · subst hq
        omega
      · rw [if_neg hq, Nat.sub_zero]

/-- Deleting a zero is not seen by a reader. -/
theorem uncountDelete_uncounts : Uncounts uncountDelete where
  read := by
    intro counts p q
    rw [← uncountKeep_uncounts.read counts p q]
    unfold uncountDelete uncountKeep
    split
    next =>
      dsimp only
      split
      next hzero =>
        rw [readCount_erase]
        by_cases hq : q = p
        · rw [if_pos hq, hq, hzero]
        · rw [if_neg hq]
      next => rfl
    next => rfl

theorem dropEntry_inv (hu : Uncounts uncount) (h : StoreInv s) (hk : s.entries.lookup k = some e) :
    StoreInv (s.remove uncount k e) where
  counted := by
    intro p
    have hcount := h.counted p
    have hsum := total_erase (seriesWeight p) hk
    rw [seriesOf_eq] at hcount ⊢
    rw [seriesWeight_eq] at hsum
    show readCount (uncount s.probeCounts e.probeName) p
      = total (seriesWeight p) (s.entries.erase k)
    rw [hu.read]
    unfold MetricStore.probeSeriesCount at hcount
    -- the count of the entry's own probe is positive, so taking one off is exact
    by_cases hp : e.probeName = p
    · rw [if_pos hp] at hsum
      rw [if_pos hp.symm]
      omega
    · rw [if_neg hp] at hsum
      rw [if_neg (Ne.symm hp)]
      omega
  keyed := fun k' e' hlook => h.keyed k' e' (lookup_of_erase hlook)

/-- What every deletion keeps, the deleting loop keeps, in whatever order it visits the
entries. -/
theorem dropWhere_rule {I : MetricStore → Prop}
    (hstep : ∀ s k e, I s → s.entries.lookup k = some e → I (s.remove uncount k e))
    (stale : StoredMetric → Bool) :
    ∀ (order : List String) {s : MetricStore}, I s →
      I (MetricStore.dropWhere stale uncount order s).1 := by
  intro order
  induction order with
  | nil => intro s h; exact h
  | cons k order ih =>
    intro s h
    unfold MetricStore.dropWhere
    split
    next => exact ih h
    next e he =>
      split
      next => exact ih (hstep s k e h he)
      next => exact ih h

/-- A forgotten probe loses its series and its count together; the other probes
lose neither. -/
theorem forgetProbes_inv (toLower : String → String) (h : StoreInv s) (probeNames : List String)
    {entryOrder countOrder : List String} (cadenceOrder : List String)
    (hentries : ∀ k, k ∈ s.entries → k ∈ entryOrder)
    (hcounts : ∀ p, p ∈ s.probeCounts → p ∈ countOrder) :
    StoreInv (s.forgetProbes toLower probeNames entryOrder countOrder cadenceOrder) where
  counted := by
    intro p
    rw [seriesOf_eq]
    show ((eraseWhere (fun p _ => decide (toLower p ∈ probeNames.map toLower)) countOrder
        s.probeCounts).lookup p).getD 0
      = total (seriesWeight p) (eraseWhere
          (fun _ e => decide (toLower e.probeName ∈ probeNames.map toLower)) entryOrder s.entries)
    rw [lookup_eraseWhere]
    by_cases hgone : toLower p ∈ probeNames.map toLower
    · -- forgotten: nothing of `p` is left on either side
      rw [total_eq_zero]
      · cases hlook : s.probeCounts.lookup p with
        | none => rfl
        | some n =>
          have hvisited := hcounts p (mem_of_lookup hlook)
          simp [Option.filter_some, hvisited, hgone]
      · intro k e hlook
        rw [lookup_eraseWhere] at hlook
        obtain ⟨hold, hkept⟩ := Option.filter_eq_some_iff.mp hlook
        have hvisited := hentries k (mem_of_lookup hold)
        rw [seriesWeight_eq]
        apply if_neg
        intro hp
        subst hp
        simp [hvisited, hgone] at hkept
    · -- kept: the loops pick nothing that `p` owns
      rw [total_eraseWhere, ← seriesOf_eq, ← h.counted p]
      · unfold MetricStore.probeSeriesCount readCount
        cases s.probeCounts.lookup p with
        | none => rfl
        | some n => simp [Option.filter_some, hgone]
      · intro k e hpicked
        rw [seriesWeight_eq]
        apply if_neg
        intro hp
        subst hp
        exact hgone (of_decide_eq_true hpicked)
  keyed := by
    intro k e hlook
    have hold : (eraseWhere (fun _ e => decide (toLower e.probeName ∈ probeNames.map toLower))
      entryOrder s.entries).lookup k = some e := hlook
    rw [lookup_eraseWhere] at hold
    exact h.keyed k e (Option.filter_eq_some_iff.mp hold).1

/-! ## Restores -/

/-- The loop over a snapshot: its entries have distinct keys and none is there yet,
so each one it stores is new and counted once. -/
theorem restoreLoop_inv :
    ∀ (snap : List EntrySnapshot) {s : MetricStore}, StoreInv s →
      (∀ e ∈ snap, e.entry.WellNamed) → (snap.map fun e => e.entry.key).Nodup →
      (∀ e ∈ snap, e.entry.key ∉ s.entries) → StoreInv (MetricStore.restoreLoop snap s) := by
  intro snap
  induction snap with
  | nil => intro s h _ _ _; exact h
  | cons e es ih =>
    intro s h hnamed hdistinct hfresh
    have he := hnamed e (List.mem_cons_self ..)
    rw [List.map_cons, List.nodup_cons] at hdistinct
    unfold MetricStore.restoreLoop
    rw [if_neg (by rw [not_or]; exact ⟨he.named, he.typed⟩)]
    apply ih
    · exact storeInv_put_new h (hfresh e (List.mem_cons_self ..)) rfl he
    · intro e' he'
      exact hnamed e' (List.mem_cons_of_mem _ he')
    · exact hdistinct.2
    · intro e' he' hin
      have hin' : e'.entry.key ∈ s.entries.insert e.entry.key e.entry := hin
      rcases AList.mem_insert _ |>.mp hin' with hsame | hold
      · exact hdistinct.1 (hsame ▸ List.mem_map_of_mem he')
      · exact hfresh e' (List.mem_cons_of_mem _ he') hold

/-- The keys of a snapshot are the keys of the store it was taken from. -/
theorem snapshotForCheckpoint_keys (h : StoreInv s) :
    s.snapshotForCheckpoint.map (fun e => e.entry.key) = s.entries.keys := by
  unfold MetricStore.snapshotForCheckpoint
  rw [List.map_map]
  apply List.map_congr_left
  intro e he
  exact (h.keyed e.1 e.2 (AList.mem_lookup_iff.mpr he)).1

theorem restoreFromSnapshot_inv (s : MetricStore) {taken : MetricStore} (htaken : StoreInv taken)
    {snap : List EntrySnapshot} (hsnap : snap.Perm taken.snapshotForCheckpoint) :
    StoreInv (s.restoreFromSnapshot snap) := by
  apply restoreLoop_inv
  · exact storeInv_empty s
  · intro e he
    obtain ⟨kv, hkv, heq⟩ := List.mem_map.mp (hsnap.mem_iff.mp he)
    have hold := (htaken.keyed kv.1 kv.2 (AList.mem_lookup_iff.mpr hkv)).2
    rw [← heq]
    exact ⟨hold.clean, hold.named, hold.typed⟩
  · rw [(hsnap.map _).nodup_iff, snapshotForCheckpoint_keys htaken]
    exact taken.entries.keys_nodup
  · intro e _ hin
    exact AList.notMem_empty _ hin

/-! ## Caps -/

/-- Within its caps. -/
structure StoreCapped (s : MetricStore) : Prop where
  budget : 0 < s.probeBudget → ∀ p, (s.seriesOf p : Int) ≤ s.probeBudget
  cap : 0 < s.maxEntries → (s.size : Int) ≤ s.maxEntries

/-- No heavier than before under any weight, with the same caps. -/
structure StoreShrinks (s s' : MetricStore) : Prop where
  weight : ∀ w, total w s'.entries ≤ total w s.entries
  budget : s'.probeBudget = s.probeBudget
  cap : s'.maxEntries = s.maxEntries

theorem StoreCapped.shrink {s' : MetricStore} (h : StoreCapped s) (hs : StoreShrinks s s') :
    StoreCapped s' where
  budget := by
    intro hpos p
    rw [hs.budget] at hpos ⊢
    have hold := h.budget hpos p
    have hle := hs.weight (seriesWeight p)
    rw [seriesOf_eq] at hold ⊢
    omega
  cap := by
    intro hpos
    rw [hs.cap] at hpos ⊢
    have hold := h.cap hpos
    have hle := hs.weight (fun _ _ => 1)
    rw [size_eq] at hold ⊢
    omega

theorem remove_shrinks (he : s.entries.lookup k = some e) :
    StoreShrinks s (s.remove uncount k e) where
  weight w := by
    rw [total_erase w he]
    exact Nat.le_add_left _ _
  budget := rfl
  cap := rfl

/-- A new series is admitted only under both caps. -/
theorem storePoint_capped (h : StoreInv s) (hc : StoreCapped s) (he : e.WellNamed) :
    StoreCapped (s.storePoint e.key e).1 := by
  have hinv := storePoint_inv h he
  unfold MetricStore.storePoint at hinv ⊢
  split
  next hk =>
    -- an update changes neither the size nor any probe's series
    rw [if_pos hk] at hinv
    refine ⟨fun hpos p => ?_, fun hpos => ?_⟩
    · rw [← hinv.counted p]
      show (s.probeSeriesCount p : Int) ≤ s.probeBudget
      rw [h.counted p]
      exact hc.budget hpos p
    · obtain ⟨old, hold⟩ := exists_lookup hk
      have hsame : (s.put e.key e).size = s.size := by
        rw [size_eq, size_eq]
        exact total_update _ hold rfl
      rw [hsame]
      exact hc.cap hpos
  next hk =>
    split
    next => exact hc
    next hbudget =>
      split
      next => exact hc
      next hcap =>
        refine ⟨fun hpos p => ?_, fun hpos => ?_⟩
        · have hsum := total_put_new (seriesWeight p) hk e
          have hold := hc.budget hpos p
          have hcount := h.counted e.probeName
          rw [seriesWeight_eq] at hsum
          rw [seriesOf_eq] at hold ⊢
          show ((total (seriesWeight p) (s.put e.key e).entries : Nat) : Int) ≤ s.probeBudget
          by_cases hp : e.probeName = p
          · -- the probe that grew was below its budget
            subst hp
            rw [seriesOf_eq] at hcount
            have hpos' : 0 < s.probeBudget := hpos
            rw [if_pos rfl] at hsum
            omega
          · rw [if_neg hp] at hsum
            omega
        · have hsum := total_put_new (fun _ _ => 1) hk e
          have hpos' : 0 < s.maxEntries := hpos
          have hbelow : ¬ ((s.size : Int) ≥ s.maxEntries) := fun hge => hcap ⟨hpos', hge⟩
          rw [size_eq] at hbelow ⊢
          show ((total (fun _ _ => 1) (s.put e.key e).entries : Nat) : Int) ≤ s.maxEntries
          omega

/-- What a run keeps: the invariant, and before a restore the caps. -/
structure StoreSound (restored : Bool) (s : MetricStore) : Prop where
  inv : StoreInv s
  capped : restored = false → StoreCapped s

variable {restored : Bool}

theorem StoreSound.upsertAt (h : StoreSound restored s) (guard : Option MemoryState)
    (hdp : dp.Unbarred) (receivedAt now : Instant) :
    StoreSound restored (s.upsertAt guard dp receivedAt now).1 := by
  rcases upsertAt_cases s guard dp receivedAt now with hsame | ⟨hnamed, htyped, heq⟩
  · rw [hsame]
    exact h
  · have hwell : (dp.entry receivedAt now).WellNamed := ⟨hdp.1, hnamed, htyped⟩
    rw [heq]
    exact ⟨storePoint_inv h.inv hwell, fun hr => storePoint_capped h.inv (h.capped hr) hwell⟩

theorem StoreSound.dropWhere (hu : Uncounts uncount) (h : StoreSound restored s)
    (stale : StoredMetric → Bool) (order : List String) :
    StoreSound restored (MetricStore.dropWhere stale uncount order s).1 :=
  dropWhere_rule (fun _ _ _ h he =>
    ⟨dropEntry_inv hu h.inv he, fun hr => (h.capped hr).shrink (remove_shrinks he)⟩) stale order h

/-! ## Runs -/

section Runs

variable (toLower : String → String)

/-- The stores a run of operations reaches, over datapoints without a separator in
their names; the flag says whether a restore is among them. A restored snapshot was
taken from a store some run reached, of this process or an earlier one with other
caps, and may list its entries in any order. -/
inductive StoreRun : Bool → MetricStore → Prop where
  | new (maxEntries probeBudget : Int) :
    StoreRun false (newMetricStoreWithCap maxEntries probeBudget)
  | upsertAt {r : Bool} {s : MetricStore} (run : StoreRun r s) (guard : Option MemoryState)
    (dp : DataPoint) (hdp : dp.Unbarred) (receivedAt now : Instant) :
    StoreRun r (s.upsertAt guard dp receivedAt now).1
  | retireSuperseded {r : Bool} {s : MetricStore} (run : StoreRun r s) (probes : List String)
    (arrival : Instant) (order : List String) (horder : order.Perm s.entries.keys) :
    StoreRun r (s.retireSuperseded probes arrival order).1
  | evictStale {r : Bool} {s : MetricStore} (run : StoreRun r s) (now : Instant) (ttl : Duration)
    (order : List String) (horder : order.Perm s.entries.keys) :
    StoreRun r (s.evictStale now ttl order).1
  | forgetProbes {r : Bool} {s : MetricStore} (run : StoreRun r s) (probeNames : List String)
    (entryOrder countOrder cadenceOrder : List String) (hentries : entryOrder.Perm s.entries.keys)
    (hcounts : countOrder.Perm s.probeCounts.keys) (hcadence : cadenceOrder.Perm s.cadence.keys) :
    StoreRun r (s.forgetProbes toLower probeNames entryOrder countOrder cadenceOrder)
  | noteProbeCadence {r : Bool} {s : MetricStore} (run : StoreRun r s) (probeName : String)
    (interval : Duration) : StoreRun r (s.noteProbeCadence probeName interval)
  | restoreFromSnapshot {r r' : Bool} {s taken : MetricStore} (run : StoreRun r s)
    (other : StoreRun r' taken) (snap : List EntrySnapshot)
    (hsnap : snap.Perm taken.snapshotForCheckpoint) :
    StoreRun true (s.restoreFromSnapshot snap)

variable {toLower}

theorem StoreRun.sound (run : StoreRun toLower restored s) : StoreSound restored s := by
  induction run with
  | new maxEntries probeBudget =>
    refine ⟨storeInv_empty (newMetricStoreWithCap maxEntries probeBudget), fun _ => ?_⟩
    exact ⟨fun hpos _ => Int.le_of_lt hpos, fun hpos => Int.le_of_lt hpos⟩
  | upsertAt _ guard dp hdp receivedAt now ih => exact ih.upsertAt guard hdp receivedAt now
  | retireSuperseded _ probes arrival order _ ih => exact ih.dropWhere uncountKeep_uncounts _ order
  | evictStale _ now ttl order _ ih =>
    unfold MetricStore.evictStale
    split
    next => exact ih
    next => exact ih.dropWhere uncountDelete_uncounts _ order
  | forgetProbes _ probeNames entryOrder countOrder cadenceOrder hentries hcounts _ ih =>
    refine ⟨forgetProbes_inv toLower ih.inv probeNames cadenceOrder
      (fun k hk => hentries.mem_iff.mpr (AList.mem_keys.mp hk))
      (fun p hp => hcounts.mem_iff.mpr (AList.mem_keys.mp hp)), fun hr => ?_⟩
    exact (ih.capped hr).shrink ⟨fun w => total_eraseWhere_le w _ entryOrder _, rfl, rfl⟩
  | noteProbeCadence _ probeName interval ih =>
    unfold MetricStore.noteProbeCadence
    split
    next => exact ih
    next =>
      exact ⟨⟨ih.inv.counted, ih.inv.keyed⟩, fun hr => ⟨(ih.capped hr).budget, (ih.capped hr).cap⟩⟩
  | restoreFromSnapshot _ _ snap hsnap _ htaken =>
    exact ⟨restoreFromSnapshot_inv _ htaken.inv hsnap, nofun⟩

/-- **Cardinality accounting.** In every state of every run the count of each probe
is the number of its stored series; without a restore the caps hold; and the update
of a stored series is refused by no cap: it replaces the entry, or the hard memory
limit drops it. -/
theorem storeRun_accounts {r : Bool} {s : MetricStore} (run : StoreRun toLower r s) :
    (∀ p, s.probeSeriesCount p = s.seriesOf p) ∧
    (r = false →
      (0 < s.probeBudget → ∀ p, (s.seriesOf p : Int) ≤ s.probeBudget) ∧
      (0 < s.maxEntries → (s.size : Int) ≤ s.maxEntries)) ∧
    ∀ guard dp receivedAt now, (dp.entry receivedAt now).probeName ≠ "" →
      (dp.entry receivedAt now).probeType ≠ "" → (dp.entry receivedAt now).key ∈ s.entries →
      s.upsertAt guard dp receivedAt now
        = if guard = some .hard then (s, .dropped .memoryHardLimit)
          else (s.put (dp.entry receivedAt now).key (dp.entry receivedAt now), .stored) := by
  refine ⟨run.sound.inv.counted, fun hr => ?_, fun guard dp receivedAt now hn ht hk => ?_⟩
  · exact ⟨(run.sound.capped hr).budget, (run.sound.capped hr).cap⟩
  · -- only the hard memory limit refuses the update of a stored series
    have hstored : s.storePoint (dp.entry receivedAt now).key (dp.entry receivedAt now)
        = (s.put (dp.entry receivedAt now).key (dp.entry receivedAt now), .stored) := by
      unfold MetricStore.storePoint
      rw [if_pos hk]
    unfold MetricStore.upsertAt
    rw [if_neg (by rw [not_or]; exact ⟨hn, ht⟩)]
    split
    next => rfl
    next =>
      rw [if_neg (fun hnot => hnot hk), hstored]
      rfl
    next hhard _ => rw [if_neg (fun he => hhard he), hstored]

end Runs

/-- A datapoint of the probe `host`. -/
def loadPoint : DataPoint :=
  ⟨"cpu.load", 7, 0.5, [⟨"probe_name", "host", false⟩, ⟨"probe_type", "cpu", false⟩], none⟩

/-- Capped at two series and one per probe, with the datapoint stored. -/
def loadStore : MetricStore := ((newMetricStoreWithCap 2 1).upsertAt none loadPoint 9 9).1

def idlePoint : DataPoint := { loadPoint with name := "cpu.idle" }

/-- The same store, once a later batch of the probe brought another series: the first one is
retired, and its place in the budget is free again. -/
def swappedStore : MetricStore :=
  let paced := loadStore.noteProbeCadence "host" 10
  let retired := (paced.retireSuperseded ["host"] 20 paced.entries.keys).1
  (retired.upsertAt none idlePoint 20 20).1

theorem storeRun_accounts_swapped :
    swappedStore.probeSeriesCount "host" = 1 ∧ swappedStore.seriesOf "host" = 1 ∧
      (swappedStore.seriesOf "host" : Int) ≤ 1 ∧ (swappedStore.size : Int) ≤ 2 ∧
      swappedStore.upsertAt none idlePoint 21 21
        = (swappedStore.put (idlePoint.entry 21 21).key (idlePoint.entry 21 21), .stored) := by
  have hunbarred : loadPoint.Unbarred ∧ idlePoint.Unbarred := by
    unfold DataPoint.Unbarred
    decide +kernel
  have hload : StoreRun id false loadStore := .upsertAt (.new 2 1) none loadPoint hunbarred.1 9 9
  have hrun : StoreRun id false swappedStore :=
    .upsertAt (.retireSuperseded (.noteProbeCadence hload "host" 10) ["host"] 20 _ (.refl _)) none
      idlePoint hunbarred.2 20 20
  obtain ⟨hcount, hcaps, hupdate⟩ := storeRun_accounts hrun
  have hone : swappedStore.probeSeriesCount "host" = 1 := by decide +kernel
  refine ⟨hone, (hcount "host").symm.trans hone, ?_, ?_, ?_⟩
  · exact (hcaps rfl).1 (by decide +kernel) "host"
  · exact (hcaps rfl).2 (by decide +kernel)
  · exact hupdate none _ 21 21 (by decide +kernel) (by decide +kernel) (by decide +kernel)

end SenhubAgent.Otlp

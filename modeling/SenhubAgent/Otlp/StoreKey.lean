import SenhubAgent.Otlp.MetricStore

/-!
# Series keys

`storeKey` joins a probe's name and type, the metric's name and the sorted tags of a
series by `|`. Two series under one key overwrite each other, so the key should tell any
two apart. The tags are escaped, and their text can be read back (`tagsText_inj`). The three
fixed parts are not, so

> `storeKey_unique_iff`: a series shares its key with no other exactly when its fixed
> parts hold no `|` and it has no tags beside its probe's.

A tagged series shares its key with the one whose metric name spells the tags out. Among
series whose fixed parts hold no `|`, keys are told apart whatever the tags (`key_inj`).
-/

namespace SenhubAgent.Otlp

open SenhubAgent.Lib

/-- A series; its tags hold the name and the type of its probe. -/
structure Series where
  probeName : String
  probeType : String
  metricName : String
  tags : AssocMap String String
  nameTag : tags.lookup "probe_name" = some probeName
  typeTag : tags.lookup "probe_type" = some probeType

def Series.key (x : Series) : String := storeKey x.probeName x.probeType x.metricName x.tags

/-- The same series; maps are compared by what they hold. -/
structure Series.Same (x y : Series) : Prop where
  probeName : x.probeName = y.probeName
  probeType : x.probeType = y.probeType
  metricName : x.metricName = y.metricName
  tags : ∀ k, x.tags.lookup k = y.tags.lookup k

/-- No separator in the fixed parts. -/
structure Series.Clean (x : Series) : Prop where
  probeName : '|' ∉ x.probeName.toList
  probeType : '|' ∉ x.probeType.toList
  metricName : '|' ∉ x.metricName.toList

/-- No tags beside the probe's. -/
def Series.Untagged (x : Series) : Prop := ∀ k ∈ x.tags, k = "probe_name" ∨ k = "probe_type"

/-! ## The text of a key -/

/-- The keys of the tags a key spells out, in their order. -/
def tagKeys (tags : AssocMap String String) : List String :=
  (tags.keys.filter fun k => !(k == "probe_name" || k == "probe_type")).insertionSort (· ≤ ·)

def tagPairs (tags : AssocMap String String) : List (List Char × List Char) :=
  (tagKeys tags).map fun k => (k.toList, (tagValue tags k).toList)

def isKeySpecial (c : Char) : Bool := c = '\\' ∨ c = '|' ∨ c = '='

def tagsText (pairs : List (List Char × List Char)) : List Char :=
  pairs.flatMap fun kv =>
    '|' :: (escape isKeySpecial '\\' kv.1 ++ '=' :: escape isKeySpecial '\\' kv.2)

variable {tags tags' : AssocMap String String} {k : String} {x y : Series}

theorem mem_tagKeys : k ∈ tagKeys tags ↔ k ∈ tags ∧ k ≠ "probe_name" ∧ k ≠ "probe_type" := by
  unfold tagKeys
  rw [List.mem_insertionSort, List.mem_filter, AList.mem_keys]
  simp

theorem toList_escapeStoreKeyPart (s : String) :
    (escapeStoreKeyPart s).toList = escape isKeySpecial '\\' s.toList := by
  unfold escapeStoreKeyPart escape
  rw [String.toList_ofList]
  congr 1
  funext c
  simp [escapeStoreKeyChar, isKeySpecial]

theorem toList_storeKey (p t n : String) (tags : AssocMap String String) :
    (storeKey p t n tags).toList =
      p.toList ++ '|' :: (t.toList ++ '|' :: (n.toList ++ tagsText (tagPairs tags))) := by
  have hfixed : (p ++ "|" ++ t ++ "|" ++ n).toList
      = p.toList ++ '|' :: (t.toList ++ '|' :: n.toList) := by
    simp [String.toList_append]
  unfold storeKey
  rw [toList_foldl_append, hfixed]
  have htags : ((tags.keys.filter fun k => !(k == "probe_name" || k == "probe_type")).insertionSort
      (· ≤ ·)).flatMap (fun k => (storeKeyTag tags k).toList) = tagsText (tagPairs tags) := by
    unfold tagsText tagPairs tagKeys
    rw [List.flatMap_map]
    congr 1
    funext k
    unfold storeKeyTag
    simp [String.toList_append, toList_escapeStoreKeyPart]
  rw [htags]
  simp

/-! ## Reading it back -/

theorem tagsText_head (pairs : List (List Char × List Char)) {c : Char}
    (h : (tagsText pairs).head? = some c) : c = '|' :=
  pairsText_head pairs h

theorem tagsText_inj {pairs pairs' : List (List Char × List Char)}
    (h : tagsText pairs = tagsText pairs') : pairs = pairs' :=
  pairsText_inj (by decide) (by decide) (by decide) h

theorem lookup_eq_of_tagValue (hmem : k ∈ tags ↔ k ∈ tags')
    (hvalue : k ∈ tags → tagValue tags k = tagValue tags' k) : tags.lookup k = tags'.lookup k := by
  by_cases hk : k ∈ tags
  · obtain ⟨v, hv⟩ := exists_lookup hk
    obtain ⟨v', hv'⟩ := exists_lookup (hmem.mp hk)
    have heq := hvalue hk
    unfold tagValue at heq
    rw [hv, hv'] at heq ⊢
    exact congrArg some heq
  · rw [AList.lookup_eq_none.mpr hk, AList.lookup_eq_none.mpr (hmem.not.mp hk)]

/-- Tags with the same text are the same, beside the probe's. -/
theorem lookup_eq_of_tagPairs (h : tagPairs tags = tagPairs tags') (hname : k ≠ "probe_name")
    (htype : k ≠ "probe_type") : tags.lookup k = tags'.lookup k := by
  have hkeys : tagKeys tags = tagKeys tags' := by
    have hfst := congrArg (List.map Prod.fst) h
    unfold tagPairs at hfst
    rw [List.map_map, List.map_map] at hfst
    exact List.map_injective_iff.mpr (fun _ _ => String.toList_injective) hfst
  have hmem : ∀ {tags : AssocMap String String}, k ∈ tagKeys tags ↔ k ∈ tags := by
    intro tags
    rw [mem_tagKeys]
    exact and_iff_left ⟨hname, htype⟩
  refine lookup_eq_of_tagValue (by rw [← hmem, ← hmem, hkeys]) fun hk => ?_
  unfold tagPairs at h
  rw [← hkeys] at h
  exact String.toList_injective (Prod.ext_iff.mp (List.map_inj_left.mp h k (hmem.mpr hk))).2

/-- Keys tell apart series whose fixed parts hold no separator. -/
theorem key_inj (hx : x.Clean) (hy : y.Clean) (h : x.key = y.key) : x.Same y := by
  have hlist := congrArg String.toList h
  unfold Series.key at hlist
  rw [toList_storeKey, toList_storeKey] at hlist
  obtain ⟨hname, hlist⟩ := field_inj hx.probeName hy.probeName hlist
  obtain ⟨htype, hlist⟩ := field_inj hx.probeType hy.probeType hlist
  have hclean : ∀ {l : List Char}, '|' ∉ l → ∀ c ∈ l, (c != '|') = true := by
    intro l hl c hc
    rw [bne_iff_ne]
    rintro rfl
    exact hl hc
  have hstops : ∀ pairs, StopsAt (fun c => c != '|') (tagsText pairs) := by
    intro pairs c hc
    rw [tagsText_head pairs hc]
    rfl
  obtain ⟨hmetric, htags⟩ := run_inj (hclean hx.metricName) (hclean hy.metricName)
    (hstops _) (hstops _) hlist
  have hpairs := tagsText_inj htags
  have hname := String.toList_injective hname
  have htype := String.toList_injective htype
  refine ⟨hname, htype, String.toList_injective hmetric, fun k => ?_⟩
  by_cases hk : k = "probe_name"
  · rw [hk, x.nameTag, y.nameTag, hname]
  · by_cases hk' : k = "probe_type"
    · rw [hk', x.typeTag, y.typeTag, htype]
    · exact lookup_eq_of_tagPairs hpairs hk hk'

/-! ## Series under one key -/

/-- The untagged series of the given parts. -/
def plainSeries (p t n : String) : Series where
  probeName := p
  probeType := t
  metricName := n
  tags := (AList.insert "probe_name" p ∅).insert "probe_type" t
  nameTag := by rw [AList.lookup_insert_ne (by decide), AList.lookup_insert]
  typeTag := by rw [AList.lookup_insert]

theorem plainSeries_untagged (p t n : String) : (plainSeries p t n).Untagged := by
  intro k hk
  unfold plainSeries at hk
  simp only [AList.mem_insert] at hk
  rcases hk with rfl | rfl | hk
  · exact Or.inr rfl
  · exact Or.inl rfl
  · exact absurd hk (AList.notMem_empty k)

theorem tagKeys_of_untagged (h : x.Untagged) : tagKeys x.tags = [] := by
  rw [List.eq_nil_iff_forall_not_mem]
  intro k hk
  obtain ⟨hmem, hname, htype⟩ := mem_tagKeys.mp hk
  rcases h k hmem with heq | heq
  · exact hname heq
  · exact htype heq

/-- The key of an untagged series is its fixed parts. -/
theorem toList_key_of_untagged (h : x.Untagged) : x.key.toList =
    x.probeName.toList ++ '|' :: (x.probeType.toList ++ '|' :: x.metricName.toList) := by
  unfold Series.key
  rw [toList_storeKey]
  unfold tagPairs
  rw [tagKeys_of_untagged h]
  simp [tagsText]

/-- A tagged series has the key of the one whose metric name spells the tags out. -/
theorem shared_of_tagged (h : ¬ x.Untagged) : ∃ y, x.key = y.key ∧ ¬ x.Same y := by
  let y := plainSeries x.probeName x.probeType
    (String.ofList (x.metricName.toList ++ tagsText (tagPairs x.tags)))
  have hy : y.Untagged := plainSeries_untagged _ _ _
  refine ⟨y, String.toList_injective ?_, fun hsame => h fun k hk => hy k ?_⟩
  · rw [toList_key_of_untagged hy]
    unfold Series.key
    rw [toList_storeKey]
    show _ = x.probeName.toList ++ '|' :: (x.probeType.toList ++ '|' :: (String.ofList _).toList)
    rw [String.toList_ofList]
  · rw [← AList.lookup_isSome, ← hsame.tags k, AList.lookup_isSome]
    exact hk

/-- A series with a separator in a fixed part has the key of one that is cut elsewhere. -/
theorem shared_of_unclean (h : ¬ x.Clean) (hx : x.Untagged) : ∃ y, x.key = y.key ∧ ¬ x.Same y := by
  -- another cut of the fixed parts, with another probe name
  have hcut : ∀ p t n : List Char, p.length ≠ x.probeName.toList.length →
      x.probeName.toList ++ '|' :: (x.probeType.toList ++ '|' :: x.metricName.toList)
        = p ++ '|' :: (t ++ '|' :: n) → ∃ y, x.key = y.key ∧ ¬ x.Same y := by
    intro p t n hlen heq
    refine ⟨plainSeries (String.ofList p) (String.ofList t) (String.ofList n),
      String.toList_injective ?_, fun hsame => hlen ?_⟩
    · rw [toList_key_of_untagged hx, toList_key_of_untagged (plainSeries_untagged _ _ _), heq]
      simp [plainSeries]
    · have := congrArg (fun s => s.toList.length) hsame.probeName
      simpa [plainSeries] using this.symm
  by_cases hname : '|' ∈ x.probeName.toList
  · obtain ⟨a, b, hab⟩ := List.append_of_mem hname
    refine hcut a (b ++ '|' :: x.probeType.toList) x.metricName.toList ?_ ?_
    · rw [hab]
      simp
    · rw [hab]
      simp
  · by_cases htype : '|' ∈ x.probeType.toList
    · obtain ⟨a, b, hab⟩ := List.append_of_mem htype
      refine hcut (x.probeName.toList ++ '|' :: a) b x.metricName.toList (by simp) ?_
      rw [hab]
      simp
    · by_cases hmetric : '|' ∈ x.metricName.toList
      · obtain ⟨a, b, hab⟩ := List.append_of_mem hmetric
        refine hcut (x.probeName.toList ++ '|' :: x.probeType.toList) a b (by simp) ?_
        rw [hab]
        simp
      · exact absurd ⟨hname, htype, hmetric⟩ h

/-- A key with two separators is the key of an untagged series with clean parts only. -/
theorem clean_of_count (h : y.key.toList.count '|' = 2) : y.Clean ∧ y.Untagged := by
  unfold Series.key at h
  rw [toList_storeKey] at h
  simp only [List.count_append, List.count_cons_self] at h
  have hname := List.count_eq_zero.mp (show y.probeName.toList.count '|' = 0 by omega)
  have htype := List.count_eq_zero.mp (show y.probeType.toList.count '|' = 0 by omega)
  have hmetric := List.count_eq_zero.mp (show y.metricName.toList.count '|' = 0 by omega)
  have htags : (tagsText (tagPairs y.tags)).count '|' = 0 := by omega
  refine ⟨⟨hname, htype, hmetric⟩, fun k hk => ?_⟩
  by_contra hother
  have hmem : k ∈ tagKeys y.tags := mem_tagKeys.mpr ⟨hk, fun he => hother (Or.inl he),
    fun he => hother (Or.inr he)⟩
  refine List.count_eq_zero.mp htags ?_
  unfold tagsText tagPairs
  rw [List.flatMap_map]
  exact List.mem_flatMap.mpr ⟨k, hmem, List.mem_cons_self ..⟩

/-- **When a key is a series' own.** No other series has the key exactly when the fixed parts
hold no separator and there are no tags beside the probe's; of two series whose fixed
parts hold no separator, neither has the other's key, whatever the tags. -/
theorem storeKey_unique_iff (x : Series) :
    ((∀ y, x.key = y.key → x.Same y) ↔ x.Clean ∧ x.Untagged) ∧
      ∀ y, x.Clean → y.Clean → x.key = y.key → x.Same y := by
  refine ⟨⟨fun hunique => ?_, ?_⟩, fun y hx hy => key_inj hx hy⟩
  · have huntagged : x.Untagged := by
      by_contra htagged
      obtain ⟨y, hkey, hdiffer⟩ := shared_of_tagged htagged
      exact hdiffer (hunique y hkey)
    refine ⟨?_, huntagged⟩
    by_contra hunclean
    obtain ⟨y, hkey, hdiffer⟩ := shared_of_unclean hunclean huntagged
    exact hdiffer (hunique y hkey)
  · rintro ⟨hclean, huntagged⟩ y hkey
    have hcount : x.key.toList.count '|' = 2 := by
      rw [toList_key_of_untagged huntagged]
      simp only [List.count_append, List.count_cons_self, List.count_eq_zero.mpr hclean.probeName,
        List.count_eq_zero.mpr hclean.probeType, List.count_eq_zero.mpr hclean.metricName]
    rw [hkey] at hcount
    exact key_inj hclean (clean_of_count hcount).1 hkey

/-- A metric of a peer with a tag, and one whose name spells that tag out. -/
def taggedQueue : Series where
  probeName := "rx"
  probeType := "otlp_receiver"
  metricName := "queue"
  tags := ((AList.insert "probe_name" "rx" ∅).insert "probe_type" "otlp_receiver").insert "host" "a"
  nameTag := by decide
  typeTag := by decide

def spelledQueue : Series := plainSeries "rx" "otlp_receiver" "queue|host=a"

theorem queues_share_key :
    taggedQueue.key = spelledQueue.key ∧ ¬ taggedQueue.Same spelledQueue := by
  refine ⟨by decide, fun h => ?_⟩
  exact absurd h.metricName (by decide)

end SenhubAgent.Otlp

import SenhubAgent.Http.MetricCache
import SenhubAgent.Otlp.StoreKey

/-!
# Series keys of the HTTP cache

`generateTimeSeriesKey` joins the discriminant tags of a point behind its probe and its metric.
For a probe with arbitrary labels every tag counts and is escaped, and the key tells any two
label sets apart. For the other probes the registered tags count and are not escaped, so a value
can spell the tags that would follow it.
-/

namespace SenhubAgent.Http

open SenhubAgent.Lib SenhubAgent.Otlp

/-- The tags that count for a probe type. -/
def registered (env : Env) (probeType : String) : List String := (env.discriminantTags probeType).getD []

/-- The registered names are listed once each and hold neither separator. -/
structure Env.WellRegistered (env : Env) : Prop where
  nodup : ∀ probeType, (registered env probeType).Nodup
  comma : ∀ {probeType k}, k ∈ registered env probeType → ',' ∉ k.toList
  equals : ∀ {probeType k}, k ∈ registered env probeType → '=' ∉ k.toList

section Key

variable (env : Env) (probeType : String)

/-- The tag identifies the series. -/
def Discriminant (k : String) : Prop :=
  if fullTagKeyProbes probeType then k ≠ "probe_name" ∧ k ≠ "probe_type" else k ∈ registered env probeType

/-- The discriminant tags are the same, as maps. -/
def SameSeries (tags tags' : AssocMap String String) : Prop :=
  ∀ k, Discriminant env probeType k → tags.lookup k = tags'.lookup k

/-- The registered tags a point carries, in the order of the key. -/
def present (tags : AssocMap String String) : List String :=
  ((registered env probeType).filter fun name => decide (name ∈ tags)).insertionSort (· ≤ ·)

/-! ## The text of a key -/

/-- The parts, each behind a comma. -/
def partsText (parts : List (List Char)) : List Char := parts.flatMap (',' :: ·)

theorem toList_joinStrings (s : String) (strs : List String) :
    (joinStrings (s :: strs) ",").toList = s.toList ++ partsText (strs.map String.toList) := by
  unfold joinStrings partsText
  simp only [String.append_assoc]
  rw [toList_foldl_append (fun s => "," ++ s), List.flatMap_map]
  simp

variable {probeName metricName k k' : String} {tags tags' : AssocMap String String}
    {ks ks' : List String}

theorem renderKey_eq_iff {parts parts' : List String} :
    renderKey probeName metricName parts = renderKey probeName metricName parts' ↔
      partsText (parts.map String.toList) = partsText (parts'.map String.toList) := by
  have hlong : ∀ a b x : String, a ++ ":" ++ b ++ ":" ++ x ≠ a ++ ":" ++ b := fun a b x h => by
    have := congrArg (fun s => s.toList.length) h
    simp at this
  cases parts with
  | nil =>
    cases parts' with
    | nil => exact iff_of_true rfl rfl
    | cons p' ps' => exact iff_of_false (fun h => hlong _ _ _ h.symm) nofun
  | cons p ps =>
    cases parts' with
    | nil => exact iff_of_false (hlong _ _ _) nofun
    | cons p' ps' =>
      show _ ++ joinStrings (p :: ps) "," = _ ++ joinStrings (p' :: ps') "," ↔ _
      rw [← String.toList_inj]
      simp only [String.toList_append, List.append_right_inj, toList_joinStrings]
      exact (List.cons_inj_right ',').symm

/-- A registered tag as a part of the key. -/
def plainPart (tags : AssocMap String String) (k : String) : List Char :=
  k.toList ++ '=' :: (tagValue tags k).toList

variable {env probeType}

theorem key_eq_iff_plain (hfull : fullTagKeyProbes probeType = false) :
    generateTimeSeriesKey env probeName probeType metricName tags =
        generateTimeSeriesKey env probeName probeType metricName tags' ↔
      partsText ((present env probeType tags).map (plainPart tags)) =
        partsText ((present env probeType tags').map (plainPart tags')) := by
  have hparts : ∀ tags : AssocMap String String,
      ((present env probeType tags).map fun k => k ++ "=" ++ tagValue tags k).map String.toList =
        (present env probeType tags).map (plainPart tags) := fun tags => by
    rw [List.map_map]
    exact List.map_congr_left fun k _ => by simp [plainPart]
  simp only [generateTimeSeriesKey, hfull, Bool.false_eq_true, if_false]
  rw [renderKey_eq_iff]
  show partsText (List.map _ (List.map _ (present env probeType tags))) =
    partsText (List.map _ (List.map _ (present env probeType tags'))) ↔ _
  rw [hparts, hparts]

theorem mem_present : k ∈ present env probeType tags ↔ k ∈ registered env probeType ∧ k ∈ tags := by
  rw [present, List.mem_insertionSort, List.mem_filter, decide_eq_true_eq]

theorem sameSeries_iff_plain (hfull : fullTagKeyProbes probeType = false) :
    SameSeries env probeType tags tags' ↔
      present env probeType tags = present env probeType tags' ∧
        ∀ k ∈ present env probeType tags, tagValue tags k = tagValue tags' k := by
  have hreg : ∀ k, Discriminant env probeType k ↔ k ∈ registered env probeType := fun k => by
    rw [Discriminant, hfull, if_neg Bool.false_ne_true]
  constructor
  · intro hsame
    constructor
    · refine congrArg (List.insertionSort _) (List.filter_congr fun k hk => ?_)
      rw [decide_eq_decide, ← AList.lookup_isSome, hsame k ((hreg k).mpr hk), AList.lookup_isSome]
    · intro k hk
      rw [tagValue, hsame k ((hreg k).mpr (mem_present.mp hk).1), tagValue]
  · rintro ⟨hpresent, hvalues⟩ k hk
    have hk := (hreg k).mp hk
    refine lookup_eq_of_tagValue ⟨fun hmem => ?_, fun hmem => ?_⟩ fun hmem => ?_
    · exact (mem_present.mp (hpresent ▸ mem_present.mpr ⟨hk, hmem⟩)).2
    · exact (mem_present.mp (hpresent.symm ▸ mem_present.mpr ⟨hk, hmem⟩)).2
    · exact hvalues k (mem_present.mpr ⟨hk, hmem⟩)

theorem partsText_cons (tags : AssocMap String String) (k : String) (ks : List String) :
    partsText ((k :: ks).map (plainPart tags)) =
      ',' :: (k.toList ++ '=' :: ((tagValue tags k).toList ++ partsText (ks.map (plainPart tags)))) := by
  simp [partsText, plainPart]

/-- Under one key the first tags have one name. -/
theorem first_name (hk : '=' ∉ k.toList) (hk' : '=' ∉ k'.toList)
    (h : partsText ((k :: ks).map (plainPart tags)) = partsText ((k' :: ks').map (plainPart tags'))) :
    k = k' ∧ (tagValue tags k).toList ++ partsText (ks.map (plainPart tags)) =
      (tagValue tags' k').toList ++ partsText (ks'.map (plainPart tags')) := by
  rw [partsText_cons, partsText_cons] at h
  obtain ⟨hname, hrest⟩ := field_inj hk hk' (List.cons_inj_right _ |>.mp h)
  exact ⟨String.toList_injective hname, hrest⟩

/-- The text a registered tag starts with behind another one. -/
def nextTag (k : String) : List Char := ',' :: (k.toList ++ ['='])

/-- The point's key is its own: it carries at most one registered tag, whose value does not spell
the start of a later one. -/
def Unshared (env : Env) (probeType : String) (tags : AssocMap String String) : Prop :=
  present env probeType tags = [] ∨
    ∃ k, present env probeType tags = [k] ∧
      ∀ k' ∈ registered env probeType, k < k' → ¬nextTag k' <:+: (tagValue tags k).toList

/-- No value of the point spells the start of a registered tag. -/
def Plain (env : Env) (probeType : String) (tags : AssocMap String String) : Prop :=
  ∀ k ∈ present env probeType tags, ∀ k' ∈ registered env probeType,
    ¬nextTag k' <:+: (tagValue tags k).toList

/-! ## Every tag, escaped -/

def isPartSpecial (c : Char) : Bool := c = '\\' ∨ c = ',' ∨ c = '='

theorem toList_escapeKeyPart (s : String) :
    (escapeKeyPart s).toList = escape isPartSpecial '\\' s.toList := by
  unfold escapeKeyPart escape
  rw [String.toList_ofList]
  congr 1
  funext c
  simp [escapeKeyChar, isPartSpecial]

theorem partsText_full (tags : AssocMap String String) :
    partsText (((tagKeys tags).map fun k =>
        escapeKeyPart k ++ "=" ++ escapeKeyPart (tagValue tags k)).map String.toList) =
      pairsText isPartSpecial '\\' ',' '=' (tagPairs tags) := by
  unfold partsText pairsText tagPairs
  rw [List.map_map, List.flatMap_map, List.flatMap_map]
  congr 1
  funext k
  simp [toList_escapeKeyPart]

theorem tagPairs_congr
    (h : ∀ k, k ≠ "probe_name" → k ≠ "probe_type" → tags.lookup k = tags'.lookup k) :
    tagPairs tags = tagPairs tags' := by
  have hkeys : tagKeys tags = tagKeys tags' := by
    refine List.Perm.eq_of_pairwise' (List.pairwise_insertionSort _ _) (List.pairwise_insertionSort _ _)
      ((List.perm_ext_iff_of_nodup ?_ ?_).mpr fun k => ?_)
    · exact (List.perm_insertionSort _ _).nodup_iff.mpr (tags.keys_nodup.filter _)
    · exact (List.perm_insertionSort _ _).nodup_iff.mpr (tags'.keys_nodup.filter _)
    · rw [mem_tagKeys, mem_tagKeys]
      refine and_congr_left fun hk => ?_
      rw [← AList.lookup_isSome, h k hk.1 hk.2, AList.lookup_isSome]
  unfold tagPairs
  rw [hkeys]
  refine List.map_congr_left fun k hk => ?_
  obtain ⟨-, hname, htype⟩ := mem_tagKeys.mp hk
  rw [tagValue, h k hname htype, tagValue]

theorem key_eq_iff_full (hfull : fullTagKeyProbes probeType = true) :
    generateTimeSeriesKey env probeName probeType metricName tags =
        generateTimeSeriesKey env probeName probeType metricName tags' ↔
      SameSeries env probeType tags tags' := by
  have hkey : ∀ tags : AssocMap String String,
      generateTimeSeriesKey env probeName probeType metricName tags =
        renderKey probeName metricName ((tagKeys tags).map fun k =>
          escapeKeyPart k ++ "=" ++ escapeKeyPart (tagValue tags k)) := fun tags => if_pos hfull
  rw [hkey, hkey, renderKey_eq_iff, partsText_full, partsText_full]
  unfold SameSeries Discriminant
  simp only [hfull, if_true, and_imp]
  exact ⟨fun h k => lookup_eq_of_tagPairs (pairsText_inj (by decide) (by decide) (by decide) h),
    fun h => by rw [tagPairs_congr h]⟩

/-! ## Registered tags, as they are -/

theorem present_eq (henv : env.WellRegistered) (hsorted : ks.Pairwise (· < ·))
    (hmem : ∀ k, k ∈ ks ↔ k ∈ registered env probeType ∧ k ∈ tags) :
    present env probeType tags = ks := by
  refine List.Perm.eq_of_pairwise' (List.pairwise_insertionSort _ _) (hsorted.imp le_of_lt)
    ((List.perm_ext_iff_of_nodup ?_ (hsorted.imp ne_of_lt)).mpr fun k => ?_)
  · exact (List.perm_insertionSort _ _).nodup_iff.mpr ((henv.nodup probeType).filter _)
  · rw [hmem]
    exact mem_present

theorem present_sorted (henv : env.WellRegistered) (tags : AssocMap String String) :
    (present env probeType tags).Pairwise (· < ·) := by
  have hnodup : (present env probeType tags).Nodup :=
    (List.perm_insertionSort _ _).nodup_iff.mpr ((henv.nodup probeType).filter _)
  exact ((List.pairwise_insertionSort (· ≤ ·) _).and hnodup).imp fun h => lt_of_le_of_ne h.1 h.2

theorem mem_registered (h : present env probeType tags = k :: ks) : k ∈ registered env probeType :=
  (mem_present.mp (h ▸ List.mem_cons_self)).1

/-- Two tags or more: the first one alone can spell them all. -/
theorem shared_of_two (henv : env.WellRegistered) (h : present env probeType tags = k :: k' :: ks) :
    ∃ tags', partsText ((present env probeType tags).map (plainPart tags)) =
        partsText ((present env probeType tags').map (plainPart tags')) ∧
      present env probeType tags ≠ present env probeType tags' := by
  let v := (tagValue tags k).toList ++ partsText ((k' :: ks).map (plainPart tags))
  let tags' : AssocMap String String := AList.insert k (String.ofList v) ∅
  have hpresent : present env probeType tags' = [k] := by
    refine present_eq henv (List.pairwise_singleton _ _) fun x => ?_
    rw [List.mem_singleton, AList.mem_insert, or_iff_left (AList.notMem_empty x)]
    exact ⟨fun hx => ⟨hx ▸ mem_registered h, hx⟩, And.right⟩
  have hvalue : tagValue tags' k = String.ofList v := by
    rw [tagValue, AList.lookup_insert, Option.getD_some]
  refine ⟨tags', ?_, ?_⟩
  · rw [h, hpresent, partsText_cons tags k, partsText_cons tags' k, hvalue, String.toList_ofList]
    simp [v, partsText]
  · rw [h, hpresent]
    nofun

/-- One tag whose value spells the start of a later one: the two can stand apart. -/
theorem shared_of_spelled (henv : env.WellRegistered) (h : present env probeType tags = [k])
    (hk' : k' ∈ registered env probeType) (hlt : k < k')
    (hin : nextTag k' <:+: (tagValue tags k).toList) :
    ∃ tags', partsText ((present env probeType tags).map (plainPart tags)) =
        partsText ((present env probeType tags').map (plainPart tags')) ∧
      present env probeType tags ≠ present env probeType tags' := by
  obtain ⟨a, b, hab⟩ := hin
  let tags' : AssocMap String String :=
    AList.insert k (String.ofList a) (AList.insert k' (String.ofList b) ∅)
  have hpresent : present env probeType tags' = [k, k'] := by
    refine present_eq henv (by simpa using hlt) fun x => ?_
    rw [AList.mem_insert, AList.mem_insert, or_iff_left (AList.notMem_empty x), List.mem_cons,
      List.mem_singleton]
    refine ⟨fun hx => ⟨?_, hx⟩, And.right⟩
    rcases hx with rfl | rfl
    · exact mem_registered h
    · exact hk'
  have hvalue : tagValue tags' k = String.ofList a := by
    rw [tagValue, AList.lookup_insert, Option.getD_some]
  have hvalue' : tagValue tags' k' = String.ofList b := by
    rw [tagValue, AList.lookup_insert_ne (ne_of_gt hlt), AList.lookup_insert, Option.getD_some]
  refine ⟨tags', ?_, ?_⟩
  · rw [h, hpresent, partsText_cons, partsText_cons, partsText_cons, hvalue, hvalue', ← hab]
    simp [partsText, nextTag]
  · rw [h, hpresent]
    nofun

/-- The key of a point that is alone with its text. -/
theorem same_of_unshared (henv : env.WellRegistered) (hfull : fullTagKeyProbes probeType = false)
    (h : Unshared env probeType tags)
    (heq : partsText ((present env probeType tags).map (plainPart tags)) =
      partsText ((present env probeType tags').map (plainPart tags'))) :
    SameSeries env probeType tags tags' := by
  rw [sameSeries_iff_plain hfull]
  rcases h with hnone | ⟨k, hone, hvalue⟩
  · rw [hnone] at heq ⊢
    cases h' : present env probeType tags' with
    | nil => exact ⟨rfl, nofun⟩
    | cons k' ks' =>
      rw [h'] at heq
      cases heq
  · rw [hone] at heq ⊢
    cases h' : present env probeType tags' with
    | nil =>
      rw [h'] at heq
      cases heq
    | cons k' ks' =>
      rw [h'] at heq
      have hk' := mem_registered h'
      obtain ⟨rfl, heq⟩ := first_name (henv.equals (mem_registered hone)) (henv.equals hk') heq
      cases ks' with
      | nil =>
        refine ⟨rfl, fun x hx => ?_⟩
        rw [List.mem_singleton.mp hx]
        exact String.toList_injective (by simpa [partsText] using heq)
      | cons k₂ ks₂ =>
        have hin : k₂ ∈ present env probeType tags' := by
          rw [h']
          exact List.mem_cons_of_mem _ List.mem_cons_self
        have hlt : k < k₂ := by
          have hsorted : (present env probeType tags').Pairwise (· < ·) := present_sorted henv tags'
          rw [h'] at hsorted
          exact (List.pairwise_cons.mp hsorted).1 k₂ List.mem_cons_self
        refine absurd ?_ (hvalue k₂ (mem_present.mp hin).1 hlt)
        rw [List.map_nil, partsText_cons] at heq
        refine ⟨(tagValue tags' k).toList,
          (tagValue tags' k₂).toList ++ partsText (ks₂.map (plainPart tags')), ?_⟩
        simpa [partsText, nextTag] using heq.symm

/-- A value cannot reach into the tags that follow another one, unless it spells the start of the
first of them. -/
theorem value_ends (henv : env.WellRegistered) (hks : ∀ k ∈ ks, k ∈ registered env probeType)
    {v z : List Char} (hplain : ∀ k ∈ registered env probeType, ¬nextTag k <:+: v ++ z)
    (h : partsText (ks.map (plainPart tags)) = z ++ partsText (ks'.map (plainPart tags'))) :
    z = [] := by
  cases z with
  | nil => rfl
  | cons c z =>
    cases ks with
    | nil => cases h
    | cons k ks =>
      have hk := hks k List.mem_cons_self
      have hcut : nextTag k ++ ((tagValue tags k).toList ++ partsText (ks.map (plainPart tags))) =
          (c :: z) ++ partsText (ks'.map (plainPart tags')) := by
        rw [← h, partsText_cons]
        simp [nextTag]
      -- where the value ends: inside the next tag's start, or behind it
      rcases List.append_eq_append_iff.mp hcut with ⟨b, hz, -⟩ | ⟨a, hnext, hrest⟩
      · exact absurd ⟨v, b, by rw [hz, List.append_assoc]⟩ (hplain k hk)
      · cases a with
        | nil => exact absurd ⟨v, [], by rw [hnext]; simp⟩ (hplain k hk)
        | cons d a =>
          cases ks' with
          | nil => cases hrest
          | cons k₂ ks₂ =>
            rw [partsText_cons] at hrest
            obtain ⟨rfl, -⟩ := List.cons_eq_cons.mp hrest
            have hmem : ',' ∈ k.toList ++ ['='] := by
              rw [(List.cons_eq_cons.mp hnext).2]
              simp
            simp [henv.comma hk] at hmem

theorem same_of_plain (henv : env.WellRegistered) :
    ∀ {ks ks' : List String}, (∀ k ∈ ks, k ∈ registered env probeType) →
      (∀ k ∈ ks', k ∈ registered env probeType) →
      (∀ k ∈ ks, ∀ k' ∈ registered env probeType, ¬nextTag k' <:+: (tagValue tags k).toList) →
      (∀ k ∈ ks', ∀ k' ∈ registered env probeType, ¬nextTag k' <:+: (tagValue tags' k).toList) →
      partsText (ks.map (plainPart tags)) = partsText (ks'.map (plainPart tags')) →
      ks = ks' ∧ ∀ k ∈ ks, tagValue tags k = tagValue tags' k := by
  intro ks
  induction ks with
  | nil =>
    intro ks' _ _ _ _ h
    cases ks' with
    | nil => exact ⟨rfl, nofun⟩
    | cons k' ks' => cases h
  | cons k ks ih =>
    intro ks' hreg hreg' hspell hspell' h
    cases ks' with
    | nil => cases h
    | cons k' ks' =>
      obtain ⟨hk, hks⟩ := List.forall_mem_cons.mp hreg
      obtain ⟨hk', hks'⟩ := List.forall_mem_cons.mp hreg'
      obtain ⟨hv, hplain⟩ := List.forall_mem_cons.mp hspell
      obtain ⟨hv', hplain'⟩ := List.forall_mem_cons.mp hspell'
      obtain ⟨rfl, h⟩ := first_name (henv.equals hk) (henv.equals hk') h
      have hvalue : (tagValue tags k).toList = (tagValue tags' k).toList ∧
          partsText (ks.map (plainPart tags)) = partsText (ks'.map (plainPart tags')) := by
        rcases List.append_eq_append_iff.mp h with ⟨z, hz, hrest⟩ | ⟨z, hz, hrest⟩
        · rw [hz] at hv'
          have hnil := value_ends henv hks hv' hrest
          rw [hnil] at hz hrest
          exact ⟨by rw [hz, List.append_nil], hrest⟩
        · rw [hz] at hv
          have hnil := value_ends henv hks' hv hrest
          rw [hnil] at hz hrest
          exact ⟨by rw [hz, List.append_nil], hrest.symm⟩
      obtain ⟨rfl, hvalues⟩ := ih hks hks' hplain hplain' hvalue.2
      exact ⟨rfl, List.forall_mem_cons.mpr ⟨String.toList_injective hvalue.1, hvalues⟩⟩

/-! ## Unique keys -/

theorem key_of_same (hfull : fullTagKeyProbes probeType = false)
    (h : SameSeries env probeType tags tags') :
    partsText ((present env probeType tags).map (plainPart tags)) =
      partsText ((present env probeType tags').map (plainPart tags')) := by
  obtain ⟨hpresent, hvalues⟩ := (sameSeries_iff_plain hfull).mp h
  rw [← hpresent]
  refine congrArg partsText (List.map_congr_left fun k hk => ?_)
  rw [plainPart, hvalues k hk, plainPart]

/-- A point's key is the key of its own series alone exactly when its probe's labels are escaped,
or it carries at most one registered tag and that tag's value spells no later one. Any two points
whose values spell no registered tag are told apart. -/
theorem timeSeriesKey_unique_iff (henv : env.WellRegistered) (probeName probeType metricName : String)
    (tags : AssocMap String String) :
    ((∀ tags', generateTimeSeriesKey env probeName probeType metricName tags =
          generateTimeSeriesKey env probeName probeType metricName tags' ↔
        SameSeries env probeType tags tags') ↔
      (fullTagKeyProbes probeType = true ∨ Unshared env probeType tags)) ∧
    (Plain env probeType tags → ∀ tags', Plain env probeType tags' →
      (generateTimeSeriesKey env probeName probeType metricName tags =
          generateTimeSeriesKey env probeName probeType metricName tags' ↔
        SameSeries env probeType tags tags')) := by
  by_cases hfull : fullTagKeyProbes probeType = true
  · exact ⟨iff_of_true (fun _ => key_eq_iff_full hfull) (.inl hfull), fun _ _ _ => key_eq_iff_full hfull⟩
  · have hfull := Bool.eq_false_of_not_eq_true hfull
    simp only [key_eq_iff_plain hfull, hfull, Bool.false_eq_true, false_or]
    refine ⟨⟨fun h => ?_, fun h tags' => ⟨same_of_unshared henv hfull h, key_of_same hfull⟩⟩, ?_⟩
    · have hown : ∀ tags', partsText ((present env probeType tags).map (plainPart tags)) =
          partsText ((present env probeType tags').map (plainPart tags')) →
          present env probeType tags = present env probeType tags' := fun tags' heq =>
        ((sameSeries_iff_plain hfull).mp ((h tags').mp heq)).1
      match hp : present env probeType tags with
      | [] => exact .inl hp
      | [k] =>
        refine .inr ⟨k, hp, fun k' hk' hlt hin => ?_⟩
        obtain ⟨tags', heq, hne⟩ := shared_of_spelled henv hp hk' hlt hin
        exact hne (hown tags' heq)
      | k :: k' :: ks =>
        obtain ⟨tags', heq, hne⟩ := shared_of_two henv hp
        exact absurd (hown tags' heq) hne
    · intro hplain tags' hplain'
      refine ⟨fun heq => (sameSeries_iff_plain hfull).mpr ?_, key_of_same hfull⟩
      exact same_of_plain henv (fun k hk => (mem_present.mp hk).1) (fun k hk => (mem_present.mp hk).1)
        hplain hplain' heq

end Key

/-- Two registered tags, for every probe type. -/
def twoTags : Env := ⟨id, fun _ => some ["a", "b"], fun _ => none⟩

theorem twoTags_wellRegistered : twoTags.WellRegistered where
  nodup _ := show ["a", "b"].Nodup by decide
  comma {_ k} hk := by
    have : ∀ k ∈ ["a", "b"], ',' ∉ k.toList := by decide
    exact this k hk
  equals {_ k} hk := by
    have : ∀ k ∈ ["a", "b"], '=' ∉ k.toList := by decide
    exact this k hk

/-- A separator in the value of the last registered tag does no harm. -/
theorem timeSeriesKey_unique_last :
    generateTimeSeriesKey twoTags "p" "cpu" "m" (AList.insert "b" "1,a=2" ∅) ≠
      generateTimeSeriesKey twoTags "p" "cpu" "m" (AList.insert "a" "2" (AList.insert "b" "1" ∅)) := by
  have hlast : ∀ k ∈ ["a", "b"], ¬"b" < k := by decide
  have hpresent : present twoTags "cpu" (AList.insert "b" "1,a=2" ∅) = ["b"] := by decide +kernel
  intro heq
  have hsame := ((timeSeriesKey_unique_iff twoTags_wellRegistered "p" "cpu" "m" _).1.mpr
    (.inr (.inr ⟨"b", hpresent, fun k hk hlt => absurd hlt (hlast k hk)⟩)) _).mp heq
  have ha := hsame "a" (show "a" ∈ ["a", "b"] by decide)
  revert ha
  decide

/-- A value that spells the tag after it. -/
theorem timeSeriesKey_aliases :
    generateTimeSeriesKey twoTags "p" "cpu" "m" (AList.insert "a" "1,b=2" ∅) =
        generateTimeSeriesKey twoTags "p" "cpu" "m" (AList.insert "a" "1" (AList.insert "b" "2" ∅)) ∧
      ¬SameSeries twoTags "cpu" (AList.insert "a" "1,b=2" ∅)
        (AList.insert "a" "1" (AList.insert "b" "2" ∅)) := by
  refine ⟨by decide +kernel, fun h => ?_⟩
  have hb := h "b" (show "b" ∈ ["a", "b"] by decide)
  revert hb
  decide

end SenhubAgent.Http

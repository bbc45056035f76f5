import Mathlib.Data.List.Dedup
import SenhubAgent.Lib.Occurrence
import SenhubAgent.Otlp.MetricStore

/-!
# Unique channel names

PRTG keys a channel on its name, so `Disambiguate` makes the names of one result unique: a name that
occurs more than once is followed by the tags that differ among its series, and by a number where the tags
say nothing or say the same. Each name is treated by itself, so nothing keeps the text it makes of one
apart from the other names: `A`, `A` and `A (#1)` give `A (#1)` twice (`numbered_twice`).

`disambiguate_eq` gives the name of each series in terms of the input alone, and `names_distinct_iff` the
three ways in which two of them can be the same.

Mirroring notes:
- `tags[i]` belongs to `names[i]`.
- The groups are ranged over in no fixed order: `order` is one. The set of keys of a group is ranged over
  in no fixed order too, but what is kept of it is sorted.
-/

namespace SenhubAgent.Http

open SenhubAgent.Lib SenhubAgent.Otlp

abbrev Tags := AssocMap String String

section

variable (names : List String) (tags : List Tags)

def nameAt (i : Nat) : String := names.getD i ""

def tagsAt (i : Nat) : Tags := tags.getD i ∅

/-- `groups[name]` -/
def groupOf (name : String) : List Nat :=
  (List.range names.length).filter fun i => nameAt names i = name

/-- The keys whose values differ inside the group, sorted. -/
def differingKeys : List Tags → List String
  | [] => []
  | first :: rest =>
    (((first :: rest).flatMap AList.keys).dedup.filter fun k =>
      rest.any fun t => tagValue t k ≠ tagValue first k).insertionSort (· ≤ ·)

/-- The parts of a series, joined. -/
def renderTags (differing : List String) (t : Tags) : String :=
  ", ".intercalate (differing.filterMap fun k =>
    if tagValue t k = "" then none else some (k ++ "=" ++ tagValue t k))

/-- What stands before a number. -/
def front (suffix : String) : String := if suffix = "" then suffix else suffix ++ ", "

/-- The suffix of the `n`-th series that renders it. -/
def label (suffix : String) (n : Nat) : String :=
  if n > 1 ∨ suffix = "" then front suffix ++ "#" ++ toString n else suffix

/-- The loop over the series of one group. -/
def nameLoop (name : String) (render : Nat → String) :
    List Nat → AssocMap String Nat → List String → List String
  | [], _, out => out
  | i :: idx, seen, out =>
    let n := readCount seen (render i) + 1
    nameLoop name render idx (seen.insert (render i) n)
      (out.set i (name ++ " (" ++ label (render i) n ++ ")"))

def nameGroup (out : List String) (name : String) : List String :=
  let idx := groupOf names name
  if idx.length < 2 then out
  else
    let differing := differingKeys (idx.map (tagsAt tags))
    nameLoop name (fun i => renderTags differing (tagsAt tags i)) idx ∅ out

def disambiguate (order : List String) : List String := order.foldl (nameGroup names tags) names

/-! ## The name of a series -/

/-- What the tags say of series `i` beside the others of its name. -/
def rendered (i : Nat) : String :=
  renderTags (differingKeys ((groupOf names (nameAt names i)).map (tagsAt tags))) (tagsAt tags i)

/-- A name and what the tags say. -/
def seriesText (i : Nat) : String × String := (nameAt names i, rendered names tags i)

def channelName (i : Nat) : String :=
  if (groupOf names (nameAt names i)).length < 2 then nameAt names i
  else nameAt names i ++ " (" ++ label (rendered names tags i) (rank (seriesText names tags) i) ++ ")"

end

section

variable {names : List String} {tags : List Tags}

variable {i j n n' : Nat} {name r r' : String} {out order : List String}

theorem mem_groupOf : i ∈ groupOf names name ↔ i < names.length ∧ nameAt names i = name := by
  simp [groupOf]

theorem groupOf_nodup (name : String) : (groupOf names name).Nodup := List.nodup_range.filter _

/-- The series of a group before series `j`. -/
theorem groupOf_before (hj : j < names.length) :
    (groupOf names (nameAt names j)).takeWhile (· ≠ j)
      = (List.range j).filter fun i => nameAt names i = nameAt names j := by
  obtain ⟨m, hm⟩ : ∃ m, names.length = j + (m + 1) := ⟨names.length - j - 1, by omega⟩
  have hbefore : ∀ i ∈ (List.range j).filter fun i => nameAt names i = nameAt names j,
      decide (i ≠ j) = true := by
    intro i hi
    have hlt := List.mem_range.mp (List.mem_of_mem_filter hi)
    exact decide_eq_true (Nat.ne_of_lt hlt)
  unfold groupOf
  rw [hm, List.range_add, List.filter_append, List.range_succ_eq_map, List.map_cons, Nat.add_zero,
    List.filter_cons_of_pos (by simp), List.takeWhile_append_of_pos hbefore]
  simp

theorem nameLoop_get {render : Nat → String} {idx : List Nat} (hnodup : idx.Nodup)
    {seen : AssocMap String Nat} (hidx : ∀ i ∈ idx, i < out.length) (j : Nat) :
    (nameLoop name render idx seen out)[j]? =
      if j ∈ idx then
        some (name ++ " (" ++ label (render j) (readCount seen (render j) +
          (idx.takeWhile (· ≠ j)).countP (fun i => render i = render j) + 1) ++ ")")
      else out[j]? := by
  induction idx generalizing seen out with
  | nil => simp [nameLoop]
  | cons i idx ih =>
    obtain ⟨hfresh, hnodup⟩ := List.nodup_cons.mp hnodup
    have hrest : ∀ k ∈ idx,
        k < (out.set i (name ++ " (" ++ label (render i) (readCount seen (render i) + 1) ++ ")")).length := by
      intro k hk
      rw [List.length_set]
      exact hidx k (List.mem_cons_of_mem _ hk)
    rw [nameLoop, ih hnodup hrest]
    by_cases hij : i = j
    · subst hij
      have hi := hidx i List.mem_cons_self
      simp [hfresh, hi]
    · have htake : (i :: idx).takeWhile (· ≠ j) = i :: idx.takeWhile (· ≠ j) :=
        List.takeWhile_cons_of_pos (by simpa using hij)
      have hmem : j ∈ i :: idx ↔ j ∈ idx := List.mem_cons.trans (or_iff_right fun h => hij h.symm)
      rw [List.getElem?_set_ne hij, htake, List.countP_cons, readCount_insert]
      simp only [hmem, decide_eq_true_eq]
      by_cases hrender : render i = render j
      · simp only [hrender, if_true, Nat.add_assoc, Nat.add_comm 1]
      · simp only [if_neg hrender, if_neg (Ne.symm hrender), Nat.add_zero]

theorem nameLoop_length (name : String) (render : Nat → String) (idx : List Nat)
    (seen : AssocMap String Nat) (out : List String) :
    (nameLoop name render idx seen out).length = out.length := by
  induction idx generalizing seen out with
  | nil => rfl
  | cons i idx ih => rw [nameLoop, ih, List.length_set]

theorem nameGroup_length (out : List String) (name : String) :
    (nameGroup names tags out name).length = out.length := by
  unfold nameGroup
  dsimp only
  split
  next => rfl
  next => exact nameLoop_length ..

/-- How many series of its name before `j` render as it does. -/
theorem countP_before (tags : List Tags) (hj : j < names.length) :
    ((groupOf names (nameAt names j)).takeWhile (· ≠ j)).countP (fun i =>
        renderTags (differingKeys ((groupOf names (nameAt names j)).map (tagsAt tags))) (tagsAt tags i)
          = rendered names tags j)
      = occurrences (seriesText names tags) j (seriesText names tags j) := by
  rw [groupOf_before hj, List.countP_filter, occurrences]
  refine List.countP_congr fun i _ => ?_
  simp only [Bool.and_eq_true, decide_eq_true_eq, seriesText, Prod.mk.injEq]
  constructor
  · rintro ⟨hrender, hname⟩
    refine ⟨hname, ?_⟩
    rw [← hrender, rendered, hname]
  · rintro ⟨hname, hrender⟩
    refine ⟨?_, hname⟩
    rw [← hrender, rendered, hname]

/-- A group leaves the other series alone. -/
theorem nameGroup_other (tags : List Tags) (hout : out.length = names.length)
    (hname : nameAt names j ≠ name) : (nameGroup names tags out name)[j]? = out[j]? := by
  unfold nameGroup
  dsimp only
  split
  next => rfl
  next =>
    rw [nameLoop_get (groupOf_nodup name) (fun i hi => hout ▸ (mem_groupOf.mp hi).1), if_neg]
    exact fun hmem => hname (mem_groupOf.mp hmem).2

/-- It names its own. -/
theorem nameGroup_own (hout : out.length = names.length) (hj : j < names.length)
    (hstart : out[j]? = some (nameAt names j)) :
    (nameGroup names tags out (nameAt names j))[j]? = some (channelName names tags j) := by
  unfold nameGroup channelName
  dsimp only
  split
  next => exact hstart
  next =>
    rw [nameLoop_get (groupOf_nodup _) (fun i hi => hout ▸ (mem_groupOf.mp hi).1),
      if_pos (mem_groupOf.mpr ⟨hj, rfl⟩)]
    have hcount := countP_before tags hj
    unfold rendered at hcount ⊢
    have hseen : ∀ r : String, readCount (∅ : AssocMap String Nat) r = 0 := fun _ => rfl
    rw [hcount, hseen, Nat.zero_add]
    rfl

/-- The groups in any order: each name once, so each series is named once. -/
theorem foldl_nameGroup (hnodup : order.Nodup) (hout : out.length = names.length)
    (hj : j < names.length) (hstart : nameAt names j ∈ order → out[j]? = some (nameAt names j)) :
    (order.foldl (nameGroup names tags) out)[j]? =
      if nameAt names j ∈ order then some (channelName names tags j) else out[j]? := by
  induction order generalizing out with
  | nil => simp
  | cons name order ih =>
    obtain ⟨hfresh, hnodup⟩ := List.nodup_cons.mp hnodup
    have hlength : (nameGroup names tags out name).length = names.length := by
      rw [nameGroup_length, hout]
    rw [List.foldl_cons]
    by_cases hname : nameAt names j = name
    · rw [← hname] at hfresh hlength ⊢
      rw [ih hnodup hlength (fun h => absurd h hfresh), if_neg hfresh, if_pos List.mem_cons_self]
      exact nameGroup_own hout hj (hstart (hname ▸ List.mem_cons_self))
    · have hother := nameGroup_other tags hout hname
      have hmem : nameAt names j ∈ name :: order ↔ nameAt names j ∈ order :=
        List.mem_cons.trans (or_iff_right hname)
      rw [ih hnodup hlength (fun h => hother.trans (hstart (hmem.mpr h))), hother]
      simp only [hmem]

theorem foldl_nameGroup_length (order : List String) (out : List String) :
    (order.foldl (nameGroup names tags) out).length = out.length := by
  induction order generalizing out with
  | nil => rfl
  | cons name order ih => rw [List.foldl_cons, ih, nameGroup_length]

theorem getElem?_nameAt (hj : j < names.length) : names[j]? = some (nameAt names j) := by
  simp [nameAt, hj]

/-- **Every series gets its `channelName`**, whatever order the groups are taken in. -/
theorem disambiguate_eq (horder : order.Perm names.dedup) :
    disambiguate names tags order = (List.range names.length).map (channelName names tags) := by
  have hnodup : order.Nodup := horder.nodup_iff.mpr (List.nodup_dedup names)
  refine List.ext_getElem? fun j => ?_
  by_cases hj : j < names.length
  · have hname := getElem?_nameAt hj
    have hmem : nameAt names j ∈ order :=
      horder.mem_iff.mpr (List.mem_dedup.mpr (List.mem_of_getElem? hname))
    unfold disambiguate
    rw [foldl_nameGroup hnodup rfl hj (fun _ => hname), if_pos hmem]
    simp [hj]
  · have hlength : (disambiguate names tags order).length = names.length := foldl_nameGroup_length order names
    rw [List.getElem?_eq_none (by omega), List.getElem?_eq_none (by simpa using hj)]

/-! ## Suffixes -/

theorem equals_mem_renderTags {differing : List String} {t : Tags} (h : renderTags differing t ≠ "") :
    '=' ∈ (renderTags differing t).toList := by
  unfold renderTags at h ⊢
  generalize hparts : differing.filterMap (fun k =>
    if tagValue t k = "" then none else some (k ++ "=" ++ tagValue t k)) = parts at h ⊢
  cases parts with
  | nil => exact absurd rfl h
  | cons part parts =>
    have hpart : part ∈ part :: parts := List.mem_cons_self
    rw [← hparts, List.mem_filterMap] at hpart
    obtain ⟨k, _, hk⟩ := hpart
    obtain ⟨_, hk⟩ := Option.ite_none_left_eq_some.mp hk
    have hequals : '=' ∈ part.toList := by
      rw [← Option.some.inj hk]
      simp
    cases parts with
    | nil => simpa using hequals
    | cons next parts =>
      rw [String.intercalate_cons_cons]
      simp [hequals]

theorem not_mem_toString {c : Char} (hc : c.isDigit = false) (n : Nat) : c ∉ (toString n).toList := by
  intro hmem
  have hdigit : c.isDigit = true := by
    rw [Nat.toString_eq_repr, Nat.toList_repr] at hmem
    exact Nat.isDigit_of_mem_toDigits (by decide) (by decide) hmem
  rw [hc] at hdigit
  cases hdigit

/-- A text that ends in a number, read from its end. -/
theorem numbered_inj {front front' : String}
    (h : front ++ "#" ++ toString n = front' ++ "#" ++ toString n') : front = front' ∧ n = n' := by
  have hchars := congrArg String.toList h
  simp only [String.toList_append, List.append_assoc] at hchars
  obtain ⟨hfront, hdigits⟩ := last_field_inj (not_mem_toString (by decide) n)
    (not_mem_toString (by decide) n') hchars
  refine ⟨String.toList_inj.mp hfront, ?_⟩
  rw [Nat.toString_eq_repr, Nat.toString_eq_repr, Nat.toList_repr, Nat.toList_repr] at hdigits
  have hread : Nat.ofDigitChars 10 (Nat.toDigits 10 n) 0 = n := Nat.ofDigitChars_ten_toDigits
  rw [← hread, hdigits, Nat.ofDigitChars_ten_toDigits]

theorem front_inj (h : front r = front r') : r = r' := by
  have hne : ∀ text : String, "" ≠ text ++ ", " := by
    intro text hempty
    have hchars := congrArg String.toList hempty
    simp at hchars
  unfold front at h
  split at h <;> split at h
  next hr hr' => exact h
  next hr hr' => exact absurd (hr ▸ h) (hne r')
  next hr hr' => exact absurd (hr' ▸ h).symm (hne r)
  next => exact (String.append_left_inj _).mp h

/-- `r` reads as the `n`-th series that renders `r'`. -/
def ReadsAs (r r' : String) (n : Nat) : Prop := 2 ≤ n ∧ r' ≠ "" ∧ r = r' ++ ", " ++ "#" ++ toString n

theorem ReadsAs.label_eq (h : ReadsAs r r' n) : label r 1 = label r' n := by
  obtain ⟨hn, hr', rfl⟩ := h
  have hr : r' ++ ", " ++ "#" ++ toString n ≠ "" := by simp
  have hone : ¬(1 > 1 ∨ r' ++ ", " ++ "#" ++ toString n = "") := not_or.mpr ⟨Nat.lt_irrefl 1, hr⟩
  have hmany : n > 1 ∨ r' = "" := Or.inl hn
  rw [label, label, if_neg hone, if_pos hmany, front, if_neg hr']

/-- A number is told from a text of tags, which has an equals sign. -/
theorem plain_ne_numbered (hr : '=' ∈ r.toList) (hn' : n' > 1 ∨ r' = "")
    (h : r = front r' ++ "#" ++ toString n') : ReadsAs r r' n' := by
  unfold front at h
  split at h
  next hempty =>
    rw [h, hempty] at hr
    simp only [String.toList_append, List.mem_append] at hr
    rcases hr with (hr | hr) | hr
    · simp at hr
    · simp at hr
    · exact absurd hr (not_mem_toString (by decide) n')
  next hempty => exact ⟨hn'.resolve_right hempty, hempty, h⟩

theorem label_inj (hr : r ≠ "" → '=' ∈ r.toList) (hr' : r' ≠ "" → '=' ∈ r'.toList) (hn : 1 ≤ n)
    (hn' : 1 ≤ n') (h : label r n = label r' n') :
    (r = r' ∧ n = n') ∨ ReadsAs r r' n' ∨ ReadsAs r' r n := by
  unfold label at h
  split at h <;> split at h
  next hnum hnum' =>
    obtain ⟨hfront, hn⟩ := numbered_inj h
    exact Or.inl ⟨front_inj hfront, hn⟩
  next hnum hplain' =>
    rw [not_or] at hplain'
    exact Or.inr (Or.inr (plain_ne_numbered (hr' hplain'.2) hnum h.symm))
  next hplain hnum' =>
    rw [not_or] at hplain
    exact Or.inr (Or.inl (plain_ne_numbered (hr hplain.2) hnum' h))
  next hplain hplain' => exact Or.inl ⟨h, by omega⟩

/-! ## Names that are the same -/

/-- `name` is the name of several series. -/
def Repeated (names : List String) (name : String) : Prop := 2 ≤ (groupOf names name).length

/-- Some series of this name is the `n`-th whose tags say `r`. -/
def HasSuffix (names : List String) (tags : List Tags) (name r : String) (n : Nat) : Prop :=
  1 ≤ n ∧ n ≤ occurrences (seriesText names tags) names.length (name, r)

/-- No two series can be taken for one another. -/
structure Unambiguous (names : List String) (tags : List Tags) : Prop where
  /-- No tags read like other tags of that name with a number. -/
  tags_plain : ∀ name r r' n, Repeated names name → HasSuffix names tags name r 1 →
    HasSuffix names tags name r' n → ¬ReadsAs r r' n
  /-- No name of one series reads like a name of several with its suffix. -/
  single_plain : ∀ name ∈ names, ∀ name' r n, ¬Repeated names name → Repeated names name' →
    HasSuffix names tags name' r n → name ≠ name' ++ " (" ++ label r n ++ ")"
  /-- Nor do two names of several. -/
  repeated_plain : ∀ name name' r r' n n', name ≠ name' → Repeated names name → Repeated names name' →
    HasSuffix names tags name r n → HasSuffix names tags name' r' n' →
    name ++ " (" ++ label r n ++ ")" ≠ name' ++ " (" ++ label r' n' ++ ")"

theorem channelName_single (h : ¬Repeated names (nameAt names i)) :
    channelName names tags i = nameAt names i := if_pos (Nat.lt_of_not_le h)

theorem channelName_repeated (h : Repeated names (nameAt names i)) :
    channelName names tags i = nameAt names i ++ " (" ++
      label (rendered names tags i) (rank (seriesText names tags) i) ++ ")" := if_neg (Nat.not_lt_of_le h)

theorem hasSuffix_rank (tags : List Tags) (hi : i < names.length) :
    HasSuffix names tags (nameAt names i) (rendered names tags i) (rank (seriesText names tags) i) :=
  ⟨Nat.le_add_left 1 _, rank_le hi⟩

/-- Every suffix of a repeated name is in the name of a series. -/
theorem HasSuffix.channel (h : HasSuffix names tags name r n) (hname : Repeated names name) :
    ∃ i < names.length, nameAt names i = name ∧ rank (seriesText names tags) i = n ∧
      channelName names tags i = name ++ " (" ++ label r n ++ ")" := by
  obtain ⟨i, hi, hkey, hrank⟩ := exists_rank h.1 h.2
  obtain ⟨hat, hrendered⟩ := Prod.mk.inj hkey
  refine ⟨i, hi, hat, hrank, ?_⟩
  rw [channelName_repeated (hat ▸ hname), hat, hrendered, hrank]

theorem HasSuffix.one (h : HasSuffix names tags name r n) :
    HasSuffix names tags name r 1 := ⟨Nat.le_refl 1, Nat.le_trans h.1 h.2⟩

theorem two_le_length {α : Type} {l : List α} {a b : α} (ha : a ∈ l) (hb : b ∈ l) (hne : a ≠ b) :
    2 ≤ l.length := by
  match l with
  | [x] => exact absurd ((List.mem_singleton.mp ha).trans (List.mem_singleton.mp hb).symm) hne
  | _ :: _ :: _ => exact Nat.le_add_left 2 _

theorem single_inj (hi : i < names.length) (hj : j < names.length)
    (hname : nameAt names i = nameAt names j) (hsingle : ¬Repeated names (nameAt names i)) :
    i = j := by
  by_contra hne
  exact hsingle (two_le_length (mem_groupOf.mpr ⟨hi, rfl⟩) (mem_groupOf.mpr ⟨hj, hname.symm⟩) hne)

theorem Unambiguous.channelName_inj (h : Unambiguous names tags) (hi : i < names.length)
    (hj : j < names.length) (heq : channelName names tags i = channelName names tags j) :
    i = j := by
  have hmem : ∀ {k : Nat}, k < names.length → nameAt names k ∈ names :=
    fun hk => List.mem_of_getElem? (getElem?_nameAt hk)
  have hsi := hasSuffix_rank tags hi
  have hsj := hasSuffix_rank tags hj
  by_cases hri : Repeated names (nameAt names i) <;> by_cases hrj : Repeated names (nameAt names j)
  · rw [channelName_repeated hri, channelName_repeated hrj] at heq
    by_cases hname : nameAt names i = nameAt names j
    · rw [hname] at heq hri hsi
      rw [String.append_left_inj, String.append_right_inj] at heq
      rcases label_inj equals_mem_renderTags equals_mem_renderTags hsi.1 hsj.1 heq
        with ⟨hrendered, hrank⟩ | hreads | hreads
      · exact rank_inj (Prod.ext hname hrendered) hrank
      · exact absurd hreads (h.tags_plain _ _ _ _ hrj hsi.one hsj)
      · exact absurd hreads (h.tags_plain _ _ _ _ hrj hsj.one hsi)
    · exact absurd heq (h.repeated_plain _ _ _ _ _ _ hname hri hrj hsi hsj)
  · rw [channelName_repeated hri, channelName_single hrj] at heq
    exact absurd heq.symm (h.single_plain _ (hmem hj) _ _ _ hrj hri hsi)
  · rw [channelName_single hri, channelName_repeated hrj] at heq
    exact absurd heq (h.single_plain _ (hmem hi) _ _ _ hri hrj hsj)
  · rw [channelName_single hri, channelName_single hrj] at heq
    exact single_inj hi hj heq hri

theorem unambiguous_of_inj
    (hinj : ∀ i < names.length, ∀ j < names.length, channelName names tags i = channelName names tags j → i = j) :
    Unambiguous names tags := by
  refine ⟨?_, ?_, ?_⟩
  · intro name r r' n hname hr hr' hreads
    obtain ⟨i, hi, _, hrank, hchannel⟩ := hr.channel hname
    obtain ⟨j, hj, _, hrank', hchannel'⟩ := hr'.channel hname
    have hsame : label r 1 = label r' n := hreads.label_eq
    have hij := hinj i hi j hj (by rw [hchannel, hchannel', hsame])
    rw [← hij, hrank] at hrank'
    exact absurd hrank' (Nat.ne_of_lt hreads.1)
  · intro name hmem name' r n hsingle hname' hr heq
    obtain ⟨i, hi, hat⟩ := List.getElem_of_mem hmem
    have hati : nameAt names i = name := by simp [nameAt, hi, hat]
    obtain ⟨j, hj, hatj, _, hchannel⟩ := hr.channel hname'
    have hij := hinj i hi j hj (by rw [channelName_single (hati ▸ hsingle), hati, hchannel, heq])
    rw [hij, hatj] at hati
    exact hsingle (hati ▸ hname')
  · intro name name' r r' n n' hne hname hname' hr hr' heq
    obtain ⟨i, hi, hat, _, hchannel⟩ := hr.channel hname
    obtain ⟨j, hj, hat', _, hchannel'⟩ := hr'.channel hname'
    have hij := hinj i hi j hj (by rw [hchannel, hchannel', heq])
    exact hne (by rw [← hat, hij, hat'])

/-- **The names of a result are pairwise distinct exactly when no two series can be taken for one
another.** -/
theorem names_distinct_iff {order : List String} (horder : order.Perm names.dedup) :
    (disambiguate names tags order).Nodup ↔ Unambiguous names tags := by
  rw [disambiguate_eq horder, List.nodup_map_iff_inj_on List.nodup_range]
  simp only [List.mem_range]
  constructor
  · intro h
    exact unambiguous_of_inj fun i hi j hj => h i hi j hj
  · intro h i hi j hj
    exact h.channelName_inj hi hj

theorem names_distinct_two :
    ["A"].Perm (["A", "A"] : List String).dedup ∧ Unambiguous ["A", "A"] [∅, ∅] := by
  have horder : ["A"].Perm (["A", "A"] : List String).dedup := List.Perm.refl _
  have hnodup : (disambiguate ["A", "A"] [∅, ∅] ["A"]).Nodup := by decide +kernel
  exact ⟨horder, (names_distinct_iff horder).mp hnodup⟩

/-- A third series that is called what the first of two comes to be called. -/
theorem numbered_twice :
    disambiguate ["A", "A", "A (#1)"] [∅, ∅, ∅] ["A", "A (#1)"] = ["A (#1)", "A (#2)", "A (#1)"] := by
  decide +kernel

end

end SenhubAgent.Http

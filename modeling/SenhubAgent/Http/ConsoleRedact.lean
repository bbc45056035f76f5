import SenhubAgent.Config.KeptSecrets

/-!
# The console's view of a params tree

The console shows a params tree with its secrets replaced by `***`, and takes the
tree back from the form. A save goes through four separately written walks: hide
(`sanitizeForConsole`), drop the placeholders that came back (`dropRedactedValues`),
take the missing values from the file (`KeepStoredValues`) and drop the nulls
(`DropNilValues`). An unchanged form is saved unchanged when the walks agree on every
leaf.

They act on each key of a mapping on its own, so the round trip of a mapping is the
round trip of its values, key by key (`resubmitEntries_eq_iff`). `resubmit_restores_iff`
then says for which trees the walks do agree: they do on every leaf of a mapping the
console hides and on every other leaf that is not itself a placeholder, and they do
not on the text items of a hidden list, which are replaced and never taken back.
-/

namespace SenhubAgent.Http

open Config
open Lib.SortedMap (Keyed get? insert assign filterEntries)

def redactedForConsole : String := "***"

/-- `strings.HasPrefix(val, "${")` -/
def startsReference (val : String) : Bool := ['$', '{'].isPrefixOf val.toList

mutual
/-- The value the console shows for the one at `path`, which it hides where `hide`. -/
def showValue (secretPaths : List String) (path : String) (hide : Bool) : Value → Value
  | .map val => .map (showEntries secretPaths (path ++ ".") hide val)
  | .anyMap val => .map (showAny secretPaths (path ++ ".") hide val)
  | .list val => .list (showItems secretPaths (path ++ ".") hide val)
  | .str val =>
    if hide && val != "" && !startsReference val then .str redactedForConsole else .str val
  | .null => .null
  | .scalar s => .scalar s

def showEntries (secretPaths : List String) (parent : String) (inSecret : Bool) : Entries → Entries
  | [] => []
  | (k, v) :: es =>
    (k, showValue secretPaths (parent ++ k) (hiddenAt secretPaths parent inSecret k) v) ::
      showEntries secretPaths parent inSecret es

/-- A `map[interface{}]interface{}` is shown as a string-keyed one; its other keys are
left out. -/
def showAny (secretPaths : List String) (parent : String) (inSecret : Bool) :
    List (AnyKey × Value) → Entries
  | [] => []
  | (.str k, v) :: es =>
    insert k (showValue secretPaths (parent ++ k) (hiddenAt secretPaths parent inSecret k) v)
      (showAny secretPaths parent inSecret es)
  | (.scalar _, _) :: es => showAny secretPaths parent inSecret es
  | (.null, _) :: es => showAny secretPaths parent inSecret es

def showItems (secretPaths : List String) (parent : String) (hide : Bool) : List Value → List Value
  | [] => []
  | .map im :: items =>
    .map (showEntries secretPaths parent hide im) :: showItems secretPaths parent hide items
  | .str s :: items =>
    (if hide && !startsReference s then .str redactedForConsole else .str s) ::
      showItems secretPaths parent hide items
  | item :: items => item :: showItems secretPaths parent hide items
end

def sanitizeForConsole (params : Entries) (secretPaths : List String) : Entries :=
  showEntries secretPaths "" false params

def isPlaceholder (val : String) : Bool := val == redactedForConsole || val == "[REDACTED]"

mutual
def dropRedacted : Value → Option Value
  | .map val => nonEmpty (dropRedactedValues val)
  | .list val => some (.list (dropRedactedItems val))
  | .str val => if isPlaceholder val then none else some (.str val)
  | .null => some .null
  | .scalar s => some (.scalar s)
  | .anyMap es => some (.anyMap es)

/-- Removes every text leaf that is a placeholder and every mapping left empty. -/
def dropRedactedValues : Entries → Entries
  | [] => []
  | (k, v) :: es =>
    match dropRedacted v with
    | none => dropRedactedValues es
    | some w => (k, w) :: dropRedactedValues es

/-- Of a list only the rows that are mappings are looked into. -/
def dropRedactedItems : List Value → List Value
  | [] => []
  | .map im :: items => .map (dropRedactedValues im) :: dropRedactedItems items
  | item :: items => item :: dropRedactedItems items
end

/-- What a save writes when the form sends the console's view back untouched. -/
def resubmit (secretPaths : List String) (stored : Entries) : Entries :=
  dropNilValues (keepStoredValues stored
    (dropRedactedValues (sanitizeForConsole stored secretPaths)) secretPaths)

/-! ## When the walks agree -/

mutual
/-- The value at `path` comes back from the console as it was stored. -/
def restores (secretPaths : List String) (path : String) (hide : Bool) : Value → Bool
  | .str s => hide || !isPlaceholder s
  | .map es => restoresEntries secretPaths (path ++ ".") hide es
  | .list items => restoresItems secretPaths (path ++ ".") hide items
  | .anyMap _ => false
  | .null => true
  | .scalar _ => true

def restoresEntries (secretPaths : List String) (parent : String) (inSecret : Bool) : Entries → Bool
  | [] => true
  | (k, v) :: es =>
    restores secretPaths (parent ++ k) (hiddenAt secretPaths parent inSecret k) v &&
      restoresEntries secretPaths parent inSecret es

/-- A text item of a list is replaced in the view and never taken back. -/
def restoresItems (secretPaths : List String) (parent : String) (hide : Bool) : List Value → Bool
  | [] => true
  | .map es :: items =>
    restoresEntries secretPaths parent hide es && restoresItems secretPaths parent hide items
  | .str s :: items =>
    (!hide || startsReference s || s == redactedForConsole) &&
      restoresItems secretPaths parent hide items
  | _ :: items => restoresItems secretPaths parent hide items
end

/-! ## A save, key by key -/

theorem dropRedactedValues_eq (es : Entries) :
    dropRedactedValues es = filterEntries (fun _ v => dropRedacted v) es := by
  induction es with
  | nil => rfl
  | cons e es ih =>
    obtain ⟨k, v⟩ := e
    rw [dropRedactedValues, filterEntries, ih]
    cases dropRedacted v <;> rfl

theorem showEntries_eq (secretPaths : List String) (parent : String) (inSecret : Bool)
    (es : Entries) :
    showEntries secretPaths parent inSecret es =
      filterEntries (fun k v => some (showValue secretPaths (parent ++ k)
        (hiddenAt secretPaths parent inSecret k) v)) es := by
  induction es with
  | nil => rfl
  | cons e es ih =>
    rw [showEntries, filterEntries, ih]

/-- What the form sends back of a value: its view, unless that is a placeholder. -/
def formValue (secretPaths : List String) (path : String) (hide : Bool) (v : Value) : Option Value :=
  dropRedacted (showValue secretPaths path hide v)

/-- What the form holds of a mapping: its view, with the hidden values left out. -/
def formView (secretPaths : List String) (parent : String) (inSecret : Bool) (es : Entries) :
    Entries :=
  dropRedactedValues (showEntries secretPaths parent inSecret es)

/-- `paramsAsWritten`, of the mapping at `parent`. -/
def writtenAt (secretPaths : List String) (parent : String) (inSecret : Bool)
    (stored incoming : Entries) : Entries :=
  dropNilValues (keepStored secretPaths parent inSecret stored incoming)

def paramsAsWritten (stored incoming : Entries) (secretPaths : List String) : Entries :=
  writtenAt secretPaths "" false stored incoming

/-- What a save leaves at a key where `a` is stored and the form sends `o`. -/
def saved (secretPaths : List String) (path : String) (hide : Bool) (a o : Option Value) :
    Option Value :=
  (match a with
    | none => o
    | some v => keepValue secretPaths path hide v o).bind Value.dropNil

variable {secretPaths : List String} {parent : String} {inSecret : Bool} {es fs sent : Entries}
  {v : Option Value} {o : Value}

theorem keyed_formView (h : Keyed es) : Keyed (formView secretPaths parent inSecret es) := by
  rw [formView, dropRedactedValues_eq, showEntries_eq]
  exact (h.filterEntries _).filterEntries _

theorem get?_formView (h : Keyed es) (k : String) :
    get? k (formView secretPaths parent inSecret es) =
      (get? k es).bind (formValue secretPaths (parent ++ k) (hiddenAt secretPaths parent inSecret k)) := by
  rw [formView, dropRedactedValues_eq, showEntries_eq, (h.filterEntries _).get?_filterEntries,
    h.get?_filterEntries]
  cases get? k es <;> rfl

theorem get?_writtenAt {stored : Entries} (hstored : Keyed stored) (hsent : Keyed sent)
    (k : String) :
    get? k (writtenAt secretPaths parent inSecret stored sent) =
      saved secretPaths (parent ++ k) (hiddenAt secretPaths parent inSecret k) (get? k stored)
        (get? k sent) := by
  unfold writtenAt saved
  rw [dropNilValues_eq, (keyed_keepStored _ _ _ _ hsent).get?_filterEntries]
  cases hk : get? k stored with
  | some v => rw [get?_keepStored _ _ _ hstored (Lib.SortedMap.get?_mem hk)]
  | none =>
    rw [get?_keepStored_absent]
    intro e he hek
    rw [← hek, hstored.get? he] at hk
    cases hk

theorem keyed_writtenAt (parent : String) (inSecret : Bool) (stored : Entries) (h : Keyed sent) :
    Keyed (writtenAt secretPaths parent inSecret stored sent) := by
  unfold writtenAt
  rw [dropNilValues_eq]
  exact (keyed_keepStored _ _ _ _ h).filterEntries _

/-- The view of `es` saved over `fs` gives `es`, less its nulls, when it does at every key. -/
theorem writtenAt_formView_iff (hes : Keyed es) (hfs : Keyed fs) :
    writtenAt secretPaths parent inSecret fs (formView secretPaths parent inSecret es) =
        dropNilValues es ↔
      ∀ k, saved secretPaths (parent ++ k) (hiddenAt secretPaths parent inSecret k) (get? k fs)
          ((get? k es).bind (formValue secretPaths (parent ++ k)
            (hiddenAt secretPaths parent inSecret k))) =
        (get? k es).bind Value.dropNil := by
  have hform : Keyed (formView secretPaths parent inSecret es) := keyed_formView hes
  constructor
  · intro heq k
    have hk := congrArg (get? k) heq
    rwa [get?_writtenAt hfs hform, get?_formView hes, dropNilValues_eq, hes.get?_filterEntries] at hk
  · intro h
    rw [dropNilValues_eq]
    refine (keyed_writtenAt _ _ _ hform).ext (hes.filterEntries _) fun k => ?_
    rw [get?_writtenAt hfs hform, get?_formView hes, hes.get?_filterEntries]
    exact h k

/-! ## A save of one value -/

theorem wellKeyed_blockOf (h : ∀ w ∈ v, w.wellKeyed = true) :
    (Value.map (blockOf v)).wellKeyed = true := by
  cases v with
  | none => rfl
  | some v =>
    cases v with
    | map es => exact h _ rfl
    | _ => rfl

theorem wellKeyed_get? (h : ∀ e ∈ es, e.2.wellKeyed = true) (k : String) :
    ∀ v ∈ get? k es, v.wellKeyed = true :=
  fun _ hv => h _ (Lib.SortedMap.get?_mem hv)

theorem wellKeyed_itemsOf (h : ∀ w ∈ v, w.wellKeyed = true) :
    wellKeyedItems (itemsOf v) = true := by
  cases v with
  | none => rfl
  | some v =>
    cases v with
    | list items => exact h _ rfl
    | _ => rfl

theorem wellKeyed_head {xs : List Value} (h : wellKeyedItems xs = true) :
    (∀ v ∈ xs.head?, v.wellKeyed = true) ∧ wellKeyedItems xs.tail = true := by
  cases xs with
  | nil => exact ⟨nofun, rfl⟩
  | cons x xs =>
    obtain ⟨hx, hxs⟩ := Bool.and_eq_true_iff.mp h
    exact ⟨fun v hv => Option.some.inj hv ▸ hx, hxs⟩

variable (path : String) (hide : Bool) (a : Option Value)

theorem saved_map (sent : Entries) :
    saved secretPaths path hide a (some (.map sent)) =
      nonEmpty (writtenAt secretPaths (path ++ ".") hide (blockOf a) sent) := by
  cases a with
  | none => rfl
  | some v => cases v <;> rfl

theorem keepItems_nil (parent : String) (hide : Bool) (sent : List Value) :
    keepItems secretPaths parent hide [] sent = sent := by
  cases sent <;> rfl

theorem saved_list (sent : List Value) :
    saved secretPaths path hide a (some (.list sent)) =
      some (.list (dropNilItems (keepItems secretPaths (path ++ ".") hide (itemsOf a) sent))) := by
  have hother : some (Value.list (dropNilItems sent)) =
      some (.list (dropNilItems (keepItems secretPaths (path ++ ".") hide [] sent))) := by
    rw [keepItems_nil]
  cases a with
  | none => exact hother
  | some v => cases v <;> first | rfl | exact hother

/-- Over anything else that the form sends nothing is merged. -/
theorem saved_leaf (hmap : ∀ es, o ≠ .map es)
    (hlist : ∀ items, o ≠ .list items) : saved secretPaths path hide a (some o) = o.dropNil := by
  cases a with
  | none => rfl
  | some v =>
    cases o with
    | map es => exact absurd rfl (hmap es)
    | list items => exact absurd rfl (hlist items)
    | _ => cases v <;> rfl

/-- The stored row at a position is merged into the block sent at it. -/
theorem savedItems_block (parent : String) (hide : Bool) (xs : List Value) (o : Entries)
    (sent : List Value) :
    dropNilItems (keepItems secretPaths parent hide xs (.map o :: sent)) =
      .map (writtenAt secretPaths parent hide (blockOf xs.head?) o) ::
        dropNilItems (keepItems secretPaths parent hide xs.tail sent) := by
  cases xs with
  | nil =>
    rw [List.tail_nil, keepItems_nil, keepItems_nil]
    rfl
  | cons x xs => cases x <;> rfl

theorem savedItems_leaf (parent : String) (hide : Bool) (xs : List Value) (hmap : ∀ es, o ≠ .map es)
    (sent : List Value) :
    dropNilItems (keepItems secretPaths parent hide xs (o :: sent)) =
      o :: dropNilItems (keepItems secretPaths parent hide xs.tail sent) := by
  cases o with
  | map es => exact absurd rfl (hmap es)
  | _ =>
    cases xs with
    | nil =>
      rw [List.tail_nil, keepItems_nil, keepItems_nil]
      rfl
    | cons x xs => cases x <;> rfl

theorem nonEmpty_inj : nonEmpty es = nonEmpty fs ↔ es = fs := by
  cases es <;> cases fs <;> simp


theorem nonEmpty_bind_dropNil (es : Entries) :
    (nonEmpty es).bind Value.dropNil = nonEmpty (dropNilValues es) := by
  cases es <;> rfl

/-- A mapping is merged with a stored one also where nothing of it is sent. -/
theorem saved_block (es sent : Entries) :
    saved secretPaths path hide (some (.map es)) (nonEmpty sent) =
      nonEmpty (writtenAt secretPaths (path ++ ".") hide es sent) := by
  cases sent with
  | nil => exact nonEmpty_bind_dropNil _
  | cons e sent => rfl

/-- Where nothing is sent, a stored mapping is merged into an empty one and a text is kept if it
is hidden or a reference. -/
theorem saved_none :
    saved secretPaths path hide a none =
        nonEmpty (writtenAt secretPaths (path ++ ".") hide (blockOf a) []) ∨
      ∃ t, (hasReference t || hide && t != "") = true ∧
        saved secretPaths path hide a none = some (.str t) := by
  cases a with
  | none => exact .inl rfl
  | some v =>
    cases v with
    | map es => exact .inl (saved_block path hide es [])
    | str t =>
      by_cases hkept : (hasReference t || hide && t != "") = true
      · refine .inr ⟨t, hkept, ?_⟩
        rw [saved, keepValue, if_pos hkept]
        rfl
      · refine .inl ?_
        rw [saved, keepValue, if_neg hkept]
        rfl
    | _ => exact .inl rfl

/-- Where a mapping comes out, the stored value was merged into it as a mapping. -/
theorem writtenAt_of_saved {path : String} {hide : Bool} {a : Option Value}
    (h : saved secretPaths path hide a (nonEmpty sent) = nonEmpty fs) :
    writtenAt secretPaths (path ++ ".") hide (blockOf a) sent = fs := by
  cases sent with
  | cons e sent => exact nonEmpty_inj.mp ((saved_map path hide a _).symm.trans h)
  | nil =>
    rcases saved_none path hide a with hmap | ⟨t, -, htext⟩
    · exact nonEmpty_inj.mp (hmap.symm.trans h)
    · rw [nonEmpty_nil, htext] at h
      cases fs <;> cases h

theorem isPlaceholder_cases {s : String} (h : isPlaceholder s = true) :
    s = "***" ∨ s = "[REDACTED]" := by
  rcases Bool.or_eq_true_iff.mp h with h | h
  · exact .inl (eq_of_beq h)
  · exact .inr (eq_of_beq h)

/-! ## The tree -/

/-- The value comes out of a save as it is stored, less its nulls, where the walks agree on it,
and whatever it is merged with only there. -/
def WalksAgree (secretPaths : List String) (v : Value) : Prop :=
  ∀ path hide,
    (restores secretPaths path hide v = true →
      saved secretPaths path hide (some v) (formValue secretPaths path hide v) = v.dropNil) ∧
    ∀ a, (∀ w ∈ a, w.wellKeyed = true) →
      saved secretPaths path hide a (formValue secretPaths path hide v) = v.dropNil →
        restores secretPaths path hide v = true

theorem restoresEntries_iff (parent : String) (inSecret : Bool) (es : Entries) :
    restoresEntries secretPaths parent inSecret es = true ↔ ∀ e ∈ es,
      restores secretPaths (parent ++ e.1) (hiddenAt secretPaths parent inSecret e.1) e.2 = true :=
  walk_iff rfl fun _ _ => rfl

theorem writtenAt_own (hkeyed : Keyed es) (h : ∀ e ∈ es, WalksAgree secretPaths e.2)
    (hrestores : restoresEntries secretPaths parent inSecret es = true) :
    writtenAt secretPaths parent inSecret es (formView secretPaths parent inSecret es) =
      dropNilValues es := by
  refine (writtenAt_formView_iff hkeyed hkeyed).mpr fun k => ?_
  cases hk : get? k es with
  | none => rfl
  | some v =>
    have hmem := Lib.SortedMap.get?_mem hk
    exact ((h (k, v) hmem _ _).1 ((restoresEntries_iff _ _ es).mp hrestores (k, v) hmem))

theorem restoresEntries_of_writtenAt (hkeyed : Keyed es) (hfs : (Value.map fs).wellKeyed = true)
    (h : ∀ e ∈ es, WalksAgree secretPaths e.2)
    (heq : writtenAt secretPaths parent inSecret fs (formView secretPaths parent inSecret es) =
      dropNilValues es) :
    restoresEntries secretPaths parent inSecret es = true := by
  obtain ⟨hkfs, hwfs⟩ := wellKeyed_map_iff.mp hfs
  refine (restoresEntries_iff _ _ es).mpr fun e he => (h e he _ _).2 _ (wellKeyed_get? hwfs e.1) ?_
  have hk := (writtenAt_formView_iff hkeyed hkfs).mp heq e.1
  rwa [hkeyed.get? he] at hk

/-- A row of a list is merged as the mapping at the list's own path. -/
theorem WalksAgree.row {path : String} {hide : Bool} (h : WalksAgree secretPaths (.map es)) :
    (restoresEntries secretPaths (path ++ ".") hide es = true →
      writtenAt secretPaths (path ++ ".") hide es (formView secretPaths (path ++ ".") hide es) =
        dropNilValues es) ∧
    ∀ fs, (Value.map fs).wellKeyed = true →
      writtenAt secretPaths (path ++ ".") hide fs (formView secretPaths (path ++ ".") hide es) =
        dropNilValues es → restoresEntries secretPaths (path ++ ".") hide es = true := by
  refine ⟨fun hrestores => writtenAt_of_saved ((h path hide).1 hrestores), fun fs hfs heq => ?_⟩
  refine (h path hide).2 (some (.map fs)) (fun w hw => Option.some.inj hw ▸ hfs) ?_
  exact (saved_block path hide fs _).trans (congrArg nonEmpty heq)

theorem keepItems_own {path : String} {hide : Bool} {items : List Value}
    (h : ∀ v ∈ items, WalksAgree secretPaths v)
    (hrestores : restoresItems secretPaths (path ++ ".") hide items = true) :
    dropNilItems (keepItems secretPaths (path ++ ".") hide items
      (dropRedactedItems (showItems secretPaths (path ++ ".") hide items))) = dropNilItems items := by
  induction items with
  | nil => rfl
  | cons v items ih =>
    obtain ⟨hv, hitems⟩ := List.forall_mem_cons.mp h
    cases v with
    | map es =>
      obtain ⟨hrow, hrest⟩ := Bool.and_eq_true_iff.mp hrestores
      exact congrArg₂ (fun row rest => Value.map row :: rest) (hv.row.1 hrow) (ih hitems hrest)
    | str s =>
      obtain ⟨htext, hrest⟩ := Bool.and_eq_true_iff.mp hrestores
      rw [showItems]
      split
      next hhidden =>
        -- a text the view replaces comes back only if it reads like the replacement
        have hs : s = redactedForConsole := by
          simp only [Bool.and_eq_true, Bool.not_eq_true'] at hhidden
          simpa [hhidden.1, hhidden.2] using htext
        rw [hs]
        exact congrArg (List.cons _) (ih hitems hrest)
      next => exact congrArg (List.cons _) (ih hitems hrest)
    | _ => exact congrArg (List.cons _) (ih hitems hrestores)

theorem restoresItems_of_keepItems {path : String} {hide : Bool} {items xs : List Value}
    (h : ∀ v ∈ items, WalksAgree secretPaths v) (hxs : wellKeyedItems xs = true)
    (heq : dropNilItems (keepItems secretPaths (path ++ ".") hide xs
      (dropRedactedItems (showItems secretPaths (path ++ ".") hide items))) = dropNilItems items) :
    restoresItems secretPaths (path ++ ".") hide items = true := by
  induction items generalizing xs with
  | nil => rfl
  | cons v items ih =>
    obtain ⟨hv, hitems⟩ := List.forall_mem_cons.mp h
    obtain ⟨hx, hxs'⟩ := wellKeyed_head hxs
    cases v with
    | map es =>
      rw [showItems, dropRedactedItems, savedItems_block, dropNilItems, List.cons_eq_cons,
        Value.map.injEq] at heq
      exact Bool.and_eq_true_iff.mpr
        ⟨hv.row.2 _ (wellKeyed_blockOf hx) heq.1, ih hitems hxs' heq.2⟩
    | str s =>
      rw [restoresItems, Bool.and_eq_true_iff]
      rw [showItems] at heq
      split at heq
      next hhidden =>
        rw [dropRedactedItems, savedItems_leaf, dropNilItems, List.cons_eq_cons] at heq
        · exact ⟨by simp [Value.str.inj heq.1.symm], ih hitems hxs' heq.2⟩
        all_goals simp
      next hshown =>
        rw [dropRedactedItems, savedItems_leaf, dropNilItems, List.cons_eq_cons] at heq
        · refine ⟨?_, ih hitems hxs' heq.2⟩
          cases hide <;> simp_all
        all_goals simp
    | _ =>
      rw [showItems, dropRedactedItems, savedItems_leaf, dropNilItems, List.cons_eq_cons] at heq
      · exact ih hitems hxs' heq.2
      all_goals simp

/-- A hidden text is shown as it is, or as a placeholder that is dropped again and
taken back from the file. -/
theorem saved_hidden (s : String) :
    saved secretPaths path true (some (.str s)) (formValue secretPaths path true (.str s)) =
      some (.str s) := by
  by_cases hs : s = ""
  · rw [hs]
    rfl
  · have hkeep : saved secretPaths path true (some (.str s)) none = some (.str s) := by
      simp [saved, keepValue, hs, Value.dropNil]
    rw [formValue, showValue]
    split
    next => exact hkeep
    next =>
      rw [dropRedacted]
      split
      next => exact hkeep
      next => rfl

/-- Nothing is kept that reads like a placeholder. -/
theorem saved_shown_ne {path s : String} {a : Option Value} (hs : isPlaceholder s = true) :
    saved secretPaths path false a (formValue secretPaths path false (.str s)) ≠ some (.str s) := by
  have hform : formValue secretPaths path false (.str s) = none := by
    rw [formValue, showValue, if_neg (by simp), dropRedacted, if_pos hs]
  rw [hform]
  rcases saved_none path false a with hmap | ⟨t, hkept, htext⟩
  · rw [hmap]
    cases writtenAt secretPaths (path ++ ".") false (blockOf a) [] <;> nofun
  · intro heq
    obtain rfl : t = s := Value.str.inj (Option.some.inj (htext.symm.trans heq))
    rcases isPlaceholder_cases hs with rfl | rfl <;> exact absurd hkept (by decide)

theorem walksAgree (v : Value) : v.wellKeyed = true → WalksAgree secretPaths v := by
  induction v using Value.ind with
  | null => exact fun _ path hide => ⟨fun _ => rfl, fun _ _ _ => rfl⟩
  | scalar s => exact fun _ path hide => ⟨fun _ => rfl, fun _ _ _ => rfl⟩
  | str s =>
    intro _ path hide
    rw [restores]
    cases hide with
    | true => exact ⟨fun _ => saved_hidden path s, fun _ _ _ => rfl⟩
    | false =>
      cases hs : isPlaceholder s with
      | true => exact ⟨nofun, fun a _ heq => absurd heq (saved_shown_ne hs)⟩
      | false =>
        refine ⟨fun _ => ?_, fun _ _ _ => rfl⟩
        rw [formValue, showValue, if_neg (by simp), dropRedacted, if_neg (by simp [hs])]
        rfl
  | anyMap es =>
    intro _ path hide
    refine ⟨nofun, fun a _ heq => absurd heq ?_⟩
    rw [formValue, showValue, dropRedacted]
    cases dropRedactedValues (showAny secretPaths (path ++ ".") hide es) with
    | cons e sent =>
      rw [nonEmpty_cons, saved_map]
      cases writtenAt secretPaths (path ++ ".") hide (blockOf a) (e :: sent) <;> nofun
    | nil =>
      rcases saved_none path hide a with hmap | ⟨t, -, htext⟩
      · rw [nonEmpty_nil, hmap]
        cases writtenAt secretPaths (path ++ ".") hide (blockOf a) [] <;> nofun
      · rw [nonEmpty_nil, htext]
        nofun
  | map es ih =>
    intro hwell path hide
    obtain ⟨hkeyed, hes⟩ := wellKeyed_map_iff.mp hwell
    have hagree (e : String × Value) (he : e ∈ es) : WalksAgree secretPaths e.2 := ih e he (hes e he)
    refine ⟨fun hrestores => ?_, fun a ha heq => ?_⟩
    · exact (saved_block path hide es _).trans
        (congrArg nonEmpty (writtenAt_own hkeyed hagree hrestores))
    · exact restoresEntries_of_writtenAt hkeyed (wellKeyed_blockOf ha) hagree
        (writtenAt_of_saved heq)
  | list items ih =>
    intro hwell path hide
    have hagree (v : Value) (hv : v ∈ items) : WalksAgree secretPaths v :=
      ih v hv (wellKeyedItems_iff.mp hwell v hv)
    refine ⟨fun hrestores => ?_, fun a ha heq => ?_⟩
    · exact congrArg (fun l => some (Value.list l)) (keepItems_own hagree hrestores)
    · rw [formValue, showValue, dropRedacted, saved_list] at heq
      exact restoresItems_of_keepItems hagree (wellKeyed_itemsOf ha)
        (Value.list.inj (Option.some.inj heq))

theorem dropNilValues_of_forall (h : ∀ e ∈ es, e.2.dropNil = some e.2) : dropNilValues es = es := by
  induction es with
  | nil => rfl
  | cons e es ih =>
    obtain ⟨he, hes⟩ := List.forall_mem_cons.mp h
    rw [dropNilValues, he, ih hes]

theorem dropNilItems_of_forall {items : List Value} (h : ∀ v ∈ items, v.dropNil = some v) :
    dropNilItems items = items := by
  induction items with
  | nil => rfl
  | cons v items ih =>
    obtain ⟨hv, hitems⟩ := List.forall_mem_cons.mp h
    cases v with
    | map es =>
      cases es with
      | nil => cases hv
      | cons e es => rw [dropNilItems, ih hitems, nonEmpty_inj.mp (show nonEmpty _ = nonEmpty (e :: es) from hv)]
    | _ => exact congrArg (List.cons _) (ih hitems)

theorem dropNil_full (v : Value) : v.full = true → v.dropNil = some v := by
  induction v using Value.ind with
  | null => nofun
  | str s | scalar s | anyMap es => exact fun _ => rfl
  | list items ih =>
    intro h
    rw [Value.dropNil, dropNilItems_of_forall fun v hv => ih v hv (fullItems_iff.mp h v hv)]
  | map es ih =>
    intro h
    obtain ⟨hne, hes⟩ := Bool.and_eq_true_iff.mp h
    rw [Value.dropNil, dropNilValues_of_forall fun e he => ih e he (fullEntries_iff.mp hes e he)]
    cases es with
    | nil => cases hne
    | cons e es => rfl

theorem dropNilValues_full (h : fullEntries es = true) : dropNilValues es = es :=
  dropNilValues_of_forall fun e he => dropNil_full e.2 (fullEntries_iff.mp h e he)

/-- Saving an unchanged form changes nothing exactly for the trees whose leaves the
walks agree on: no visible text leaf reads like a placeholder, no list the console
hides has a text item that is not a reference, and no mapping under a key has keys that
are not text. -/
theorem resubmit_restores_iff (secretPaths : List String) (stored : Params)
    (hfull : fullEntries stored.entries = true) :
    resubmit secretPaths stored.entries = stored.entries ↔
      restoresEntries secretPaths "" false stored.entries = true := by
  obtain ⟨hkeyed, hentries⟩ := wellKeyed_map_iff.mp stored.wellKeyed
  have hagree (e : String × Value) (he : e ∈ stored.entries) : WalksAgree secretPaths e.2 :=
    walksAgree e.2 (hentries e he)
  have hown : resubmit secretPaths stored.entries =
      writtenAt secretPaths "" false stored.entries (formView secretPaths "" false stored.entries) :=
    rfl
  rw [hown]
  constructor
  · intro heq
    exact restoresEntries_of_writtenAt hkeyed stored.wellKeyed hagree
      (heq.trans (dropNilValues_full hfull).symm)
  · intro hrestores
    exact (writtenAt_own hkeyed hagree hrestores).trans (dropNilValues_full hfull)

/-- An output with a hidden header, a list of rows with a password in one, and a host. -/
def savedOutput : Params where
  entries :=
    [("endpoint", .str "collector:4317"), ("headers", .map [("X-Tenant", .str "acme")]),
     ("targets", .list [.map [("host", .str "a"), ("password", .str "p")], .map [("host", .str "b")]])]
  wellKeyed := by decide

theorem resubmit_restores_savedOutput :
    resubmit ["headers"] savedOutput.entries = savedOutput.entries :=
  (resubmit_restores_iff ["headers"] savedOutput (by decide)).mpr (by decide)

/-- A list of tokens. -/
def tokenList : Params where
  entries := [("tokens", .list [.str "a", .str "b"])]
  wellKeyed := by decide

/-- The placeholders of a hidden list are written over its credentials. -/
theorem resubmit_overwrites_tokens :
    fullEntries tokenList.entries = true ∧
      resubmit [] tokenList.entries = [("tokens", .list [.str "***", .str "***"])] ∧
      resubmit [] tokenList.entries ≠ tokenList.entries := by
  decide

end SenhubAgent.Http

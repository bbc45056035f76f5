import Mathlib.Data.List.Chain
import Mathlib.Data.List.InsertIdx
import SenhubAgent.Http.ConsoleRedact

/-!
# What the console's view reveals, and a row taken out of a list

Two laws about the view of `ConsoleRedact`.

The view is a function of what it does not hide: two trees that differ only in hidden
texts look alike (`sanitizeForConsole_alike`). The walk hides texts. A number under a
secret's key is shown as it is written, and so are the items of a list that stands in a
list.

A form that takes a row out of a list sends the rows that are left, and the stored rows
are merged into them by position. From the row taken out on, each row meets the stored
values of the row before it, so it gets its own back only where the two rows keep the
same texts, and the console's walks agree on it (`removeRow_keeps_iff`).
-/

namespace SenhubAgent.Http

open Config
open Lib.SortedMap (Keyed get? insert assign filterEntries)

/-! ## Trees that look alike -/

/-- A text the console replaces where it hides. -/
def Conceals (s : String) : Prop := s ≠ "" ∧ startsReference s = false

instance (s : String) : Decidable (Conceals s) := inferInstanceAs (Decidable (_ ∧ _))

variable {secretPaths : List String}

variable (secretPaths) in
mutual
/-- The values differ at most in hidden texts; `path` and `hide` are as in `showValue`. -/
inductive Alike : String → Bool → Value → Value → Prop
  | refl {path : String} {hide : Bool} (v : Value) : Alike path hide v v
  | text {path s t : String} : Conceals s → Conceals t → Alike path true (.str s) (.str t)
  | map {path : String} {hide : Bool} {es fs : Entries} :
      AlikeEntries (path ++ ".") hide es fs → Alike path hide (.map es) (.map fs)
  | anyMap {path : String} {hide : Bool} {es fs : List (AnyKey × Value)} :
      AlikeAny (path ++ ".") hide es fs → Alike path hide (.anyMap es) (.anyMap fs)
  | list {path : String} {hide : Bool} {xs ys : List Value} :
      AlikeItems (path ++ ".") hide xs ys → Alike path hide (.list xs) (.list ys)

inductive AlikeEntries : String → Bool → Entries → Entries → Prop
  | nil {parent : String} {inSecret : Bool} : AlikeEntries parent inSecret [] []
  | cons {parent k : String} {inSecret : Bool} {v w : Value} {es fs : Entries} :
      Alike (parent ++ k) (hiddenAt secretPaths parent inSecret k) v w →
      AlikeEntries parent inSecret es fs →
      AlikeEntries parent inSecret ((k, v) :: es) ((k, w) :: fs)

inductive AlikeAny : String → Bool → List (AnyKey × Value) → List (AnyKey × Value) → Prop
  | nil {parent : String} {inSecret : Bool} : AlikeAny parent inSecret [] []
  | text {parent k : String} {inSecret : Bool} {v w : Value} {es fs : List (AnyKey × Value)} :
      Alike (parent ++ k) (hiddenAt secretPaths parent inSecret k) v w →
      AlikeAny parent inSecret es fs →
      AlikeAny parent inSecret ((.str k, v) :: es) ((.str k, w) :: fs)
  | same {parent : String} {inSecret : Bool} {es fs : List (AnyKey × Value)}
      (e : AnyKey × Value) : AlikeAny parent inSecret es fs →
      AlikeAny parent inSecret (e :: es) (e :: fs)

/-- Of the items of a list only blocks and texts are looked into. -/
inductive AlikeItems : String → Bool → List Value → List Value → Prop
  | nil {parent : String} {hide : Bool} : AlikeItems parent hide [] []
  | block {parent : String} {hide : Bool} {es fs : Entries} {xs ys : List Value} :
      AlikeEntries parent hide es fs → AlikeItems parent hide xs ys →
      AlikeItems parent hide (.map es :: xs) (.map fs :: ys)
  | text {parent s t : String} {xs ys : List Value} : Conceals s → Conceals t →
      AlikeItems parent true xs ys → AlikeItems parent true (.str s :: xs) (.str t :: ys)
  | same {parent : String} {hide : Bool} {xs ys : List Value} (v : Value) :
      AlikeItems parent hide xs ys → AlikeItems parent hide (v :: xs) (v :: ys)
end

variable {s parent : String} {inSecret : Bool} {es fs sent : Entries} {v : Option Value} {o : Value}

theorem showValue_concealed (h : Conceals s) (path : String) :
    showValue secretPaths path true (.str s) = .str redactedForConsole := by
  rw [showValue, if_pos]
  simp [h.1, h.2]

theorem showItems_concealed (h : Conceals s) (parent : String) (items : List Value) :
    showItems secretPaths parent true (.str s :: items) =
      .str redactedForConsole :: showItems secretPaths parent true items := by
  rw [showItems, if_pos]
  simp [h.2]

theorem showItems_cons (parent : String) (hide : Bool) (v : Value) {xs ys : List Value}
    (h : showItems secretPaths parent hide xs = showItems secretPaths parent hide ys) :
    showItems secretPaths parent hide (v :: xs) = showItems secretPaths parent hide (v :: ys) := by
  cases v <;> exact congrArg (List.cons _) h

-- the induction is on how the trees are alike, one case per rule
mutual
theorem showValue_alike {path : String} {hide : Bool} {v w : Value} :
    Alike secretPaths path hide v w →
      showValue secretPaths path hide v = showValue secretPaths path hide w
  | .refl _ => rfl
  | .text hs ht => by rw [showValue_concealed hs, showValue_concealed ht]
  | .map h => congrArg Value.map (showEntries_alike h)
  | .anyMap h => congrArg Value.map (showAny_alike h)
  | .list h => congrArg Value.list (showItems_alike h)

theorem showEntries_alike {parent : String} {inSecret : Bool} {es fs : Entries} :
    AlikeEntries secretPaths parent inSecret es fs →
      showEntries secretPaths parent inSecret es = showEntries secretPaths parent inSecret fs
  | .nil => rfl
  | .cons hv hes => by rw [showEntries, showEntries, showValue_alike hv, showEntries_alike hes]

theorem showAny_alike {parent : String} {inSecret : Bool} {es fs : List (AnyKey × Value)} :
    AlikeAny secretPaths parent inSecret es fs →
      showAny secretPaths parent inSecret es = showAny secretPaths parent inSecret fs
  | .nil => rfl
  | .text hv hes => by rw [showAny, showAny, showValue_alike hv, showAny_alike hes]
  | .same (k, v) hes => by
    have ih := showAny_alike hes
    cases k with
    | str k => rw [showAny, showAny, ih]
    | scalar s => exact ih
    | null => exact ih

theorem showItems_alike {parent : String} {hide : Bool} {xs ys : List Value} :
    AlikeItems secretPaths parent hide xs ys →
      showItems secretPaths parent hide xs = showItems secretPaths parent hide ys
  | .nil => rfl
  | .block hes hxs => by rw [showItems, showItems, showEntries_alike hes, showItems_alike hxs]
  | .text hs ht hxs => by rw [showItems_concealed hs, showItems_concealed ht, showItems_alike hxs]
  | .same v hxs => showItems_cons _ _ v (showItems_alike hxs)
end

/-- The view reveals no hidden text: trees that differ only in texts under a secret path
or a secret's key, at any depth of mappings and of the blocks and texts of lists, are
shown alike when none of these texts is empty or begins like a reference. -/
theorem sanitizeForConsole_alike (secretPaths : List String) (a b : Params)
    (h : AlikeEntries secretPaths "" false a.entries b.entries) :
    sanitizeForConsole a.entries secretPaths = sanitizeForConsole b.entries secretPaths :=
  showEntries_alike h

/-- A header under a secret path and a token in a block of a list. -/
def tokenTree : Params where
  entries := [("headers", .map [("X-Tenant", .str "acme")]), ("users", .list [.map [("token", .str "t")]])]
  wellKeyed := by decide

def otherTokenTree : Params where
  entries := [("headers", .map [("X-Tenant", .str "hooli")]), ("users", .list [.map [("token", .str "u")]])]
  wellKeyed := by decide

theorem sanitizeForConsole_alike_token :
    sanitizeForConsole tokenTree.entries ["headers"] =
      sanitizeForConsole otherTokenTree.entries ["headers"] :=
  have concealed (s t : String) (hs : Conceals s) (ht : Conceals t) (path : String) :
      Alike ["headers"] path true (.str s) (.str t) := .text hs ht
  sanitizeForConsole_alike ["headers"] tokenTree otherTokenTree
    (.cons (.map (.cons (concealed "acme" "hooli" (by decide) (by decide) _) .nil))
      (.cons (.list (.block (.cons (concealed "t" "u" (by decide) (by decide) _) .nil) .nil)) .nil))

/-- A password that the file writes as a number is shown. -/
theorem number_under_password_shown :
    consoleHides "password" = true ∧
      sanitizeForConsole [("password", .scalar (.int 1234))] [] ≠
        sanitizeForConsole [("password", .scalar (.int 5678))] [] := by
  decide

/-! ## What a merge keeps -/

/-- The mappings `es` and `fs` keep the same at every key that the form leaves unset. -/
def SameUnset (secretPaths : List String) (parent : String) (inSecret : Bool)
    (es fs sent : Entries) : Prop :=
  ∀ k, get? k sent = none →
    saved secretPaths (parent ++ k) (hiddenAt secretPaths parent inSecret k) (get? k es) none =
      saved secretPaths (parent ++ k) (hiddenAt secretPaths parent inSecret k) (get? k fs) none

variable (secretPaths) in
mutual
/-- Wherever the form sets nothing inside the value it sends, `a` and `b` keep the same. -/
def SameKept (path : String) (hide : Bool) (a b : Option Value) : Value → Prop
  | .map sent => SameUnset secretPaths (path ++ ".") hide (blockOf a) (blockOf b) sent ∧
      SameKeptEntries (path ++ ".") hide (blockOf a) (blockOf b) sent
  | .list sent => SameKeptItems (path ++ ".") hide (itemsOf a) (itemsOf b) sent
  | .null => True
  | .str _ => True
  | .scalar _ => True
  | .anyMap _ => True

def SameKeptEntries (parent : String) (inSecret : Bool) (es fs : Entries) : Entries → Prop
  | [] => True
  | (k, o) :: sent =>
    SameKept (parent ++ k) (hiddenAt secretPaths parent inSecret k) (get? k es) (get? k fs) o ∧
      SameKeptEntries parent inSecret es fs sent

def SameKeptItems (parent : String) (hide : Bool) (xs ys : List Value) : List Value → Prop
  | [] => True
  | .map o :: sent =>
    (SameUnset secretPaths parent hide (blockOf xs.head?) (blockOf ys.head?) o ∧
      SameKeptEntries parent hide (blockOf xs.head?) (blockOf ys.head?) o) ∧
      SameKeptItems parent hide xs.tail ys.tail sent
  | _ :: sent => SameKeptItems parent hide xs.tail ys.tail sent
end

theorem sameKeptEntries_iff :
    SameKeptEntries secretPaths parent inSecret es fs sent ↔ ∀ k o, (k, o) ∈ sent →
      SameKept secretPaths (parent ++ k) (hiddenAt secretPaths parent inSecret k) (get? k es)
        (get? k fs) o := by
  induction sent with
  | nil => simp [SameKeptEntries]
  | cons e sent ih =>
    rw [SameKeptEntries, ih]
    constructor
    · rintro ⟨he, hsent⟩ k o hmem
      rcases List.mem_cons.mp hmem with heq | hin
      · cases heq
        exact he
      · exact hsent k o hin
    · intro h
      exact ⟨h e.1 e.2 List.mem_cons_self, fun k o hin => h k o (List.mem_cons_of_mem _ hin)⟩

/-- Two stored values, merged into the value `o` that the form sends, come out alike exactly when
they keep the same where it sets nothing. -/
def Decided (secretPaths : List String) (o : Value) : Prop :=
  ∀ path hide a b, (∀ v ∈ a, v.wellKeyed = true) → (∀ v ∈ b, v.wellKeyed = true) →
    (saved secretPaths path hide a (some o) = saved secretPaths path hide b (some o) ↔
      SameKept secretPaths path hide a b o)

theorem writtenAt_eq_iff (hes : (Value.map es).wellKeyed = true)
    (hfs : (Value.map fs).wellKeyed = true) (hsent : Keyed sent)
    (h : ∀ e ∈ sent, Decided secretPaths e.2) :
    writtenAt secretPaths parent inSecret es sent = writtenAt secretPaths parent inSecret fs sent ↔
      SameUnset secretPaths parent inSecret es fs sent ∧
        SameKeptEntries secretPaths parent inSecret es fs sent := by
  obtain ⟨hkes, hwes⟩ := wellKeyed_map_iff.mp hes
  obtain ⟨hkfs, hwfs⟩ := wellKeyed_map_iff.mp hfs
  rw [sameKeptEntries_iff]
  constructor
  · intro heq
    have hget (k : String) := congrArg (get? k) heq
    simp only [get?_writtenAt hkes hsent, get?_writtenAt hkfs hsent] at hget
    refine ⟨fun k hk => ?_, fun k o hmem => ?_⟩
    · have := hget k
      rwa [hk] at this
    · have := hget k
      rw [hsent.get? hmem] at this
      exact (h (k, o) hmem _ _ _ _ (wellKeyed_get? hwes k) (wellKeyed_get? hwfs k)).mp this
  · rintro ⟨hunset, hkept⟩
    refine (keyed_writtenAt _ _ _ hsent).ext (keyed_writtenAt _ _ _ hsent) fun k => ?_
    rw [get?_writtenAt hkes hsent, get?_writtenAt hkfs hsent]
    cases hk : get? k sent with
    | none => exact hunset k hk
    | some o =>
      have hmem := Lib.SortedMap.get?_mem hk
      exact (h (k, o) hmem _ _ _ _ (wellKeyed_get? hwes k) (wellKeyed_get? hwfs k)).mpr
        (hkept k o hmem)

/-- A row of a list is merged as the mapping at the list's own path would be. -/
theorem saved_items_eq_iff {path : String} {hide : Bool} {rows xs ys : List Value}
    (h : ∀ v ∈ rows, Decided secretPaths v) (hxs : wellKeyedItems xs = true)
    (hys : wellKeyedItems ys = true) :
    dropNilItems (keepItems secretPaths (path ++ ".") hide xs rows) =
        dropNilItems (keepItems secretPaths (path ++ ".") hide ys rows) ↔
      SameKeptItems secretPaths (path ++ ".") hide xs ys rows := by
  induction rows generalizing xs ys with
  | nil => cases xs <;> cases ys <;> simp [keepItems, SameKeptItems]
  | cons v rows ih =>
    obtain ⟨hv, hrows⟩ := List.forall_mem_cons.mp h
    obtain ⟨hx, hxs'⟩ := wellKeyed_head hxs
    obtain ⟨hy, hys'⟩ := wellKeyed_head hys
    have ih := ih hrows hxs' hys'
    cases v with
    | map o =>
      have hrow := hv path hide _ _ hx hy
      rw [saved_map, saved_map, nonEmpty_inj, SameKept] at hrow
      rw [savedItems_block, savedItems_block, List.cons_eq_cons, ih, Value.map.injEq, SameKeptItems,
        hrow]
    | _ =>
      rw [savedItems_leaf, savedItems_leaf, List.cons_eq_cons, ih]
      · exact and_iff_right rfl
      · simp
      · simp

theorem decided_of_wellKeyed (o : Value) : o.wellKeyed = true → Decided secretPaths o := by
  induction o using Value.ind with
  | map sent ih =>
    intro ho path hide a b ha hb
    obtain ⟨hkeyed, hsent⟩ := wellKeyed_map_iff.mp ho
    rw [saved_map, saved_map, nonEmpty_inj, SameKept]
    exact writtenAt_eq_iff (wellKeyed_blockOf ha) (wellKeyed_blockOf hb) hkeyed
      fun e he => ih e he (hsent e he)
  | list sent ih =>
    intro ho path hide a b ha hb
    rw [saved_list, saved_list, SameKept, Option.some_inj, Value.list.injEq]
    exact saved_items_eq_iff (fun v hv => ih v hv (wellKeyedItems_iff.mp ho v hv))
      (wellKeyed_itemsOf ha) (wellKeyed_itemsOf hb)
  | null | str _ | scalar _ | anyMap _ =>
    intro _ path hide a b _ _
    simp [saved_leaf, SameKept]

/-! ## The view is a tree of maps -/

theorem wellKeyed_filterEntries {f : String → Value → Option Value}
    (hes : (Value.map es).wellKeyed = true) (hf : ∀ e ∈ es, ∀ w ∈ f e.1 e.2, w.wellKeyed = true) :
    (Value.map (filterEntries f es)).wellKeyed = true := by
  obtain ⟨hkeyed, -⟩ := wellKeyed_map_iff.mp hes
  refine wellKeyed_map_iff.mpr ⟨hkeyed.filterEntries f, fun e he => ?_⟩
  obtain ⟨v, hv, hw⟩ := Lib.SortedMap.mem_filterEntries he
  exact hf (e.1, v) hv e.2 hw

theorem wellKeyed_showEntries (hes : (Value.map es).wellKeyed = true)
    (h : ∀ e ∈ es, ∀ path hide, (showValue secretPaths path hide e.2).wellKeyed = true) :
    (Value.map (showEntries secretPaths parent inSecret es)).wellKeyed = true := by
  rw [showEntries_eq]
  exact wellKeyed_filterEntries hes fun e he w hw => Option.some.inj hw ▸ h e he _ _

theorem wellKeyed_showAny {es : List (AnyKey × Value)}
    (h : ∀ e ∈ es, ∀ path hide, (showValue secretPaths path hide e.2).wellKeyed = true) :
    (Value.map (showAny secretPaths parent inSecret es)).wellKeyed = true := by
  induction es with
  | nil => rfl
  | cons e es ih =>
    obtain ⟨k, v⟩ := e
    obtain ⟨hv, hes⟩ := List.forall_mem_cons.mp h
    have ih := ih hes
    cases k with
    | str k =>
      obtain ⟨hkeyed, hshown⟩ := wellKeyed_map_iff.mp ih
      refine wellKeyed_map_iff.mpr ⟨hkeyed.insert k _, fun e he => ?_⟩
      rcases Lib.SortedMap.mem_insert he with rfl | hin
      · exact hv _ _
      · exact hshown e hin
    | scalar s => exact ih
    | null => exact ih

theorem wellKeyed_showItems {path : String} {hide : Bool} {items : List Value}
    (hitems : wellKeyedItems items = true)
    (h : ∀ v ∈ items, (showValue secretPaths path hide v).wellKeyed = true) :
    wellKeyedItems (showItems secretPaths (path ++ ".") hide items) = true := by
  induction items with
  | nil => rfl
  | cons v items ih =>
    obtain ⟨hv, hitems⟩ := Bool.and_eq_true_iff.mp hitems
    obtain ⟨hshown, hrest⟩ := List.forall_mem_cons.mp h
    have ih := ih hitems hrest
    cases v with
    | map es => exact Bool.and_eq_true_iff.mpr ⟨hshown, ih⟩
    | str s =>
      rw [showItems]
      split <;> exact ih
    | _ => exact Bool.and_eq_true_iff.mpr ⟨hv, ih⟩

theorem wellKeyed_showValue (v : Value) : v.wellKeyed = true → ∀ path hide,
    (showValue secretPaths path hide v).wellKeyed = true := by
  induction v using Value.ind with
  | map es ih =>
    intro h path hide
    exact wellKeyed_showEntries h fun e he => ih e he ((wellKeyed_map_iff.mp h).2 e he)
  | anyMap es ih =>
    intro h path hide
    exact wellKeyed_showAny fun e he => ih e he (wellKeyedAny_iff.mp h e he)
  | list items ih =>
    intro h path hide
    exact wellKeyed_showItems h fun v hv => ih v hv (wellKeyedItems_iff.mp h v hv) path hide
  | str s =>
    intro _ path hide
    rw [showValue]
    split <;> rfl
  | null | scalar _ => exact fun _ _ _ => rfl

theorem wellKeyed_nonEmpty_iff :
    (∀ w ∈ nonEmpty es, w.wellKeyed = true) ↔ (Value.map es).wellKeyed = true := by
  cases es with
  | nil => exact iff_of_true nofun rfl
  | cons e es => simp

theorem wellKeyed_dropRedactedItems {items : List Value} (hitems : wellKeyedItems items = true)
    (h : ∀ v ∈ items, ∀ w ∈ dropRedacted v, w.wellKeyed = true) :
    wellKeyedItems (dropRedactedItems items) = true := by
  induction items with
  | nil => rfl
  | cons v items ih =>
    obtain ⟨hv, hitems⟩ := Bool.and_eq_true_iff.mp hitems
    obtain ⟨hdropped, hrest⟩ := List.forall_mem_cons.mp h
    have ih := ih hitems hrest
    cases v with
    | map es => exact Bool.and_eq_true_iff.mpr ⟨wellKeyed_nonEmpty_iff.mp hdropped, ih⟩
    | _ => exact Bool.and_eq_true_iff.mpr ⟨hv, ih⟩

theorem wellKeyed_dropRedactedValues (hes : (Value.map es).wellKeyed = true)
    (h : ∀ e ∈ es, ∀ w ∈ dropRedacted e.2, w.wellKeyed = true) :
    (Value.map (dropRedactedValues es)).wellKeyed = true := by
  rw [dropRedactedValues_eq]
  exact wellKeyed_filterEntries hes h

theorem wellKeyed_dropRedacted (v : Value) : v.wellKeyed = true →
    ∀ w ∈ dropRedacted v, w.wellKeyed = true := by
  induction v using Value.ind with
  | map es ih =>
    intro h
    exact wellKeyed_nonEmpty_iff.mpr
      (wellKeyed_dropRedactedValues h fun e he => ih e he ((wellKeyed_map_iff.mp h).2 e he))
  | list items ih =>
    intro h w hw
    exact Option.some.inj hw ▸
      wellKeyed_dropRedactedItems h fun v hv => ih v hv (wellKeyedItems_iff.mp h v hv)
  | str s =>
    intro _ w hw
    rw [dropRedacted] at hw
    split at hw
    next => cases hw
    next => exact Option.some.inj hw ▸ rfl
  | null | scalar _ | anyMap _ => exact fun h w hw => Option.some.inj hw ▸ h

/-! ## A row taken out -/

theorem wellKeyed_formView (secretPaths : List String) (parent : String) (inSecret : Bool) (es : Params) :
    (Value.map (formView secretPaths parent inSecret es.entries)).wellKeyed = true := by
  obtain ⟨-, hes⟩ := wellKeyed_map_iff.mp es.wellKeyed
  have hshown : (Value.map (showEntries secretPaths parent inSecret es.entries)).wellKeyed = true :=
    wellKeyed_showEntries es.wellKeyed fun e he => wellKeyed_showValue e.2 (hes e he)
  exact wellKeyed_dropRedactedValues hshown fun e he =>
    wellKeyed_dropRedacted e.2 ((wellKeyed_map_iff.mp hshown).2 e he)

/-- The form takes the row at `i` out of the list it holds under `key`. -/
def removeRow (key : String) (i : Nat) (sent : Entries) : Entries :=
  insert key (.list ((itemsOf (get? key sent)).eraseIdx i)) sent

/-- Where the form shows nothing of the row `b`, the row `a` keeps what `b` keeps: the same
hidden texts and references. -/
def KeepsAlike (secretPaths : List String) (parent : String) (hide : Bool) (a b : Params) : Prop :=
  SameUnset secretPaths parent hide a.entries b.entries (formView secretPaths parent hide b.entries) ∧
    SameKeptEntries secretPaths parent hide a.entries b.entries
      (formView secretPaths parent hide b.entries)

/-- The view of the row `b` saved over the row `a` is `b` as it is stored, less its nulls. -/
theorem writtenAt_row_iff {path : String} {hide : Bool} (a b : Params) :
    writtenAt secretPaths (path ++ ".") hide a.entries
        (formView secretPaths (path ++ ".") hide b.entries) = dropNilValues b.entries ↔
      restoresEntries secretPaths (path ++ ".") hide b.entries = true ∧
        KeepsAlike secretPaths (path ++ ".") hide a b := by
  obtain ⟨hsent, hwsent⟩ :=
    wellKeyed_map_iff.mp (wellKeyed_formView secretPaths (path ++ ".") hide b)
  have hkept : _ ↔ KeepsAlike secretPaths (path ++ ".") hide a b :=
    writtenAt_eq_iff a.wellKeyed b.wellKeyed hsent fun e he => decided_of_wellKeyed e.2 (hwsent e he)
  obtain ⟨hown, hother⟩ := (walksAgree (.map b.entries) b.wellKeyed).row
  rw [← hkept]
  constructor
  · intro heq
    have hrestores := hother a.entries a.wellKeyed heq
    exact ⟨hrestores, heq.trans (hown hrestores).symm⟩
  · rintro ⟨hrestores, heq⟩
    exact heq.trans (hown hrestores)

theorem KeepsAlike.refl {path : String} {hide : Bool} (a : Params) :
    KeepsAlike secretPaths (path ++ ".") hide a a := by
  obtain ⟨hsent, hwsent⟩ :=
    wellKeyed_map_iff.mp (wellKeyed_formView secretPaths (path ++ ".") hide a)
  exact (writtenAt_eq_iff a.wellKeyed a.wellKeyed hsent fun e he =>
    decided_of_wellKeyed e.2 (hwsent e he)).mp rfl

/-- Pairing a list with itself less one element pairs each earlier element with itself and each
later one with the one before it. -/
theorem zipWith_eraseIdx_iff {α β : Type} (f : α → α → β) (g : α → β) (P : α → Prop)
    (R : α → α → Prop) (hfg : ∀ a b, f a b = g b ↔ P b ∧ R a b) (hrefl : ∀ a, R a a)
    (xs : List α) (i : Nat) :
    List.zipWith f xs (xs.eraseIdx i) = (xs.eraseIdx i).map g ↔
      (∀ x ∈ xs.eraseIdx i, P x) ∧ (xs.drop i).IsChain R := by
  induction xs generalizing i with
  | nil => simp
  | cons x xs ih =>
    cases i with
    | succ i => simp [ih i, hfg, hrefl, and_assoc]
    | zero =>
      rw [List.eraseIdx_cons_zero, List.drop_zero]
      clear ih
      induction xs generalizing x with
      | nil => simp
      | cons y ys ih =>
        simp only [List.zipWith_cons_cons, List.map_cons, List.cons_eq_cons, hfg, ih y,
          List.forall_mem_cons, List.isChain_cons_cons]
        tauto

theorem savedItems_rows (parent : String) (hide : Bool) (rows : List Params) :
    ∀ sent : List Entries, sent.length ≤ rows.length →
      dropNilItems (keepItems secretPaths parent hide (rows.map fun row => .map row.entries)
          (sent.map .map)) =
        (List.zipWith (fun row o => writtenAt secretPaths parent hide row.entries o) rows sent).map
          .map := by
  induction rows with
  | nil =>
    intro sent hlen
    rw [List.length_eq_zero_iff.mp (Nat.le_zero.mp hlen)]
    rfl
  | cons row rows ih =>
    intro sent hlen
    cases sent with
    | nil => rfl
    | cons o sent =>
      rw [List.map_cons, List.map_cons, savedItems_block]
      exact congrArg (List.cons _) (ih sent (Nat.le_of_succ_le_succ hlen))

theorem formView_rows (parent : String) (hide : Bool) (rows : List Params) :
    dropRedactedItems (showItems secretPaths parent hide (rows.map fun row => .map row.entries)) =
      rows.map fun row => .map (formView secretPaths parent hide row.entries) := by
  induction rows with
  | nil => rfl
  | cons row rows ih => exact congrArg (List.cons _) ih

theorem savedItems_removed_iff (path : String) (hide : Bool) (rows : List Params) (i : Nat) :
    dropNilItems (keepItems secretPaths (path ++ ".") hide (rows.map fun row => .map row.entries)
        ((rows.map fun row => .map (formView secretPaths (path ++ ".") hide row.entries)).eraseIdx i)) =
      (rows.eraseIdx i).map (fun row => .map (dropNilValues row.entries)) ↔
    (∀ row ∈ rows.eraseIdx i, restoresEntries secretPaths (path ++ ".") hide row.entries = true) ∧
      (rows.drop i).IsChain (KeepsAlike secretPaths (path ++ ".") hide) := by
  have hsent :
      (rows.map fun row => Value.map (formView secretPaths (path ++ ".") hide row.entries)).eraseIdx i
      = ((rows.eraseIdx i).map fun row => formView secretPaths (path ++ ".") hide row.entries).map
        .map := by
    rw [List.map_map, List.eraseIdx_map]
    rfl
  have hlen :
      ((rows.eraseIdx i).map fun row => formView secretPaths (path ++ ".") hide row.entries).length
      ≤ rows.length := by
    rw [List.length_map]
    exact List.length_eraseIdx_le rows i
  have hown : ((rows.eraseIdx i).map fun row => Value.map (dropNilValues row.entries)) =
      ((rows.eraseIdx i).map fun row => dropNilValues row.entries).map .map := by
    rw [List.map_map]
    rfl
  rw [hsent, savedItems_rows _ _ _ _ hlen, hown, List.zipWith_map_right,
    (List.map_injective_iff.mpr fun _ _ => Value.map.inj).eq_iff]
  exact zipWith_eraseIdx_iff _ _ _ _ writtenAt_row_iff .refl rows i

/-- The form sends the view of a mapping back without one row of a list it holds. Every
row that is left is saved as it was stored, less its nulls, exactly when the walks agree on each
of these rows and each stored row from the one taken out on keeps what the row after it keeps, as
it does when the last row goes. -/
theorem removeRow_keeps_iff (secretPaths : List String) (parent : String) (inSecret : Bool)
    (stored : Params) (key : String) (rows : List Params) (i : Nat)
    (hrows : get? key stored.entries = some (.list (rows.map fun row => .map row.entries))) :
    get? key (writtenAt secretPaths parent inSecret stored.entries
        (removeRow key i (formView secretPaths parent inSecret stored.entries))) =
      some (.list ((rows.eraseIdx i).map fun row => .map (dropNilValues row.entries))) ↔
    (∀ row ∈ rows.eraseIdx i, restoresEntries secretPaths (parent ++ key ++ ".")
      (hiddenAt secretPaths parent inSecret key) row.entries = true) ∧
    (rows.drop i).IsChain
      (KeepsAlike secretPaths (parent ++ key ++ ".") (hiddenAt secretPaths parent inSecret key)) := by
  obtain ⟨hstored, -⟩ := wellKeyed_map_iff.mp stored.wellKeyed
  have hsent : get? key (formView secretPaths parent inSecret stored.entries) =
      some (.list (rows.map fun row => .map (formView secretPaths (parent ++ key ++ ".")
        (hiddenAt secretPaths parent inSecret key) row.entries))) := by
    rw [formView, dropRedactedValues_eq, showEntries_eq,
      (hstored.filterEntries _).get?_filterEntries, hstored.get?_filterEntries, hrows]
    exact congrArg (fun l => some (Value.list l)) (formView_rows _ _ rows)
  rw [removeRow, get?_writtenAt hstored ((wellKeyed_map_iff.mp (wellKeyed_formView _ _ _ stored)).1.insert _ _), hrows,
    Lib.SortedMap.get?_insert_self, hsent, itemsOf, saved_list, itemsOf, Option.some_inj,
    Value.list.injEq]
  exact savedItems_removed_iff _ _ rows i

/-- The blocks of two accounts. -/
def accounts : List Params :=
  [⟨[("name", .str "a"), ("password", .str "p")], by decide⟩,
   ⟨[("name", .str "b"), ("password", .str "q")], by decide⟩]

def storedAccounts : Params where
  entries := [("users", .list (accounts.map fun row => .map row.entries))]
  wellKeyed := by decide

/-- The last row can go. -/
theorem removeRow_keeps_first :
    get? "users" (paramsAsWritten storedAccounts.entries
        (removeRow "users" 1 (formView [] "" false storedAccounts.entries)) []) =
      some (.list [.map [("name", .str "a"), ("password", .str "p")]]) :=
  ((removeRow_keeps_iff [] "" false storedAccounts "users" accounts 1 rfl).mpr
    ⟨by decide, .singleton _⟩).trans (by decide)

/-- Without the first row, the second is saved with the password of the first. -/
theorem removeRow_shifts_password :
    paramsAsWritten storedAccounts.entries
        (removeRow "users" 0 (formView [] "" false storedAccounts.entries)) [] =
      [("users", .list [.map [("name", .str "b"), ("password", .str "p")]])] := by
  decide

end SenhubAgent.Http

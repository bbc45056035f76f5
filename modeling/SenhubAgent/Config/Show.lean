import SenhubAgent.Config.EnvValues
import SenhubAgent.Config.ProbeConfig

/-!
# The redacted configuration

`config show --redact` prints the resolved configuration with the texts that came from a file
or from the secret store, and those under a secret's name, replaced by `***`. It walks the raw
and the resolved tree together (`redactInPlace`).

Two runs that differ only in what files and secrets hold, and in scalars under secrets' names,
should print the same. They do as long as those scalars are texts: a number under `password`
is printed as it is (`redacted_eq_iff`).

Mirroring notes:
- A struct is a mapping from its fields' names, a pointer is what it points to, and `nil` is
  null. The name a leaf is judged by is the nearest key above it; lists pass it on.
- The resolved tree has the keys and the list lengths of the raw one, so the walk pairs them
  in order. On trees of different shapes the Go code does not get here.
-/

namespace SenhubAgent.Config

open Lib

/-! ## Patterns -/

/-- `word[^}]+\}` at the start of a text. -/
def refAt (word s : Text) : Bool :=
  word.isPrefixOf s && !((s.drop word.length).takeWhile (· != '}')).isEmpty &&
    !((s.drop word.length).dropWhile (· != '}')).isEmpty

def hasRef (word s : Text) : Bool := s.tails.any (refAt word)

def fileRef : Text := '$' :: '{' :: kindWord .file

def secretRef : Text := '$' :: '{' :: kindWord .secret

def envProbeRef : Text := '$' :: '{' :: (kindWord .env ++ "SENHUB_PROBE_".toList)

def secretFieldPattern : List (List Piece) :=
  ["key", "token", "password", "passphrase", "secret", "community", "credential", "authorization",
    "bearer", "license", "jwt"].map word

def nameLooksSecret (name : String) : Bool := name != "" && matchString secretFieldPattern name.toList

/-- The text is masked: it holds a reference to a file or to a secret, or its name is one of a
secret. -/
def masks (name raw : String) : Bool :=
  hasRef fileRef raw.toList || (hasRef secretRef raw.toList || hasRef envProbeRef raw.toList) ||
    nameLooksSecret name

/-! ## The walk -/

section Walk

variable (formatFloat : UInt64 → List Char)

mutual
/-- `redactInPlace(raw, resolved, name)` -/
def redact (name : String) : Value → Value → Value
  | .str raw, .str res => if masks name raw then .str "***" else .str res
  | .map raw, .map res => .map (redactEntries raw res)
  | .anyMap raw, .anyMap res => .anyMap (redactAny raw res)
  | .list raw, .list res => .list (redactItems name raw res)
  | _, res => res
termination_by structural raw => raw

def redactEntries : Entries → Entries → Entries
  | (k, v) :: raw, (k', w) :: res => (k', redact k v w) :: redactEntries raw res
  | _, res => res
termination_by structural raw => raw

def redactAny : List (AnyKey × Value) → List (AnyKey × Value) → List (AnyKey × Value)
  | (k, v) :: raw, (k', w) :: res => (k', redact (keyName formatFloat k) v w) :: redactAny raw res
  | _, res => res
termination_by structural raw => raw

/-- A list passes its name on to its items. -/
def redactItems (name : String) : List Value → List Value → List Value
  | v :: raw, w :: res => redact name v w :: redactItems name raw res
  | _, res => res
termination_by structural raw => raw
end

/-! ## Two runs -/

/-- A scalar of any YAML type. -/
def isScalar : Value → Bool
  | .null => true
  | .str _ => true
  | .scalar _ => true
  | _ => false

variable (leaf : Value → Value → Prop)

mutual
/-- The trees differ only in values that `leaf` relates and that stand under a secret's name. -/
inductive Differ : String → Value → Value → Prop
  | same {name : String} {v : Value} : isScalar v = true → Differ name v v
  | secret {name : String} {v w : Value} : nameLooksSecret name = true → leaf v w → Differ name v w
  | map {name : String} {es fs : Entries} : DifferEntries es fs → Differ name (.map es) (.map fs)
  | anyMap {name : String} {es fs : List (AnyKey × Value)} :
      DifferAny es fs → Differ name (.anyMap es) (.anyMap fs)
  | list {name : String} {xs ys : List Value} :
      DifferItems name xs ys → Differ name (.list xs) (.list ys)

inductive DifferEntries : Entries → Entries → Prop
  | nil : DifferEntries [] []
  | cons {k : String} {v w : Value} {es fs : Entries} :
      Differ k v w → DifferEntries es fs → DifferEntries ((k, v) :: es) ((k, w) :: fs)

inductive DifferAny : List (AnyKey × Value) → List (AnyKey × Value) → Prop
  | nil : DifferAny [] []
  | cons {k : AnyKey} {v w : Value} {es fs : List (AnyKey × Value)} :
      Differ (keyName formatFloat k) v w → DifferAny es fs → DifferAny ((k, v) :: es) ((k, w) :: fs)

inductive DifferItems : String → List Value → List Value → Prop
  | nil {name : String} : DifferItems name [] []
  | cons {name : String} {v w : Value} {xs ys : List Value} :
      Differ name v w → DifferItems name xs ys → DifferItems name (v :: xs) (w :: ys)
end

end Walk

def Scalars (v w : Value) : Prop := isScalar v = true ∧ isScalar w = true

def Texts (v w : Value) : Prop := isText v = true ∧ isText w = true

/-! ## A text that is not masked has no such reference -/

variable {r : Reference}

theorem infix_of_ref {s : Text} (h : .ref r ∈ tokens 0 s) :
    r.Wf ∧ ∃ rest, r.render ++ rest <:+ s := by
  induction s using reading_induction with
  | nil => cases h
  | dollar s ih =>
    rw [tokens_dollar, List.mem_cons] at h
    obtain ⟨hwf, rest, hrest⟩ := ih (h.resolve_left nofun)
    exact ⟨hwf, rest, hrest.trans (List.suffix_append ['$', '$'] s)⟩
  | ref s r' rest' hm ih =>
    obtain ⟨hwf, hs⟩ := matchReference_iff.mp hm
    rw [tokens_ref hm, List.mem_cons] at h
    rcases h with heq | hin
    · cases heq
      exact ⟨hwf, rest', hs ▸ List.suffix_refl _⟩
    · obtain ⟨hwf', rest, hrest⟩ := ih hin
      exact ⟨hwf', rest, hrest.trans (hs ▸ List.suffix_append _ _)⟩
  | char c s hd hm ih =>
    rw [tokens_char hd hm, List.mem_cons] at h
    obtain ⟨hwf, rest, hrest⟩ := ih (h.resolve_left nofun)
    exact ⟨hwf, rest, hrest.trans (List.suffix_cons c s)⟩

theorem hasRef_of_ref {s : Text} (h : .ref r ∈ tokens 0 s) :
    hasRef ('$' :: '{' :: kindWord r.kind) s = true := by
  obtain ⟨hwf, rest, hrest⟩ := infix_of_ref h
  refine List.any_eq_true.mpr ⟨_, (List.mem_tails _ _).mpr hrest, ?_⟩
  have hp : ∀ c ∈ r.body, (c != '}') = true := fun c hc => by
    simpa using fun heq : c = '}' => hwf.brace (heq ▸ hc)
  have hne : r.body ≠ [] := fun hnil => by
    have := hwf.split
    rw [hnil] at this
    cases this
  have hrender : r.render ++ rest = ('$' :: '{' :: kindWord r.kind) ++ (r.body ++ ('}' :: rest)) := by
    simp [Reference.render]
  rw [hrender, refAt, List.drop_left, List.takeWhile_append_of_pos hp, List.dropWhile_append_of_pos hp]
  simp [hne]

/-- What an unmasked text resolves to depends on the variables alone. -/
theorem substitute_unmasked {src src' : Sources} (henv : src.lookupEnv = src'.lookupEnv)
    {name s : String} (h : masks name s = false) : substituteString src s = substituteString src' s := by
  simp only [masks, Bool.or_eq_false_iff] at h
  obtain ⟨⟨hfile, hsecret, -⟩, -⟩ := h
  unfold substituteString
  rw [substitute_congr]
  intro r hr
  have hkind := hasRef_of_ref hr
  unfold resolveEscaped resolveReference
  cases hk : r.kind with
  | env => rw [henv]
  | file =>
    rw [hk] at hkind
    cases hfile.symm.trans hkind
  | secret =>
    rw [hk] at hkind
    cases hsecret.symm.trans hkind

/-! ## What two runs print -/

section Runs

variable {src src' : Sources} {formatFloat : UInt64 → List Char}

variable {v w w' v' : Value} {name : String}

theorem substituteValue_scalar (hv : isScalar v = true) (htext : isText v = false)
    (h : substituteValue src v = .ok w) : w = v := by
  cases v with
  | null | scalar _ => exact (Except.ok.inj h).symm
  | str _ => cases htext
  | _ => cases hv

/-- Of a scalar that is no text the walk prints the value itself. -/
theorem redact_scalar (hv : isScalar v = true) (htext : isText v = false) :
    redact formatFloat name v w = w := by
  cases v with
  | null | scalar _ => rfl
  | str _ => cases htext
  | _ => cases hv

theorem redact_text (hname : nameLooksSecret name = true) (htext : isText v = true)
    (h : substituteValue src v = .ok w) : redact formatFloat name v w = .str "***" := by
  cases v with
  | str s =>
    obtain ⟨t, ht, rfl⟩ := map_ok h
    exact if_pos (by rw [masks, hname, Bool.or_true])
  | _ => cases htext

theorem redact_same (henv : src.lookupEnv = src'.lookupEnv) (hv : isScalar v = true)
    (h : substituteValue src v = .ok w) (h' : substituteValue src' v = .ok w') :
    redact formatFloat name v w = redact formatFloat name v w' := by
  cases v with
  | str s =>
    obtain ⟨t, ht, rfl⟩ := map_ok h
    obtain ⟨t', ht', rfl⟩ := map_ok h'
    simp only [redact]
    split
    next => rfl
    next hmask =>
      rw [substitute_unmasked henv (Bool.eq_false_of_not_eq_true hmask), ht'] at ht
      rw [Except.ok.inj ht]
  | null | scalar _ => rw [← Except.ok.inj h, ← Except.ok.inj h']
  | _ => cases hv

theorem differ_scalar_iff (hname : nameLooksSecret name = true) (hv : isScalar v = true) :
    Differ formatFloat Texts name v v' ↔ v = v' ∨ Texts v v' := by
  constructor
  · intro hd
    cases hd with
    | same _ => exact .inl rfl
    | secret _ hl => exact .inr hl
    | _ => cases hv
  · rintro (rfl | hl)
    · exact .same hv
    · exact .secret hname hl

/-- Under a secret's name two scalars print the same when they are equal or both are texts. -/
theorem redact_secret (hname : nameLooksSecret name = true) (hs : Scalars v v')
    (h : substituteValue src v = .ok w) (h' : substituteValue src' v' = .ok w') :
    redact formatFloat name v w = redact formatFloat name v' w' ↔
      Differ formatFloat Texts name v v' := by
  obtain ⟨hv, hv'⟩ := hs
  rw [differ_scalar_iff hname hv]
  cases htext : isText v with
  | true =>
    rw [redact_text hname htext h]
    cases htext' : isText v' with
    | true =>
      rw [redact_text hname htext' h']
      exact iff_of_true rfl (.inr ⟨htext, htext'⟩)
    | false =>
      rw [redact_scalar hv' htext', substituteValue_scalar hv' htext' h']
      refine iff_of_false ?_ ?_
      · rintro rfl
        cases htext'
      · rintro (rfl | hl)
        · cases htext.symm.trans htext'
        · cases htext'.symm.trans hl.2
  | false =>
    have hnot : ¬Texts v v' := fun hl => by cases htext.symm.trans hl.1
    rw [redact_scalar hv htext, substituteValue_scalar hv htext h, or_iff_left hnot]
    cases htext' : isText v' with
    | true =>
      rw [redact_text hname htext' h']
      refine iff_of_false ?_ ?_
      · rintro rfl
        cases htext
      · rintro rfl
        cases htext.symm.trans htext'
    | false => rw [redact_scalar hv' htext', substituteValue_scalar hv' htext' h']

mutual
theorem redact_iff (henv : src.lookupEnv = src'.lookupEnv) {name : String} {v v' w w' : Value} :
    Differ formatFloat Scalars name v v' → substituteValue src v = .ok w →
      substituteValue src' v' = .ok w' →
      (redact formatFloat name v w = redact formatFloat name v' w' ↔
        Differ formatFloat Texts name v v')
  | .same hv, h, h' => iff_of_true (redact_same henv hv h h') (.same hv)
  | .secret hname hs, h, h' => redact_secret hname hs h h'
  | .map hd, h, h' => by
    obtain ⟨fs, hfs, rfl⟩ := map_ok h
    obtain ⟨fs', hfs', rfl⟩ := map_ok h'
    simp only [redact, Value.map.injEq, redactEntries_iff henv hd hfs hfs']
    refine ⟨.map, fun hd => ?_⟩
    cases hd with
    | map hd => exact hd
    | same hv => cases hv
    | secret _ hl => cases hl.1
  | .anyMap hd, h, h' => by
    obtain ⟨fs, hfs, rfl⟩ := map_ok h
    obtain ⟨fs', hfs', rfl⟩ := map_ok h'
    simp only [redact, Value.anyMap.injEq, redactAny_iff henv hd hfs hfs']
    refine ⟨.anyMap, fun hd => ?_⟩
    cases hd with
    | anyMap hd => exact hd
    | same hv => cases hv
    | secret _ hl => cases hl.1
  | .list hd, h, h' => by
    obtain ⟨fs, hfs, rfl⟩ := map_ok h
    obtain ⟨fs', hfs', rfl⟩ := map_ok h'
    simp only [redact, Value.list.injEq, redactItems_iff henv hd hfs hfs']
    refine ⟨.list, fun hd => ?_⟩
    cases hd with
    | list hd => exact hd
    | same hv => cases hv
    | secret _ hl => cases hl.1

theorem redactEntries_iff (henv : src.lookupEnv = src'.lookupEnv) {es es' fs fs' : Entries} :
    DifferEntries formatFloat Scalars es es' → substituteEntries src es = .ok fs →
      substituteEntries src' es' = .ok fs' →
      (redactEntries formatFloat es fs = redactEntries formatFloat es' fs' ↔
        DifferEntries formatFloat Texts es es')
  | .nil, h, h' => by
    rw [← Except.ok.inj h, ← Except.ok.inj h']
    exact iff_of_true rfl .nil
  | .cons hv hes, h, h' => by
    obtain ⟨w, ws, hw, hws, rfl⟩ := pair_ok h
    obtain ⟨w', ws', hw', hws', rfl⟩ := pair_ok h'
    simp only [redactEntries, List.cons.injEq, Prod.mk.injEq, true_and,
      redact_iff henv hv hw hw', redactEntries_iff henv hes hws hws']
    exact ⟨fun hd => .cons hd.1 hd.2, fun (.cons hd hds) => ⟨hd, hds⟩⟩

theorem redactAny_iff (henv : src.lookupEnv = src'.lookupEnv)
    {es es' fs fs' : List (AnyKey × Value)} :
    DifferAny formatFloat Scalars es es' → substituteAny src es = .ok fs →
      substituteAny src' es' = .ok fs' →
      (redactAny formatFloat es fs = redactAny formatFloat es' fs' ↔
        DifferAny formatFloat Texts es es')
  | .nil, h, h' => by
    rw [← Except.ok.inj h, ← Except.ok.inj h']
    exact iff_of_true rfl .nil
  | .cons hv hes, h, h' => by
    obtain ⟨w, ws, hw, hws, rfl⟩ := pair_ok h
    obtain ⟨w', ws', hw', hws', rfl⟩ := pair_ok h'
    simp only [redactAny, List.cons.injEq, Prod.mk.injEq, true_and,
      redact_iff henv hv hw hw', redactAny_iff henv hes hws hws']
    exact ⟨fun hd => .cons hd.1 hd.2, fun (.cons hd hds) => ⟨hd, hds⟩⟩

theorem redactItems_iff (henv : src.lookupEnv = src'.lookupEnv) {name : String}
    {xs xs' ws ws' : List Value} :
    DifferItems formatFloat Scalars name xs xs' → substituteItems src xs = .ok ws →
      substituteItems src' xs' = .ok ws' →
      (redactItems formatFloat name xs ws = redactItems formatFloat name xs' ws' ↔
        DifferItems formatFloat Texts name xs xs')
  | .nil, h, h' => by
    rw [← Except.ok.inj h, ← Except.ok.inj h']
    exact iff_of_true rfl .nil
  | .cons hv hxs, h, h' => by
    obtain ⟨w, ws, hw, hws, rfl⟩ := pair_ok h
    obtain ⟨w', ws', hw', hws', rfl⟩ := pair_ok h'
    simp only [redactItems, List.cons.injEq, redact_iff henv hv hw hw',
      redactItems_iff henv hxs hws hws']
    exact ⟨fun hd => .cons hd.1 hd.2, fun (.cons hd hds) => ⟨hd, hds⟩⟩
end

end Runs

/-! ## The command -/

/-- `LoadForShow` in the redacted mode, from the merged tree on. -/
def loadForShow (formatFloat : UInt64 → List Char) (src : Sources) (raw : Value) :
    Except Unresolved Value :=
  (substituteValue src raw).map (redact formatFloat "" raw)

/-- Two runs whose variables are the same and whose trees differ only in scalars under secrets'
names print the same tree exactly when each of these scalars is a text in both. -/
theorem redacted_eq_iff (formatFloat : UInt64 → List Char) {src src' : Sources}
    (henv : src.lookupEnv = src'.lookupEnv) {raw raw' out out' : Value}
    (hraw : Differ formatFloat Scalars "" raw raw') (h : loadForShow formatFloat src raw = .ok out)
    (h' : loadForShow formatFloat src' raw' = .ok out') :
    out = out' ↔ Differ formatFloat Texts "" raw raw' := by
  obtain ⟨w, hw, rfl⟩ := map_ok h
  obtain ⟨w', hw', rfl⟩ := map_ok h'
  exact redact_iff henv hraw hw hw'

/-- A key as a text, and a value that comes from a file. -/
def keyAndFile (key : String) : Value := .map [("key", .str key), ("url", .str "$\x7bfile:u\x7d")]

def holding (v : Text) : Sources :=
  { noSources with
    readFile := fun name => if '\x00' ∈ name then none else some v
    file_nul := fun _ h => if_pos h }

theorem redacted_eq_key :
    loadForShow (fun _ => []) (holding ['x']) (keyAndFile "a") =
      loadForShow (fun _ => []) (holding ['y']) (keyAndFile "b") := by
  have hname : nameLooksSecret "key" = true := by decide +kernel
  have hdiffer : ∀ leaf : Value → Value → Prop, leaf (.str "a") (.str "b") →
      Differ (fun _ => []) leaf "" (keyAndFile "a") (keyAndFile "b") := fun leaf hleaf =>
    .map (.cons (.secret hname hleaf) (.cons (.same rfl) .nil))
  have h : loadForShow (fun _ => []) (holding ['x']) (keyAndFile "a") =
      .ok (.map [("key", .str "***"), ("url", .str "***")]) := by decide +kernel
  have h' : loadForShow (fun _ => []) (holding ['y']) (keyAndFile "b") =
      .ok (.map [("key", .str "***"), ("url", .str "***")]) := by decide +kernel
  have hsame := (redacted_eq_iff (fun _ => []) rfl (hdiffer Scalars ⟨rfl, rfl⟩) h h').mpr
    (hdiffer Texts ⟨rfl, rfl⟩)
  exact h.trans ((congrArg Except.ok hsame).trans h'.symm)

/-- A key that YAML reads as a number is printed. -/
theorem number_under_key_printed :
    Differ (fun _ => []) Scalars "" (.map [("key", .scalar (.int 1))])
        (.map [("key", .scalar (.int 2))]) ∧
      loadForShow (fun _ => []) (holding []) (.map [("key", .scalar (.int 1))]) ≠
        loadForShow (fun _ => []) (holding []) (.map [("key", .scalar (.int 2))]) :=
  ⟨.map (.cons (.secret (by decide +kernel) ⟨rfl, rfl⟩) .nil), by decide +kernel⟩

end SenhubAgent.Config

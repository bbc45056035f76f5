import SenhubAgent.Config.EnvValues
import SenhubAgent.Config.ReadOnce

/-!
# References in the OTLP output's texts

The loader substitutes the whole configuration, and `ParseConfig` of the OTLP output then runs
the same resolver over its endpoints, its headers and its tenant once more. The exporters get what
the loader resolved only where the second run changes nothing: a text must hold no `$$` and no
reference. A text that the second run can never resolve is kept as well, since `expandEnv` returns
its argument on an error. A fallback endpoint loses the spaces around it, and a configuration with a
blank credential, a control character in its tenant or no address for a signal is refused
(`config_as_loaded_iff`).

Mirroring notes:
- Of the params only the endpoints, the headers, the tenant and the switches of the signals are
  read. The TLS blocks and the other settings are parsed and checked on their own.
- A refusal is `none`, without its text.
- `normalizeYAMLTypes` has left no mapping with other keys than texts.
-/

namespace SenhubAgent.Otlp

open Config Lib
open Lib.SortedMap (get?)

def expandEnv (src : Sources) (s : Text) : Text :=
  if s = [] then s
  else
    match substitute src s with
    | .ok out => out
    | .error _ => s

/-! ## The parsed configuration -/

/-- `SignalTransport`, and what the root has of it. -/
structure Transport where
  endpoint : Text
  /-- `none` where the key is not set -/
  headers : Option (List (Text × Text))
deriving DecidableEq

/-- `expandEnv` and `expandEnvMap`, of the texts of a transport. -/
def Transport.expand (src : Sources) (t : Transport) : Transport where
  endpoint := expandEnv src t.endpoint
  headers := t.headers.map fun m => m.map fun h => (h.1, expandEnv src h.2)

structure Signal where
  enabled : Bool
  transport : Transport
deriving DecidableEq

/-- `Config`, as far as its texts go through `expandEnv`. -/
structure Target where
  root : Transport
  fallbackEndpoints : List Text
  tenant : Text
  /-- metrics, logs and traces -/
  signals : List Signal
deriving DecidableEq

/-- `m[key].(string)`, empty where there is no text. -/
def textAt (key : String) (m : Entries) : Text :=
  match get? key m with
  | some (.str v) => v.toList
  | _ => []

def textEntry (e : String × Value) : Option (Text × Text) :=
  match e.2 with
  | .str v => some (e.1.toList, v.toList)
  | _ => none

/-- Values that are not texts are dropped. -/
def readStringMap : Option Value → Option (List (Text × Text))
  | some (.map es) => some (es.filterMap textEntry)
  | _ => none

def readTransport (m : Entries) : Transport := ⟨textAt "endpoint" m, readStringMap (get? "headers" m)⟩

def readSignal (signals : Entries) (name : String) (enabled : Bool) : Signal where
  enabled :=
    match get? "enabled" (blockOf (get? name signals)) with
    | some (.scalar (.bool b)) => b
    | _ => enabled
  transport := readTransport (blockOf (get? name signals))

def readText : Value → Option Text
  | .str s => some s.toList
  | _ => none

/-- The texts of the params as the loader left them; `none` where a fallback endpoint is no text. -/
def readTarget (params : Entries) : Option Target :=
  let fallbackEndpoints := itemsOf (get? "fallback_endpoints" params)
  let signals := blockOf (get? "signals" params)
  if fallbackEndpoints.all isText then
    some {
      root := readTransport params
      fallbackEndpoints := fallbackEndpoints.filterMap readText
      tenant := if textAt "tenant" params ≠ [] then textAt "tenant" params else textAt "org_id" params
      signals := [readSignal signals "metrics" true, readSignal signals "logs" true,
        readSignal signals "traces" false] }
  else none

def Target.expand (src : Sources) (t : Target) : Target where
  root := t.root.expand src
  fallbackEndpoints := (t.fallbackEndpoints.map fun s => expandEnv src (trimText s)).filter (· ≠ [])
  tenant := expandEnv src t.tenant
  signals := t.signals.map fun s => ⟨s.enabled, s.transport.expand src⟩

/-! ## Refusals -/

section Parse

-- `strings.ToLower`
variable (toLower : Text → Text)

def validateHeaderValue (v : Text) : Bool := v.all fun c => !(c.toNat < 0x20 || c.toNat == 0x7f)

/-- The name of the header is folded as ASCII: no letter of it has another fold. -/
def checkAuthHeader (headers : List (Text × Text)) : Bool :=
  headers.all fun h =>
    let trimmed := trimText h.2
    h.1.map Char.toLower != "authorization".toList ||
      trimmed != [] && !occurs ['$', '\x7b'] trimmed &&
        !(!trimmed.any isSpace && ["bearer".toList, "basic".toList].contains (toLower trimmed))

/-- `validateEndpoints` and `validateAuthHeaders`, of one signal. -/
def Target.serves (t : Target) (s : Signal) : Bool :=
  !s.enabled ||
    (s.transport.endpoint != [] || t.root.endpoint != []) &&
      checkAuthHeader toLower (s.transport.headers.getD (t.root.headers.getD []))

def Target.accepted (t : Target) : Bool :=
  validateHeaderValue t.tenant && t.signals.all (t.serves toLower)

def parseConfig (src : Sources) (params : Entries) : Option Target :=
  (readTarget params).bind fun t =>
    if (t.expand src).accepted toLower then some (t.expand src) else none

end Parse

def Transport.texts (t : Transport) : List Text := t.endpoint :: (t.headers.getD []).map Prod.snd

/-- The texts in use. -/
def Target.texts (t : Target) : List Text :=
  t.tenant :: (t.fallbackEndpoints ++ t.root.texts ++ t.signals.flatMap fun s => s.transport.texts)

/-! ## A second run over a value -/

/-- A reference no sources resolve: its name is looked up with the sentinel in it, and it has
nothing that passes for a default. -/
structure Stuck (r : Reference) : Prop where
  kind : r.kind ≠ .env
  name : occurs ['$', '$'] r.ref = true
  dflt : occurs [':', '-'] r.render = false

/-- A second run leaves the value alone: it holds neither `$$` nor a reference, or a reference
that never resolves. -/
def FixedText (v : Text) : Prop :=
  (occurs ['$', '$'] v = false ∧ ∀ r, .ref r ∉ tokens 0 v) ∨ ∃ r, .ref r ∈ tokens 0 v ∧ Stuck r

variable {v : Text} {r : Reference}

theorem tokens_of_fixed (hdouble : occurs ['$', '$'] v = false) (href : ∀ r, .ref r ∉ tokens 0 v) :
    tokens 0 v = v.map .char := by
  induction v using reading_induction with
  | nil => rfl
  | dollar s ih => cases hdouble
  | ref s r rest h ih => exact absurd (tokens_ref h ▸ List.mem_cons_self) (href r)
  | char c s hd h ih =>
    rw [occurs_cons, Bool.or_eq_false_iff] at hdouble
    rw [tokens_char hd h] at href ⊢
    rw [ih hdouble.2 fun r hr => href r (List.mem_cons_of_mem _ hr), List.map_cons]

theorem single_of_tokens (hdollar : .dollar ∉ tokens 0 v) (href : ∀ r, .ref r ∉ tokens 0 v) :
    occurs ['$', '$'] v = false := by
  induction v using reading_induction with
  | nil => rfl
  | dollar s ih => exact absurd (tokens_dollar s ▸ List.mem_cons_self) hdollar
  | ref s r rest h ih => exact absurd (tokens_ref h ▸ List.mem_cons_self) (href r)
  | char c s hd h ih =>
    rw [tokens_char hd h] at hdollar href
    rw [occurs_cons, hd, ih (fun h => hdollar (List.mem_cons_of_mem _ h)) fun r hr =>
      href r (List.mem_cons_of_mem _ hr)]
    rfl

variable (src : Sources)

theorem resolveCode_stuck (h : Stuck r) : ∃ e, resolveCode src r = .error e := by
  have hnul := nul_mem_escapeDollar h.name
  unfold resolveCode resolveReference
  rw [h.dflt]
  cases hk : r.kind with
  | env => exact absurd hk h.kind
  | file => exact ⟨_, by rw [src.file_nul _ hnul]; rfl⟩
  | secret =>
    cases hg : src.getSecret (escapeDollar r.ref) with
    | value v => exact absurd hg (src.secret_nul _ v hnul)
    | notFound => exact ⟨_, rfl⟩
    | failed => exact ⟨_, rfl⟩

/-- A text is its tokens, each written out. -/
theorem emit_render (v : Text) : emit ['$', '$'] (fun r => .ok r.render) (tokens 0 v) = .ok v := by
  induction v using reading_induction with
  | nil => rfl
  | dollar s ih =>
    rw [tokens_dollar, emit, ih]
    rfl
  | ref s r rest h ih =>
    rw [tokens_ref h, emit, ih, (matchReference_iff.mp h).2]
    rfl
  | char c s hd h ih =>
    rw [tokens_char hd h, emit, ih]
    rfl

/-- Every name is known and empty. -/
def emptySources : Sources := sample (fun _ _ => false) []

theorem nulFree_emptySources : emptySources.NulFree := nulFree_sample (by decide)

theorem resolveCode_empty (h : '\x00' ∉ escapeDollar r.ref) : resolveCode emptySources r = .ok [] := by
  have htrim : trimText [] = [] := trimText_replicate 0
  exact resolve_sample_known h rfl htrim _ _

/-- With every name empty, a reference resolves to less than its text. -/
theorem length_resolveCode_lt (h : resolveCode emptySources r = .ok v) :
    v.length < r.render.length := by
  have hdflt : (unescape (r.dflt.getD [])).length ≤ r.body.length := by
    refine (length_unescape_le _).trans ?_
    unfold Reference.body
    cases r.dflt <;> simp
    omega
  have hv : v.length ≤ (unescape (r.dflt.getD [])).length := by
    by_cases hnul : '\x00' ∈ escapeDollar r.ref
    · exact length_resolve_lost hnul h
    · rw [← Except.ok.inj ((resolveCode_empty hnul).symm.trans h)]
      exact Nat.zero_le _
  simp only [Reference.render, List.length_cons, List.length_append]
  omega

theorem expandEnv_fixed {src : Sources} (hsrc : src.NulFree) (hv : '\x00' ∉ v) (h : FixedText v) :
    expandEnv src v = v := by
  unfold expandEnv
  rw [substitute_eq_emit hsrc hv]
  split
  next => rfl
  next =>
    rcases h with ⟨hdouble, href⟩ | ⟨r, hr, hstuck⟩
    · rw [tokens_of_fixed hdouble href, emit_chars]
    · cases hout : emit ['$'] (resolveCode src) (tokens 0 v) with
      | error e => rfl
      | ok out =>
        obtain ⟨w, hw⟩ := piece_of_emit_eq_ok hout _ hr
        obtain ⟨e, he⟩ := resolveCode_stuck src hstuck
        cases hw.symm.trans he

/-- A run with every name empty makes a text no longer, and shorter where a token of it is not a
character. -/
theorem length_emit {out : Text} (hout : emit ['$'] (resolveCode emptySources) (tokens 0 v) = .ok out) :
    out.length ≤ v.length ∧ ((∃ t ∈ tokens 0 v, ∀ c, t ≠ .char c) → out.length < v.length) := by
  obtain ⟨hle, hlt⟩ := emit_length hout (emit_render v) fun t ht a b ha hb => by
    cases t with
    | dollar => cases ha; cases hb; decide
    | char c => cases ha; cases hb; exact Nat.le_refl _
    | ref r => cases hb; exact (length_resolveCode_lt ha).le
  refine ⟨hle, fun ⟨t, ht, hchar⟩ => hlt ⟨t, ht, fun a b ha hb => ?_⟩⟩
  cases t with
  | dollar => cases ha; cases hb; decide
  | char c => exact absurd rfl (hchar c)
  | ref r => cases hb; exact length_resolveCode_lt ha

theorem length_expandEnv_le (hv : '\x00' ∉ v) : (expandEnv emptySources v).length ≤ v.length := by
  unfold expandEnv
  rw [substitute_eq_emit nulFree_emptySources hv]
  split
  next => exact Nat.le_refl _
  next =>
    cases hout : emit ['$'] (resolveCode emptySources) (tokens 0 v) with
    | error e => exact Nat.le_refl _
    | ok out => exact (length_emit hout).1

/-- With every name empty a second run takes something off any other value. -/
theorem fixed_of_expandEnv (hv : '\x00' ∉ v) (h : expandEnv emptySources v = v) : FixedText v := by
  by_contra hnot
  obtain ⟨hchange, hstuck⟩ := not_or.mp hnot
  have hne : v ≠ [] := fun hnil => hchange (by simp [hnil, tokens, occurs, List.isPrefixOf])
  rw [expandEnv, if_neg hne, substitute_eq_emit nulFree_emptySources hv] at h
  cases hout : emit ['$'] (resolveCode emptySources) (tokens 0 v) with
  | error e =>
    -- only a reference without a default fails, and only with a NUL in its name
    obtain ⟨r, hr, he⟩ := emit_eq_error hout
    refine hstuck ⟨r, hr, ?_, ?_, (resolve_sample_error he).2⟩
    · intro hk
      unfold resolveCode resolveReference at he
      rw [hk] at he
      simp only at he
      split at he <;> cases he
    · refine Bool.eq_true_of_not_eq_false fun hsingle => ?_
      have hname : '\x00' ∉ escapeDollar r.ref := by
        rw [escapeDollar_of_single hsingle]
        exact nul_notMem_ref hv hr
      cases (resolveCode_empty hname).symm.trans he
  | ok out =>
    rw [hout] at h
    refine Nat.lt_irrefl out.length (Nat.lt_of_lt_of_eq ((length_emit hout).2 ?_) (congrArg _ h.symm))
    by_cases href : ∃ r, .ref r ∈ tokens 0 v
    · obtain ⟨r, hr⟩ := href
      exact ⟨_, hr, by simp⟩
    · refine ⟨.dollar, ?_, by simp⟩
      by_contra hdollar
      have hnone := not_exists.mp href
      exact hchange ⟨single_of_tokens hdollar hnone, hnone⟩

/-! ## The texts of a target -/

theorem headers_expand_eq_iff (hs : List (Text × Text)) :
    (hs.map fun h => (h.1, expandEnv src h.2)) = hs ↔ ∀ v ∈ hs.map Prod.snd, expandEnv src v = v := by
  induction hs with
  | nil => simp
  | cons h hs ih =>
    rw [List.map_cons, List.cons_eq_cons, ih, List.map_cons, List.forall_mem_cons]
    exact and_congr_left' ⟨fun heq => (Prod.mk.inj heq).2, fun heq => Prod.ext rfl heq⟩

theorem Transport.expand_eq_iff (t : Transport) :
    t.expand src = t ↔ ∀ v ∈ t.texts, expandEnv src v = v := by
  obtain ⟨endpoint, headers⟩ := t
  rw [Transport.expand, Transport.mk.injEq, Transport.texts, List.forall_mem_cons]
  refine and_congr_right' ?_
  cases headers with
  | none => simp
  | some hs => exact Option.some_inj.trans (headers_expand_eq_iff src hs)

theorem signals_expand_eq_iff (signals : List Signal) :
    (signals.map fun s => (⟨s.enabled, s.transport.expand src⟩ : Signal)) = signals ↔
      ∀ v ∈ signals.flatMap fun s => s.transport.texts, expandEnv src v = v := by
  induction signals with
  | nil => simp
  | cons s signals ih =>
    obtain ⟨enabled, transport⟩ := s
    rw [List.map_cons, List.cons_eq_cons, ih, List.flatMap_cons, List.forall_mem_append, Signal.mk.injEq,
      Transport.expand_eq_iff, eq_self_iff_true, true_and]

/-- The other texts come out of a second run as they are when each does. -/
theorem Target.expand_eq_iff (t : Target) :
    t.expand src = t ↔
      ((t.fallbackEndpoints.map fun s => expandEnv src (trimText s)).filter (· ≠ [])) =
          t.fallbackEndpoints ∧
        expandEnv src t.tenant = t.tenant ∧ (∀ v ∈ t.root.texts, expandEnv src v = v) ∧
          ∀ v ∈ t.signals.flatMap fun s => s.transport.texts, expandEnv src v = v := by
  obtain ⟨root, fallbackEndpoints, tenant, signals⟩ := t
  rw [Target.expand, Target.mk.injEq, Transport.expand_eq_iff, signals_expand_eq_iff]
  exact ⟨fun ⟨a, b, c, d⟩ => ⟨b, c, a, d⟩, fun ⟨b, c, a, d⟩ => ⟨a, b, c, d⟩⟩

theorem filter_map_eq_iff {α : Type} {f : α → α} {p : α → Bool} {l : List α} :
    (l.map f).filter p = l ↔ ∀ a ∈ l, f a = a ∧ p a = true := by
  constructor
  · intro h
    -- nothing is left out, for the lengths are the same
    have hall : ∀ b ∈ l.map f, p b = true := by
      rw [← List.length_filter_eq_length_iff, h, List.length_map]
    have hmap : l.map f = l := by rwa [List.filter_eq_self.mpr hall] at h
    intro a ha
    have hfa : f a = a := List.map_inj_left.mp (hmap.trans (List.map_id l).symm) a ha
    exact ⟨hfa, by simpa [hfa] using hall (f a) (List.mem_map_of_mem ha)⟩
  · intro h
    have hmap : l.map f = l :=
      (List.map_inj_left.mpr fun a ha => (h a ha).1).trans (List.map_id l)
    rw [hmap, List.filter_eq_self]
    exact fun a ha => (h a ha).2

theorem trimText_sublist (s : Text) : (trimText s).Sublist s := by
  unfold trimText
  rw [← List.reverse_sublist, List.reverse_reverse]
  exact (List.dropWhile_sublist _).trans (List.reverse_sublist.mpr (List.dropWhile_sublist _))

/-- With every name empty, an endpoint that comes out of the second run as it was loaded has no
spaces around it. -/
theorem fallback_of_expandEnv (hv : '\x00' ∉ v) (h : expandEnv emptySources (trimText v) = v) :
    trimText v = v ∧ FixedText v := by
  have hfree : '\x00' ∉ trimText v := fun hmem => hv ((trimText_sublist v).mem hmem)
  have hlength : v.length ≤ (trimText v).length := by
    have hle := length_expandEnv_le hfree
    rwa [h] at hle
  have htrim : trimText v = v := (trimText_sublist v).eq_of_length_le hlength
  rw [htrim] at h
  exact ⟨htrim, fixed_of_expandEnv hv h⟩

/-! ## The params -/

variable {params : Entries} {t : Target}

theorem jsonText_get? {key : String} {x : Value} (hparams : jsonEntries params = true)
    (h : get? key params = some x) : x.jsonText = true := by
  have hall : ∀ e ∈ params, e.2.jsonText = true := (walk_iff rfl fun _ _ => rfl).mp hparams
  exact hall _ (Lib.SortedMap.get?_mem h)

theorem jsonEntries_blockOf {o : Option Value} (h : ∀ x ∈ o, x.jsonText = true) :
    jsonEntries (blockOf o) = true := by
  cases o with
  | none => rfl
  | some x =>
    cases x with
    | map es => exact h _ rfl
    | _ => rfl

theorem nul_textAt (key : String) (hparams : jsonEntries params = true) : '\x00' ∉ textAt key params := by
  unfold textAt
  split
  next v hv => simpa [Value.jsonText] using jsonText_get? hparams hv
  next => exact List.not_mem_nil

theorem nul_textEntry {es : Entries} (hes : jsonEntries es = true) {v : Text}
    (hv : v ∈ (es.filterMap textEntry).map Prod.snd) : '\x00' ∉ v := by
  have hall : ∀ e ∈ es, e.2.jsonText = true := (walk_iff rfl fun _ _ => rfl).mp hes
  obtain ⟨h, hh, rfl⟩ := List.mem_map.mp hv
  obtain ⟨⟨k, x⟩, hx, htext⟩ := List.mem_filterMap.mp hh
  cases x with
  | str s =>
    rw [← Option.some.inj htext]
    simpa [Value.jsonText] using hall _ hx
  | _ => cases htext

theorem nul_readTransport (hparams : jsonEntries params = true) :
    ∀ v ∈ (readTransport params).texts, '\x00' ∉ v := by
  intro v hv
  rcases List.mem_cons.mp hv with rfl | hv
  · exact nul_textAt "endpoint" hparams
  · unfold readTransport readStringMap at hv
    split at hv
    next es hes => exact nul_textEntry (jsonText_get? hparams hes) hv
    next => cases hv

theorem nul_readTarget (hparams : jsonEntries params = true) (h : readTarget params = some t) :
    ∀ v ∈ t.texts, '\x00' ∉ v := by
  unfold readTarget at h
  obtain ⟨-, h⟩ := Option.ite_none_right_eq_some.mp h
  obtain rfl := Option.some.inj h
  have hblock (key : String) {m : Entries} (hm : jsonEntries m = true) :
      jsonEntries (blockOf (get? key m)) = true :=
    jsonEntries_blockOf fun x hx => jsonText_get? hm hx
  intro v hv
  simp only [Target.texts, List.mem_cons, List.mem_append, List.mem_flatMap] at hv
  rcases hv with rfl | (hv | hv) | ⟨s, hs, hv⟩
  · split
    next => exact nul_textAt "tenant" hparams
    next => exact nul_textAt "org_id" hparams
  · obtain ⟨x, hx, htext⟩ := List.mem_filterMap.mp hv
    unfold itemsOf at hx
    split at hx
    next items hitems =>
      have hall : ∀ x ∈ items, x.jsonText = true :=
        (walk_iff rfl fun _ _ => rfl).mp (jsonText_get? hparams hitems)
      cases x with
      | str s =>
        rw [← Option.some.inj htext]
        simpa [Value.jsonText] using hall _ hx
      | _ => cases htext
    next => cases hx
  · exact nul_readTransport hparams v hv
  · have hsignals := hblock "signals" hparams
    simp only [List.not_mem_nil, or_false] at hs
    rcases hs with rfl | rfl | rfl <;> exact nul_readTransport (hblock _ hsignals) v hv

theorem parseConfig_eq_iff {toLower : Text → Text} {src : Sources} (ht : readTarget params = some t) :
    parseConfig toLower src params = some t ↔ t.accepted toLower = true ∧ t.expand src = t := by
  rw [parseConfig, ht, Option.bind_some, Option.ite_none_right_eq_some, Option.some_inj]
  constructor
  · rintro ⟨haccepted, heq⟩
    exact ⟨heq ▸ haccepted, heq⟩
  · rintro ⟨haccepted, heq⟩
    exact ⟨heq.symm ▸ haccepted, heq⟩

/-- **The exporters get the texts as they were loaded**, whatever the params were written as and their
references resolved to, exactly when the texts are accepted as they are, each holds no `$$` and no
reference, or a reference that never resolves, and no fallback endpoint is empty or has spaces around
it. -/
theorem config_as_loaded_iff (toLower : Text → Text) (params : Entries) (t : Target)
    (hparams : jsonEntries params = true) (ht : readTarget params = some t) :
    (∀ src : Sources, src.NulFree → ∀ raw, substituteEntries src raw = .ok params →
        parseConfig toLower src params = some t) ↔
      t.accepted toLower = true ∧ (∀ v ∈ t.texts, FixedText v) ∧
        ∀ v ∈ t.fallbackEndpoints, v ≠ [] ∧ trimText v = v := by
  have hfree := nul_readTarget hparams ht
  simp only [Target.texts, List.forall_mem_cons, List.forall_mem_append] at hfree ⊢
  obtain ⟨htenant, ⟨hfallback, hroot⟩, hsignals⟩ := hfree
  constructor
  · intro h
    -- any params can be what a configuration is resolved to
    obtain ⟨haccepted, hsame⟩ := (parseConfig_eq_iff ht).mp
      (h emptySources nulFree_emptySources _ (substituteEntries_escapeEntries emptySources params hparams))
    obtain ⟨hends, hten, hrt, hsig⟩ := (Target.expand_eq_iff _ t).mp hsame
    have hends := filter_map_eq_iff.mp hends
    have hfixed (v : Text) (hv : v ∈ t.fallbackEndpoints) :=
      fallback_of_expandEnv (hfallback v hv) (hends v hv).1
    refine ⟨haccepted, ⟨fixed_of_expandEnv htenant hten, ⟨fun v hv => (hfixed v hv).2, fun v hv =>
      fixed_of_expandEnv (hroot v hv) (hrt v hv)⟩, fun v hv =>
      fixed_of_expandEnv (hsignals v hv) (hsig v hv)⟩, fun v hv => ⟨?_, (hfixed v hv).1⟩⟩
    simpa using (hends v hv).2
  · rintro ⟨haccepted, ⟨hten, ⟨hends, hrt⟩, hsig⟩, hplain⟩ src hsrc raw -
    refine (parseConfig_eq_iff ht).mpr ⟨haccepted, (Target.expand_eq_iff _ t).mpr
      ⟨filter_map_eq_iff.mpr fun v hv => ⟨?_, by simpa using (hplain v hv).1⟩,
        expandEnv_fixed hsrc htenant hten, fun v hv => expandEnv_fixed hsrc (hroot v hv) (hrt v hv),
        fun v hv => expandEnv_fixed hsrc (hsignals v hv) (hsig v hv)⟩⟩
    rw [(hplain v hv).2]
    exact expandEnv_fixed hsrc (hfallback v hv) (hends v hv)

/-- An output with one header and a fallback endpoint. -/
def tokenParams (header : String) : Entries :=
  [("endpoint", .str "h:1"), ("fallback_endpoints", .list [.str "b:1"]),
    ("headers", .map [("Authorization", .str header)])]

def tokenTarget (header : Text) : Target where
  root := ⟨"h:1".toList, some [("Authorization".toList, header)]⟩
  fallbackEndpoints := ["b:1".toList]
  tenant := []
  signals := [⟨true, [], none⟩, ⟨true, [], none⟩, ⟨false, [], none⟩]

theorem config_as_loaded_dollar :
    parseConfig (·.map Char.toLower) emptySources (tokenParams "a$b") =
      some (tokenTarget "a$b".toList) := by
  have hfixed : ∀ v ∈ (tokenTarget "a$b".toList).texts, FixedText v := by
    intro v hv
    have htokens : occurs ['$', '$'] v = false ∧ tokens 0 v = v.map .char := by
      revert v
      decide +kernel
    exact .inl ⟨htokens.1, fun r hr => by simp [htokens.2] at hr⟩
  have hjson : jsonEntries (tokenParams "a$b") = true := by decide +kernel
  exact (config_as_loaded_iff _ _ _ hjson (by decide +kernel)).mpr
    ⟨by decide +kernel, hfixed, by decide +kernel⟩ _ nulFree_emptySources _
    (substituteEntries_escapeEntries emptySources _ hjson)

/-- A secret of two dollars is loaded as it is and exported with one. -/
theorem header_loses_dollar :
    substituteEntries (sample (fun _ _ => false) ['$', '$']) (tokenParams "$\x7bsecret:t\x7d") =
        .ok (tokenParams "$$") ∧
      parseConfig (·.map Char.toLower) (sample (fun _ _ => false) ['$', '$']) (tokenParams "$$") =
        some (tokenTarget ['$']) := by
  constructor
  · rfl
  · decide +kernel

end SenhubAgent.Otlp

import SenhubAgent.Lib.Delimited
import SenhubAgent.Lib.Text

/-!
# Nagios performance data

`parseNagiosPerfdata` reads what follows the first `|` of a check's output: tokens
`'label'=value[UOM][;warn[;crit[;min[;max]]]]` between blanks, the quotes optional. A label becomes
part of a metric name (`metricName`).

`Token` is a token of the plugin guidelines, `Token.render` its text: a quote inside a quoted label is
doubled. The tokens of a well-formed line are found again (`splitPerfTokens_joined`), and each is read
as what it says unless its label has a quote, which ends the label early, or its unit begins with
`e`, which is taken for an exponent (`parsePerfToken_render`).

Mirroring notes:
- Texts are lists of characters; the bytes the source looks for are all ASCII.
- `strconv.ParseFloat` is its decimal syntax (`floatSyntax`; the characters it is given allow no
  other) and a parameter that rounds, `none` where the number is out of range.
- `strings.ToLower` is a parameter.
-/

namespace SenhubAgent.ExecProbe

open SenhubAgent.Lib

structure CheckMetric where
  name : Text
  value : Float
  /-- `otelType`: a counter or a gauge -/
  counter : Bool

section

variable (toLower : Text → Text) (rounded : Text → Option Float)

/-! ## Names -/

def nameChar (r : Char) : Char :=
  if ('a' ≤ r ∧ r ≤ 'z') ∨ ('0' ≤ r ∧ r ≤ '9') ∨ r = '.' ∨ r = '_' then r else '_'

/-- `strings.Trim(s, "_.")` -/
def trimMarks (s : Text) : Text :=
  let isMark : Char → Bool := fun c => c == '_' || c == '.'
  ((s.dropWhile isMark).reverse.dropWhile isMark).reverse

/-- What a label leaves: nothing is left of labels like `/`. -/
def trimmedLabel (label : Text) : Text :=
  let trimmed := trimMarks ((toLower label).map nameChar)
  if trimmed = [] then "perfdata".toList else trimmed

def metricName (label : Text) : Text := "senhub.exec.".toList ++ trimmedLabel toLower label

/-! ## Numbers and units -/

def isNumberChar (r : Char) : Bool :=
  r.isDigit || r == '.' || r == '-' || r == '+' || r == 'e' || r == 'E'

def dropSign : Text → Text
  | '+' :: s => s
  | '-' :: s => s
  | s => s

def isExponentChar (c : Char) : Bool := c == 'e' || c == 'E'

/-- The decimal floating-point syntax of `strconv.ParseFloat`. -/
def floatSyntax (s : Text) : Bool :=
  let body := dropSign s
  let mantissa := body.takeWhile fun c => !isExponentChar c
  let exponent := match body.dropWhile fun c => !isExponentChar c with
    | [] => true
    | _ :: exp => dropSign exp != [] && (dropSign exp).all Char.isDigit
  mantissa.any Char.isDigit && mantissa.all (fun c => c.isDigit || c == '.')
    && decide (mantissa.count '.' ≤ 1) && exponent

def parseFloat (s : Text) : Option Float := if floatSyntax s then rounded s else none

/-- The unit's scale; an unknown unit keeps the raw value. -/
def normalize (uom : Text) (value : Float) : Float :=
  let unit := toLower uom
  if unit = "ms".toList then value * 1e-3
  else if unit = "us".toList then value * 1e-6
  else if unit = "kb".toList then value * 1024
  else if unit = "mb".toList then value * (1024 * 1024)
  else if unit = "gb".toList then value * (1024 * 1024 * 1024)
  else if unit = "tb".toList then value * (1024 * 1024 * 1024 * 1024)
  else value

/-! ## The parser -/

def isBlank (r : Char) : Bool := r == ' ' || r == '\n' || r == '\t' || r == '\r'

/-- The loop of `splitPerfTokens`, with the token read so far. -/
def splitFrom : Bool → Text → Text → List Text
  | _, b, [] => if b = [] then [] else [b]
  | inQuote, b, r :: rest =>
    if r = '\'' then splitFrom (!inQuote) (b ++ [r]) rest
    else if isBlank r && !inQuote then
      if b = [] then splitFrom inQuote [] rest else b :: splitFrom inQuote [] rest
    else splitFrom inQuote (b ++ [r]) rest

def splitPerfTokens (perf : Text) : List Text := splitFrom false [] perf

/-- The label and what follows it. -/
def cutLabel (token : Text) : Option (Text × Text) :=
  match token with
  | '\'' :: quoted => (cut '\'' quoted).2.map fun rest => ((cut '\'' quoted).1, rest)
  | _ => (cut '=' token).2.map fun rest => ((cut '=' token).1, '=' :: rest)

def parsePerfToken (token : Text) : Option CheckMetric :=
  match cutLabel token with
  | none => none
  | some (label, rest) =>
    match label, rest with
    | _ :: _, '=' :: fields =>
      let valueField := (cut ';' fields).1
      let uom := valueField.dropWhile isNumberChar
      (parseFloat rounded (valueField.takeWhile isNumberChar)).map fun value =>
        { name := metricName toLower label
          value := normalize toLower uom value
          counter := toLower uom == "c".toList }
    | _, _ => none

def parseNagiosPerfdata (out : Text) : List CheckMetric :=
  match (cut '|' out).2 with
  | none => []
  | some perf => (splitPerfTokens (trimText perf)).filterMap (parsePerfToken toLower rounded)

/-! ## Tokens of the guidelines -/

structure Token where
  label : Text
  quoted : Bool
  number : Text
  unit : Text
  limits : List Text

/-- No quote, and nothing that ends a token. -/
def plainChar (c : Char) : Bool := c != '\'' && !isSpace c

structure Token.WellFormed (t : Token) : Prop where
  label_ne : t.label ≠ []
  /-- a label without quotes around it -/
  free : t.quoted = false → ∀ c ∈ t.label, plainChar c = true ∧ c ≠ '='
  number : ∀ c ∈ t.number, c.isDigit = true ∨ c = '.' ∨ c = '-' ∨ c = '+'
  reads : (parseFloat rounded t.number).isSome
  unit : ∀ c ∈ t.unit, plainChar c = true ∧ c.isDigit = false ∧ c ≠ ';'
  /-- the value ends where the unit begins -/
  unitStart : ∀ c, t.unit.head? = some c → c ≠ '.' ∧ c ≠ '-' ∧ c ≠ '+'
  limits : ∀ limit ∈ t.limits, ∀ c ∈ limit, plainChar c = true

def double (label : Text) : Text := label.flatMap fun c => if c = '\'' then ['\'', '\''] else [c]

def Token.labelText (t : Token) : Text :=
  if t.quoted then '\'' :: double t.label ++ ['\''] else t.label

def Token.fields (t : Token) : Text := t.number ++ t.unit ++ t.limits.flatMap fun l => ';' :: l

def Token.render (t : Token) : Text := t.labelText ++ '=' :: t.fields

/-- The metric a token stands for. -/
def Token.metric (t : Token) : CheckMetric where
  name := metricName toLower t.label
  value := normalize toLower t.unit ((parseFloat rounded t.number).getD 0)
  counter := toLower t.unit == "c".toList

/-- The label has no quote, and the unit does not look like an exponent. -/
def Token.Readable (t : Token) : Bool :=
  !t.label.contains '\'' && !(t.unit.head?.any isExponentChar)

/-! ## The tokens are found again -/

variable {sep c : Char} {a s label : Text} {t : Token} {tokens : List Token}

theorem cut_of_notMem {b : Text} (h : sep ∉ a) : cut sep (a ++ sep :: b) = (a, some b) := by
  have hrun : ∀ c ∈ a, (c != sep) = true := fun c hc => by
    simpa using fun he : c = sep => h (he ▸ hc)
  have hstop : StopsAt (fun c => c != sep) (sep :: b) := stopsAt_cons (by simp) b
  obtain ⟨htake, hdrop⟩ := takeWhile_of_stopsAt hrun hstop
  unfold cut
  rw [hdrop, htake]

theorem cut_none (h : sep ∉ a) : cut sep a = (a, none) := by
  have hdrop : a.dropWhile (· != sep) = [] := by
    rw [List.dropWhile_eq_nil_iff]
    intro c hc
    simpa using fun he : c = sep => h (he ▸ hc)
  unfold cut
  rw [hdrop]

theorem plainChar_split (h : plainChar c = true) : c ≠ '\'' ∧ isBlank c = false := by
  simp only [plainChar, Bool.and_eq_true, bne_iff_ne, Bool.not_eq_true'] at h
  refine ⟨h.1, Bool.eq_false_iff.mpr fun hblank => ?_⟩
  simp only [isBlank, Bool.or_eq_true, beq_iff_eq] at hblank
  rcases hblank with ((rfl | rfl) | rfl) | rfl <;> exact absurd h.2 (by decide)

theorem splitFrom_plain (inQuote : Bool) (rest : Text) : ∀ (w b : Text),
    (∀ c ∈ w, plainChar c = true) → splitFrom inQuote b (w ++ rest) = splitFrom inQuote (b ++ w) rest := by
  intro w
  induction w with
  | nil => intro b _; rw [List.append_nil, List.nil_append]
  | cons c w ih =>
    intro b hw
    obtain ⟨hquote, hblank⟩ := plainChar_split (hw c List.mem_cons_self)
    rw [List.cons_append, splitFrom, if_neg hquote, hblank, Bool.false_and, if_neg Bool.false_ne_true,
      ih _ fun c' hc' => hw c' (List.mem_cons_of_mem _ hc'), List.append_assoc]
    rfl

/-- Inside quotes a doubled quote ends the quotation and opens it again. -/
theorem splitFrom_double (rest : Text) : ∀ (label b : Text),
    splitFrom true b (double label ++ rest) = splitFrom true (b ++ double label) rest := by
  intro label
  induction label with
  | nil => intro b; simp [double]
  | cons c label ih =>
    intro b
    unfold double at ih ⊢
    by_cases hc : c = '\''
    · subst hc
      simp only [List.flatMap_cons, if_true, List.cons_append, List.nil_append]
      rw [splitFrom, if_pos rfl, splitFrom, if_pos rfl, Bool.not_true, Bool.not_false, ih]
      simp
    · simp only [List.flatMap_cons, hc, if_false, List.cons_append, List.nil_append]
      rw [splitFrom, if_neg hc, Bool.not_true, Bool.and_false, if_neg Bool.false_ne_true, ih]
      simp

variable {rounded}

theorem Token.WellFormed.number_plain (h : t.WellFormed rounded) (hc : c ∈ t.number) :
    plainChar c = true := by
  rcases h.number c hc with hdigit | rfl | rfl | rfl
  · have hcode : 48 ≤ c.toNat ∧ c.toNat ≤ 57 := Char.isDigit_iff_toNat.mp hdigit
    have hquote : c ≠ '\'' := by
      rintro rfl
      exact absurd hdigit (by decide)
    have hspace : isSpace c = false := by
      simp only [isSpace, Bool.or_eq_false_iff, Bool.and_eq_false_iff, decide_eq_false_iff_not,
        beq_eq_false_iff_ne]
      omega
    simp [plainChar, hquote, hspace]
  · decide
  · decide
  · decide

theorem Token.WellFormed.fields_plain (h : t.WellFormed rounded) :
    ∀ c ∈ '=' :: t.fields, plainChar c = true := by
  intro c hc
  simp only [Token.fields, List.mem_cons, List.mem_append, List.mem_flatMap] at hc
  rcases hc with rfl | (hnumber | hunit) | ⟨limit, hlimit, rfl | hc⟩
  · decide
  · exact h.number_plain hnumber
  · exact (h.unit c hunit).1
  · decide
  · exact h.limits limit hlimit c hc

theorem splitFrom_render (h : t.WellFormed rounded) (b rest : Text) :
    splitFrom false b (t.render ++ rest) = splitFrom false (b ++ t.render) rest := by
  have hlabel : ∀ more, splitFrom false b (t.labelText ++ more) = splitFrom false (b ++ t.labelText) more := by
    intro more
    unfold Token.labelText
    cases hquoted : t.quoted with
    | false => exact splitFrom_plain false more _ _ fun c hc => (h.free hquoted c hc).1
    | true =>
      simp only [if_true, List.cons_append, List.append_assoc]
      rw [splitFrom, if_pos rfl, Bool.not_false, splitFrom_double, splitFrom, if_pos rfl]
      simp
  unfold Token.render
  rw [List.append_assoc, hlabel, splitFrom_plain false rest _ _ h.fields_plain, List.append_assoc]

/-- A line of tokens. -/
def joined (tokens : List Token) : Text := [' '].intercalate (tokens.map Token.render)

theorem joined_cons_cons (t t' : Token) (tokens : List Token) :
    joined (t :: t' :: tokens) = t.render ++ ' ' :: joined (t' :: tokens) := by
  simp [joined, List.intercalate_cons_cons]

theorem splitPerfTokens_joined : ∀ {tokens : List Token}, (∀ t ∈ tokens, t.WellFormed rounded) →
    splitPerfTokens (joined tokens) = tokens.map Token.render := by
  intro tokens
  unfold splitPerfTokens
  induction tokens with
  | nil => intro _; rfl
  | cons t tokens ih =>
    intro h
    have hne : t.render ≠ [] := by simp [Token.render]
    have ht := h t List.mem_cons_self
    cases tokens with
    | nil =>
      have hsplit := splitFrom_render ht [] []
      rw [List.append_nil, List.nil_append, splitFrom, if_neg hne] at hsplit
      simpa [joined] using hsplit
    | cons t' tokens =>
      rw [joined_cons_cons, splitFrom_render ht, List.nil_append, splitFrom, if_neg (by decide),
        if_pos (by decide), if_neg hne, ih fun t'' ht'' => h t'' (List.mem_cons_of_mem _ ht'')]
      rfl

/-! ## Nothing is trimmed off a line of tokens -/

theorem dropWhile_of_stopsAt {p : Char → Bool} (h : StopsAt p s) : s.dropWhile p = s := by
  cases s with
  | nil => rfl
  | cons c s => exact List.dropWhile_cons_of_neg (by rw [h c rfl]; exact Bool.false_ne_true)

theorem trimText_of_stopsAt (hfirst : StopsAt isSpace s) (hlast : StopsAt isSpace s.reverse) :
    trimText s = s := by
  unfold trimText
  rw [dropWhile_of_stopsAt hfirst, dropWhile_of_stopsAt hlast, List.reverse_reverse]

theorem Token.WellFormed.labelText_first (h : t.WellFormed rounded) (rest : Text) :
    StopsAt isSpace (t.labelText ++ rest) := by
  unfold Token.labelText
  cases hquoted : t.quoted with
  | true => exact stopsAt_cons (by decide) _
  | false =>
    cases hlabel : t.label with
    | nil => exact absurd hlabel h.label_ne
    | cons c label =>
      have hc := (h.free hquoted c (hlabel ▸ List.mem_cons_self)).1
      simp only [plainChar, Bool.and_eq_true, Bool.not_eq_true'] at hc
      exact stopsAt_cons hc.2 _

/-- The line ends with the fields of a token. -/
theorem exists_last_fields : ∀ {tokens : List Token}, tokens ≠ [] →
    ∃ t ∈ tokens, ∃ front, joined tokens = front ++ '=' :: t.fields := by
  intro tokens
  induction tokens with
  | nil => intro h; exact absurd rfl h
  | cons t tokens ih =>
    intro _
    cases tokens with
    | nil => exact ⟨t, List.mem_cons_self, t.labelText, by simp [joined, Token.render]⟩
    | cons t' tokens =>
      obtain ⟨last, hlast, front, hfront⟩ := ih (List.cons_ne_nil _ _)
      refine ⟨last, List.mem_cons_of_mem _ hlast, t.render ++ ' ' :: front, ?_⟩
      rw [joined_cons_cons, hfront]
      simp

theorem trimText_joined (h : ∀ t ∈ tokens, t.WellFormed rounded) :
    trimText (joined tokens) = joined tokens := by
  cases tokens with
  | nil => rfl
  | cons t tokens =>
    apply trimText_of_stopsAt
    · have hstart : ∃ rest, joined (t :: tokens) = t.labelText ++ rest := by
        cases tokens with
        | nil => exact ⟨'=' :: t.fields, by simp [joined, Token.render]⟩
        | cons t' tokens =>
          rw [joined_cons_cons, Token.render, List.append_assoc]
          exact ⟨_, rfl⟩
      obtain ⟨rest, hrest⟩ := hstart
      rw [hrest]
      exact (h t List.mem_cons_self).labelText_first rest
    · obtain ⟨last, hlast, front, hfront⟩ := exists_last_fields (List.cons_ne_nil t tokens)
      have hplain : ∀ c ∈ ('=' :: last.fields).reverse, plainChar c = true := fun c hc =>
        (h last hlast).fields_plain c (List.mem_reverse.mp hc)
      rw [hfront, List.reverse_append]
      cases hreverse : ('=' :: last.fields).reverse with
      | nil => simp at hreverse
      | cons c rest =>
        have hc := hplain c (hreverse ▸ List.mem_cons_self)
        simp only [plainChar, Bool.and_eq_true, Bool.not_eq_true'] at hc
        exact stopsAt_cons hc.2 _

/-! ## What is read of one token -/

theorem double_eq (h : '\'' ∉ label) : double label = label := by
  unfold double
  induction label with
  | nil => rfl
  | cons c label ih =>
    have hc : c ≠ '\'' := fun he => h (he ▸ List.mem_cons_self)
    rw [List.flatMap_cons, if_neg hc, ih fun hmem => h (List.mem_cons_of_mem _ hmem)]
    rfl

theorem cutLabel_free (h : t.WellFormed rounded) (hquoted : t.quoted = false) :
    cutLabel t.render = some (t.label, '=' :: t.fields) := by
  have hequals : '=' ∉ t.label := fun hmem => (h.free hquoted _ hmem).2 rfl
  have hcut := cut_of_notMem (b := t.fields) hequals
  unfold Token.render Token.labelText cutLabel
  simp only [hquoted, Bool.false_eq_true, if_false]
  cases hlabel : t.label with
  | nil => exact absurd hlabel h.label_ne
  | cons c label =>
    have hc : c ≠ '\'' := (plainChar_split (h.free hquoted c (hlabel ▸ List.mem_cons_self)).1).1
    rw [hlabel] at hcut
    split
    next he => exact absurd (List.cons.inj he).1 hc
    next => simp only [hcut, Option.map_some]

theorem cutLabel_quoted (hquoted : t.quoted = true) (hquote : '\'' ∉ t.label) :
    cutLabel t.render = some (t.label, '=' :: t.fields) := by
  have hcut := cut_of_notMem (b := '=' :: t.fields) hquote
  have hrender : t.render = '\'' :: (t.label ++ '\'' :: '=' :: t.fields) := by
    simp [Token.render, Token.labelText, hquoted, double_eq hquote]
  rw [hrender]
  simp only [cutLabel, hcut, Option.map_some]

/-- A quote inside ends the label there; what follows is its other half. -/
theorem cutLabel_inner (hquoted : t.quoted = true) (hquote : '\'' ∈ t.label) :
    ∃ label rest, cutLabel t.render = some (label, '\'' :: rest) := by
  obtain ⟨a, b, hlabel, ha⟩ := List.eq_append_cons_of_mem hquote
  refine ⟨a, double b ++ '\'' :: '=' :: t.fields, ?_⟩
  have hdouble : double t.label = a ++ '\'' :: '\'' :: double b := by
    rw [hlabel]
    have ha' := double_eq ha
    unfold double at ha' ⊢
    rw [List.flatMap_append, ha', List.flatMap_cons, if_pos rfl]
    rfl
  have hcut := cut_of_notMem (b := '\'' :: (double b ++ '\'' :: '=' :: t.fields)) ha
  have hrender : t.render = '\'' :: (a ++ '\'' :: '\'' :: (double b ++ '\'' :: '=' :: t.fields)) := by
    simp [Token.render, Token.labelText, hquoted, hdouble]
  rw [hrender]
  simp only [cutLabel, hcut, Option.map_some]

theorem valueField_eq (h : t.WellFormed rounded) : (cut ';' t.fields).1 = t.number ++ t.unit := by
  have hnot : ';' ∉ t.number ++ t.unit := by
    intro hmem
    rcases List.mem_append.mp hmem with hnumber | hunit
    · exact absurd (h.number _ hnumber) (by decide)
    · exact (h.unit _ hunit).2.2 rfl
  unfold Token.fields
  cases t.limits with
  | nil => simp [cut_none hnot]
  | cons limit limits =>
    rw [List.flatMap_cons, List.cons_append, cut_of_notMem hnot]

theorem dropSign_append (h : s ≠ []) (rest : Text) : dropSign (s ++ rest) = dropSign s ++ rest := by
  cases s with
  | nil => exact absurd rfl h
  | cons c s =>
    by_cases hplus : c = '+'
    · subst hplus; rfl
    · by_cases hminus : c = '-'
      · subst hminus; rfl
      · simp [dropSign, hplus, hminus]

theorem dropSign_subset (s : Text) : ∀ c ∈ dropSign s, c ∈ s := by
  intro c hc
  unfold dropSign at hc
  split at hc
  · exact List.mem_cons_of_mem _ hc
  · exact List.mem_cons_of_mem _ hc
  · exact hc

/-- An exponent letter wants a digit after it. -/
theorem floatSyntax_exponent {number more : Text} (hne : number ≠ [])
    (hnumber : ∀ d ∈ number, isExponentChar d = false) (hc : isExponentChar c = true)
    (hmore : ∀ d ∈ more, d.isDigit = false) : floatSyntax (number ++ c :: more) = false := by
  have hrun : ∀ d ∈ dropSign number, (!isExponentChar d) = true := fun d hd => by
    rw [hnumber d (dropSign_subset _ _ hd)]
    rfl
  have hstop : StopsAt (fun c => !isExponentChar c) (c :: more) := stopsAt_cons (by simp [hc]) more
  have hdrop := (takeWhile_of_stopsAt hrun hstop).2
  unfold floatSyntax
  simp only [dropSign_append hne, hdrop]
  have hexponent : (dropSign more != [] && (dropSign more).all Char.isDigit) = false := by
    cases hdigits : dropSign more with
    | nil => rfl
    | cons d digits =>
      have hd := hmore d (dropSign_subset _ _ (hdigits ▸ List.mem_cons_self))
      simp [hd]
  rw [hexponent, Bool.and_false]

section

variable (h : t.WellFormed rounded)

include h

theorem Token.WellFormed.number_chars (hc : c ∈ t.number) :
    isNumberChar c = true ∧ isExponentChar c = false := by
  rcases h.number c hc with hdigit | rfl | rfl | rfl
  · have hexponent : isExponentChar c = false := by
      simp only [isExponentChar, Bool.or_eq_false_iff, beq_eq_false_iff_ne]
      constructor <;> rintro rfl <;> exact absurd hdigit (by decide)
    exact ⟨by simp [isNumberChar, hdigit], hexponent⟩
  · decide
  · decide
  · decide

theorem Token.WellFormed.number_ne : t.number ≠ [] := by
  intro hempty
  have hreads := h.reads
  rw [hempty] at hreads
  exact absurd hreads (by simp [parseFloat, floatSyntax, dropSign])

theorem isNumberChar_unit (hc : t.unit.head? = some c) : isNumberChar c = isExponentChar c := by
  obtain ⟨hdot, hminus, hplus⟩ := h.unitStart c hc
  have hdigit := (h.unit c (List.mem_of_head? hc)).2.1
  simp only [isNumberChar, isExponentChar, hdigit, beq_false_of_ne hdot, beq_false_of_ne hminus,
    beq_false_of_ne hplus, Bool.false_or]

/-- A unit that begins with `e` is read into the number, and spoils it. -/
theorem parseFloat_field :
    (t.unit.head?.any isExponentChar = false →
      (t.number ++ t.unit).takeWhile isNumberChar = t.number ∧
        (t.number ++ t.unit).dropWhile isNumberChar = t.unit) ∧
    (t.unit.head?.any isExponentChar = true →
      parseFloat rounded ((t.number ++ t.unit).takeWhile isNumberChar) = none) := by
  have hrun : ∀ c ∈ t.number, isNumberChar c = true := fun c hc => (h.number_chars hc).1
  refine ⟨fun hplain => takeWhile_of_stopsAt hrun fun c hc => ?_, fun hexponent => ?_⟩
  · rw [isNumberChar_unit h hc]
    rw [hc] at hplain
    exact hplain
  · cases hunit : t.unit with
    | nil => rw [hunit] at hexponent; cases hexponent
    | cons c unit =>
      have hc : isExponentChar c = true := by
        rw [hunit] at hexponent
        exact hexponent
      have hnumber : isNumberChar c = true := by
        rw [isNumberChar_unit h (by rw [hunit]; rfl), hc]
      have hmore : ∀ d ∈ unit.takeWhile isNumberChar, d.isDigit = false := by
        intro d hd
        refine (h.unit d ?_).2.1
        rw [hunit]
        exact List.mem_cons_of_mem _ ((List.takeWhile_prefix _).subset hd)
      rw [List.takeWhile_append_of_pos hrun, List.takeWhile_cons_of_pos hnumber]
      unfold parseFloat
      rw [floatSyntax_exponent h.number_ne (fun d hd => (h.number_chars hd).2) hc hmore]
      rfl

theorem parsePerfToken_cut (hcut : cutLabel t.render = some (t.label, '=' :: t.fields)) :
    parsePerfToken toLower rounded t.render
      = if t.unit.head?.any isExponentChar then none else some (t.metric toLower rounded) := by
  obtain ⟨hplain, hexponent⟩ := parseFloat_field h
  unfold parsePerfToken
  rw [hcut]
  cases hlabel : t.label with
  | nil => exact absurd hlabel h.label_ne
  | cons c label =>
    simp only [valueField_eq h]
    cases hunit : t.unit.head?.any isExponentChar with
    | true =>
      rw [hexponent hunit]
      rfl
    | false =>
      obtain ⟨value, hvalue⟩ := Option.isSome_iff_exists.mp h.reads
      rw [(hplain hunit).1, (hplain hunit).2, hvalue]
      simp only [Option.map_some, Bool.false_eq_true, if_false, Token.metric, hlabel, hvalue,
        Option.getD_some]

/-- What is read of one token. -/
theorem parsePerfToken_render :
    parsePerfToken toLower rounded t.render
      = if t.Readable then some (t.metric toLower rounded) else none := by
  unfold Token.Readable
  by_cases hquote : '\'' ∈ t.label
  · have hquoted : t.quoted = true := by
      by_contra hfree
      have hc := h.free (Bool.eq_false_iff.mpr hfree) _ hquote
      exact absurd hc.1 (by decide)
    obtain ⟨label, rest, hcut⟩ := cutLabel_inner hquoted hquote
    have hnone : parsePerfToken toLower rounded t.render = none := by
      unfold parsePerfToken
      rw [hcut]
      cases label <;> rfl
    simp [hnone, hquote]
  · have hcut : cutLabel t.render = some (t.label, '=' :: t.fields) := by
      cases hquoted : t.quoted with
      | false => exact cutLabel_free h hquoted
      | true => exact cutLabel_quoted hquoted hquote
    rw [parsePerfToken_cut toLower h hcut]
    cases t.unit.head?.any isExponentChar <;> simp [hquote]

end

/-! ## A whole line -/

theorem parseNagiosPerfdata_joined {status : Text} (hstatus : '|' ∉ status)
    (h : ∀ t ∈ tokens, t.WellFormed rounded) :
    parseNagiosPerfdata toLower rounded (status ++ '|' :: joined tokens)
      = (tokens.filter Token.Readable).map (Token.metric toLower rounded) := by
  unfold parseNagiosPerfdata
  simp only [cut_of_notMem hstatus, trimText_joined h, splitPerfTokens_joined h]
  rw [List.filterMap_map, ← List.filterMap_eq_map, ← List.filterMap_eq_filter, List.filterMap_filterMap]
  refine List.filterMap_congr fun t ht => ?_
  rw [Function.comp_apply, parsePerfToken_render toLower (h t ht)]
  by_cases hreadable : t.Readable = true <;> simp [hreadable, Option.guard]

theorem metricName_inj {label' : Text} : metricName toLower label = metricName toLower label' ↔
    trimmedLabel toLower label = trimmedLabel toLower label' := by
  exact List.append_right_inj _

/-- **When a line of performance data is read as it says**: exactly when no label holds a quote,
no unit begins with `e`, and no two of its labels come to the same once they are lower-cased, the
characters outside `a-z 0-9 . _` replaced, and the marks at either end trimmed. -/
theorem perfdata_read_iff {status : Text} (hstatus : '|' ∉ status) {tokens : List Token}
    (h : ∀ t ∈ tokens, t.WellFormed rounded) :
    (parseNagiosPerfdata toLower rounded (status ++ '|' :: joined tokens)
        = tokens.map (Token.metric toLower rounded) ∧
      ∀ t ∈ tokens, ∀ t' ∈ tokens, t.label ≠ t'.label →
        (t.metric toLower rounded).name ≠ (t'.metric toLower rounded).name) ↔
    (∀ t ∈ tokens, '\'' ∉ t.label ∧ ∀ c, t.unit.head? = some c → c ≠ 'e' ∧ c ≠ 'E') ∧
      ∀ t ∈ tokens, ∀ t' ∈ tokens, t.label ≠ t'.label →
        trimmedLabel toLower t.label ≠ trimmedLabel toLower t'.label := by
  have hreadable : ∀ t : Token, t.Readable = true ↔
      '\'' ∉ t.label ∧ ∀ c, t.unit.head? = some c → c ≠ 'e' ∧ c ≠ 'E' := by
    intro t
    unfold Token.Readable
    cases t.unit.head? <;> simp [isExponentChar]
  rw [parseNagiosPerfdata_joined toLower hstatus h]
  refine and_congr ⟨fun hall t ht => ?_, fun hall => ?_⟩ ?_
  · have hlength := congrArg List.length hall
    rw [List.length_map, List.length_map] at hlength
    exact (hreadable t).mp (List.length_filter_eq_length_iff.mp hlength t ht)
  · rw [List.filter_eq_self.mpr fun t ht => (hreadable t).mpr (hall t ht)]
  · refine forall₂_congr fun t _ => forall₂_congr fun t' _ => imp_congr_right fun _ => not_congr ?_
    exact metricName_inj toLower

end

/-! ## Lines that are read, and lines that are not -/

/-- A token with the value one. -/
def oneToken (label : String) (quoted : Bool) (unit : String) : Token :=
  ⟨label.toList, quoted, "1".toList, unit.toList, []⟩

def alwaysOne : Text → Option Float := fun _ => some 1

theorem oneToken_wellFormed {label : String} {quoted : Bool} {unit : String}
    (hlabel : label.toList ≠ [])
    (hfree : quoted = false → ∀ c ∈ label.toList, plainChar c = true ∧ c ≠ '=')
    (hunit : ∀ c ∈ unit.toList, plainChar c = true ∧ c.isDigit = false ∧ c ≠ ';')
    (hstart : ∀ c, unit.toList.head? = some c → c ≠ '.' ∧ c ≠ '-' ∧ c ≠ '+') :
    (oneToken label quoted unit).WellFormed alwaysOne where
  label_ne := hlabel
  free := hfree
  number := by
    intro c hc
    obtain rfl : c = '1' := List.mem_singleton.mp hc
    exact Or.inl rfl
  reads := rfl
  unit := hunit
  unitStart := hstart
  limits := nofun

theorem perfdata_read_two :
    parseNagiosPerfdata (fun t => t.map Char.toLower) alwaysOne
        ("OK ".toList ++ '|' :: joined [oneToken "rta max" true "ms", oneToken "loss" false "%"])
      = [oneToken "rta max" true "ms", oneToken "loss" false "%"].map
        (Token.metric (fun t => t.map Char.toLower) alwaysOne) := by
  have hwell : ∀ t ∈ [oneToken "rta max" true "ms", oneToken "loss" false "%"],
      t.WellFormed alwaysOne := by
    intro t ht
    rcases List.mem_cons.mp ht with rfl | ht
    · exact oneToken_wellFormed (by simp) (by simp [plainChar, isSpace])
        (by simp [plainChar, isSpace]) (by simp)
    · rw [List.mem_singleton.mp ht]
      exact oneToken_wellFormed (by simp) (by simp [plainChar, isSpace])
        (by simp [plainChar, isSpace]) (by simp)
  have hstatus : '|' ∉ "OK ".toList := by simp
  exact ((perfdata_read_iff (fun t => t.map Char.toLower) hstatus hwell).mpr
    ⟨by simp [oneToken], by decide +kernel⟩).1

/-- A doubled quote drops its token, a unit such as `EB` drops its token, and the disks `C:` and
`/c` share a name. -/
theorem perfdata_misread :
    (oneToken "it's" true "s").WellFormed alwaysOne ∧ (oneToken "disk" false "EB").WellFormed alwaysOne ∧
    (parseNagiosPerfdata (fun t => t.map Char.toLower) alwaysOne
      ("OK ".toList ++ '|' :: joined [oneToken "it's" true "s", oneToken "disk" false "EB"])).length = 0 ∧
    metricName (fun t => t.map Char.toLower) "C:".toList
      = metricName (fun t => t.map Char.toLower) "/c".toList :=
  ⟨oneToken_wellFormed (by simp) (by simp [plainChar, isSpace])
      (by simp [plainChar, isSpace]) (by simp),
    oneToken_wellFormed (by simp) (by simp [plainChar, isSpace])
      (by simp [plainChar, isSpace]) (by simp),
    by decide +kernel, by decide +kernel⟩

end SenhubAgent.ExecProbe

import SenhubAgent.Lib.Text
import Mathlib.Data.List.Infix

/-!
# References in configuration values

`substituteString` resolves the references `${env:..}`, `${file:..}` and `${secret:..}` of a
text and reads `$$` as one dollar. It works in three passes: it replaces `$$` by a sentinel,
the matches of a pattern by what they resolve to, and the sentinel by `$`.

Here the text is also read once from the left, into tokens (`tokens`). Emitting the tokens
with the resolver the callback applies is what the three passes do (`substitute_eq_emit`).
The callback is not quite the resolver of a one-pass reading: it looks a name up with the
sentinel still in it, and it takes any `:-` in its match for a default. `substitute_readOnce_iff`
says for which texts that makes no difference.

Mirroring notes:
- The pattern's lazy `[^}]+?` ends at the first `:-` after one character or at the first `}`.
  The body of a reference is the text up to the first `}`, so it is cut out first.
- `os.ReadFile`, `os.LookupEnv` and the secret store are parameters. None knows a name with a
  NUL in it.
- An error is the kind and the name it reports. After the first one the callback returns its
  matches unchanged and the result is dropped, so the model stops there.
-/

namespace SenhubAgent.Config

open Lib

/-! ## Sources -/

inductive RefKind where
  | env | file | secret
deriving DecidableEq, Repr

/-- What the secret store answers; `failed` is any error but `ErrNotFound`. -/
inductive SecretLookup where
  | value (v : Text)
  | notFound
  | failed
deriving DecidableEq, Repr

/-- What references resolve against. -/
structure Sources where
  lookupEnv : Text → Option Text
  readFile : Text → Option Text
  getSecret : Text → SecretLookup
  env_nul : ∀ name, '\x00' ∈ name → lookupEnv name = none
  file_nul : ∀ name, '\x00' ∈ name → readFile name = none
  secret_nul : ∀ name v, '\x00' ∈ name → getSecret name ≠ .value v

/-- The error of a reference that does not resolve. -/
structure Unresolved where
  kind : RefKind
  ref : Text
deriving DecidableEq, Repr

def resolveReference (src : Sources) (kind : RefKind) (ref dflt : Text) (hasDefault : Bool) :
    Except Unresolved Text :=
  match kind with
  | .env =>
    match src.lookupEnv ref with
    | some val => .ok val
    | none => .ok (if hasDefault then dflt else [])
  | .file =>
    match src.readFile ref with
    | some data => .ok (trimText data)
    | none => if hasDefault then .ok dflt else .error ⟨.file, ref⟩
  | .secret =>
    match src.getSecret ref with
    | .value v => .ok v
    | .notFound => if hasDefault then .ok dflt else .error ⟨.secret, ref⟩
    | .failed => .error ⟨.secret, ref⟩

/-! ## Results that are there -/

section Results

variable {ε α β γ : Type}

variable {x : Except ε α}

theorem bind_ok {f : α → Except ε β} {b : β} (h : (x >>= f) = .ok b) :
    ∃ a, x = .ok a ∧ f a = .ok b := by
  cases x with
  | error e => cases h
  | ok a => exact ⟨a, rfl, h⟩

theorem map_ok {f : α → β} {b : β} (h : x.map f = .ok b) : ∃ a, x = .ok a ∧ b = f a := by
  cases x with
  | error e => cases h
  | ok a => exact ⟨a, rfl, (Except.ok.inj h).symm⟩

theorem pair_ok {f : α → β → γ} {y : Except ε β} {c : γ}
    (h : (do let a ← x; let b ← y; .ok (f a b)) = Except.ok c) :
    ∃ a b, x = .ok a ∧ y = .ok b ∧ c = f a b := by
  obtain ⟨a, ha, h⟩ := bind_ok h
  obtain ⟨b, hb, h⟩ := bind_ok h
  exact ⟨a, b, ha, hb, (Except.ok.inj h).symm⟩

end Results

/-! ## The pattern -/

def kindWord : RefKind → Text
  | .env => ['e', 'n', 'v', ':']
  | .file => ['f', 'i', 'l', 'e', ':']
  | .secret => ['s', 'e', 'c', 'r', 'e', 't', ':']

/-- What the pattern captures. -/
structure Reference where
  kind : RefKind
  ref : Text
  dflt : Option Text
deriving DecidableEq, Repr

/-- The text before the first `:-` and, where there is one, the text after it. -/
def splitDefault : Text → Text × Option Text
  | [] => ([], none)
  | c :: s =>
    if [':', '-'].isPrefixOf (c :: s) then ([], some (s.drop 1))
    else (c :: (splitDefault s).1, (splitDefault s).2)

/-- `([^}]+?)(?::-([^}]*))?` over the whole of a body. -/
def splitBody : Text → Option (Text × Option Text)
  | [] => none
  | c :: s => some (c :: (splitDefault s).1, (splitDefault s).2)

def stripKind (s : Text) : Option (RefKind × Text) :=
  [RefKind.env, .file, .secret].findSome? fun kind =>
    if (kindWord kind).isPrefixOf s then some (kind, s.drop (kindWord kind).length) else none

/-- `substitutionPattern` at the start of a text: what it captures, and the text after. -/
def matchReference : Text → Option (Reference × Text)
  | '$' :: '{' :: s =>
    (stripKind s).bind fun found =>
      match found.2.dropWhile (· != '}'), splitBody (found.2.takeWhile (· != '}')) with
      | _ :: rest, some body => some (⟨found.1, body.1, body.2⟩, rest)
      | _, _ => none
  | _ => none

/-! ## The three passes -/

/-- `strings.Contains` -/
def occurs (w s : Text) : Bool := s.tails.any w.isPrefixOf

def dollarSentinel : Text := ['\x00', 'D', 'O', 'L', 'L', 'A', 'R', '\x00']

/-- `strings.ReplaceAll(s, "$$", dollarSentinel)` -/
def escapeDollar : Text → Text
  | '$' :: '$' :: s => dollarSentinel ++ escapeDollar s
  | c :: s => c :: escapeDollar s
  | [] => []

/-- `strings.ReplaceAll(s, dollarSentinel, "$")`; the count is of characters to pass over. -/
def restoreDollar : Nat → Text → Text
  | _, [] => []
  | skip + 1, _ :: s => restoreDollar skip s
  | 0, c :: s =>
    if dollarSentinel.isPrefixOf (c :: s) then '$' :: restoreDollar 7 s
    else c :: restoreDollar 0 s

/-- The callback; it parses its own match again. -/
def expandMatch (src : Sources) (matched : Text) : Except Unresolved Text :=
  match matchReference matched with
  | none => .ok matched
  | some (r, _) => resolveReference src r.kind r.ref (r.dflt.getD []) (occurs [':', '-'] matched)

/-- `substitutionPattern.ReplaceAllStringFunc` -/
def replaceReferences (src : Sources) : Nat → Text → Except Unresolved Text
  | _, [] => .ok []
  | skip + 1, _ :: s => replaceReferences src skip s
  | 0, c :: s =>
    match matchReference (c :: s) with
    | none => (replaceReferences src 0 s).map (c :: ·)
    | some (_, rest) => do
      let value ← expandMatch src ((c :: s).take ((c :: s).length - rest.length))
      let out ← replaceReferences src (s.length - rest.length) s
      .ok (value ++ out)

def substitute (src : Sources) (s : Text) : Except Unresolved Text :=
  if !occurs ['$', '{'] s && !occurs ['$', '$'] s then .ok s
  else (replaceReferences src 0 (escapeDollar s)).map (restoreDollar 0)

def substituteString (src : Sources) (s : String) : Except Unresolved String :=
  (substitute src s.toList).map String.ofList

/-! ## One reading from the left -/

inductive Token where
  /-- `$$` -/
  | dollar
  | ref (r : Reference)
  | char (c : Char)
deriving DecidableEq, Repr

def tokens : Nat → Text → List Token
  | _, [] => []
  | skip + 1, _ :: s => tokens skip s
  | 0, c :: s =>
    if ['$', '$'].isPrefixOf (c :: s) then .dollar :: tokens 1 s
    else
      match matchReference (c :: s) with
      | some (r, rest) => .ref r :: tokens (s.length - rest.length) s
      | none => .char c :: tokens 0 s

/-- What stands for a token: `dollar` for a `$$`, and what `f` makes of a reference. -/
def piece (dollar : Text) (f : Reference → Except Unresolved Text) : Token → Except Unresolved Text
  | .dollar => .ok dollar
  | .char c => .ok [c]
  | .ref r => f r

def emit (dollar : Text) (f : Reference → Except Unresolved Text) : List Token → Except Unresolved Text
  | [] => .ok []
  | t :: ts => do
    let value ← piece dollar f t
    let out ← emit dollar f ts
    .ok (value ++ out)

/-- `$$` read as `$`. -/
def unescape : Text → Text
  | '$' :: '$' :: s => '$' :: unescape s
  | c :: s => c :: unescape s
  | [] => []

/-- What a reference stands for: the value of the name written, or the default written. -/
def resolveOnce (src : Sources) (r : Reference) : Except Unresolved Text :=
  resolveReference src r.kind (unescape r.ref) (unescape (r.dflt.getD [])) r.dflt.isSome

/-- The one-pass reading: `$` for `$$`, the value for a reference, the rest unchanged. -/
def readOnce (src : Sources) (s : Text) : Except Unresolved Text :=
  emit ['$'] (resolveOnce src) (tokens 0 s)

/-! ## A match is a reference in front of the rest -/

/-- The text between the kind's colon and the closing brace. -/
def Reference.body (r : Reference) : Text :=
  match r.dflt with
  | none => r.ref
  | some d => r.ref ++ ':' :: '-' :: d

def Reference.render (r : Reference) : Text :=
  '$' :: '{' :: (kindWord r.kind ++ (r.body ++ ['}']))

/-- The pattern reads the reference's own text back. -/
structure Reference.Wf (r : Reference) : Prop where
  brace : '}' ∉ r.body
  split : splitBody r.body = some (r.ref, r.dflt)

theorem splitDefault_join (s : Text) :
    (splitDefault s).1 ++ ((splitDefault s).2.elim [] fun d => ':' :: '-' :: d) = s := by
  induction s with
  | nil => rfl
  | cons c s ih =>
    rw [splitDefault]
    split
    next h =>
      obtain ⟨rest, hrest⟩ := List.isPrefixOf_iff_prefix.mp h
      obtain ⟨rfl, rfl⟩ := List.cons_eq_cons.mp hrest.symm
      rfl
    next => exact congrArg (List.cons c) ih

theorem body_of_splitBody {b ref : Text} {dflt : Option Text} (kind : RefKind)
    (h : splitBody b = some (ref, dflt)) : (Reference.mk kind ref dflt).body = b := by
  cases b with
  | nil => cases h
  | cons c s =>
    obtain ⟨rfl, rfl⟩ := Prod.mk.inj (Option.some.inj h)
    have hjoin := congrArg (List.cons c) (splitDefault_join s)
    cases hd : (splitDefault s).2 with
    | none =>
      rw [hd] at hjoin
      exact (List.append_nil _).symm.trans hjoin
    | some d =>
      rw [hd] at hjoin
      exact hjoin

/-- One kind's word is never the start of another's. -/
theorem stripKind_word (kind : RefKind) (s : Text) :
    stripKind (kindWord kind ++ s) = some (kind, s) := by
  cases kind <;> rfl

variable {s t rest w : Text} {c : Char} {r : Reference} {P : Text → Prop}

theorem stripKind_eq_some {kind : RefKind} (h : stripKind s = some (kind, t)) :
    s = kindWord kind ++ t := by
  obtain ⟨k, -, hk⟩ := List.exists_of_findSome?_eq_some h
  split at hk
  next hpre =>
    obtain ⟨rfl, rfl⟩ := Prod.mk.inj (Option.some.inj hk)
    exact (List.prefix_append_drop (List.isPrefixOf_iff_prefix.mp hpre))
  next => cases hk

theorem cut_brace (h : t.dropWhile (· != '}') = c :: rest) :
    c = '}' ∧ t = t.takeWhile (· != '}') ++ '}' :: rest ∧ '}' ∉ t.takeWhile (· != '}') := by
  induction t with
  | nil => cases h
  | cons a t ih =>
    by_cases ha : a = '}'
    · subst ha
      rw [List.dropWhile_cons, if_neg (by simp)] at h
      obtain ⟨rfl, rfl⟩ := List.cons_eq_cons.mp h
      simp
    · have hpos : (a != '}') = true := by simpa using ha
      rw [List.dropWhile_cons, if_pos hpos] at h
      obtain ⟨hc, ht, hbrace⟩ := ih h
      rw [List.takeWhile_cons, if_pos hpos]
      exact ⟨hc, congrArg (List.cons a) ht, by simp [Ne.symm ha, hbrace]⟩

theorem matchReference_iff : matchReference s = some (r, rest) ↔ r.Wf ∧ s = r.render ++ rest := by
  constructor
  · intro h
    unfold matchReference at h
    split at h
    next s =>
      obtain ⟨⟨kind, t⟩, hkind, h⟩ := Option.bind_eq_some_iff.mp h
      simp only at h
      split at h
      next b rest' body hdrop hsplit =>
        obtain ⟨rfl, rfl⟩ := Prod.mk.inj (Option.some.inj h)
        have hbody : (Reference.mk kind body.1 body.2).body = t.takeWhile (· != '}') :=
          body_of_splitBody kind hsplit
        obtain ⟨-, ht, hbrace⟩ := cut_brace hdrop
        refine ⟨⟨hbody ▸ hbrace, by rw [hbody]; exact hsplit⟩, ?_⟩
        rw [stripKind_eq_some hkind, Reference.render, hbody]
        conv_lhs => rw [ht]
        simp
      next => cases h
    next => cases h
  · rintro ⟨⟨hbrace, hsplit⟩, rfl⟩
    have hp : ∀ c ∈ r.body, (c != '}') = true := fun c hc => by
      simpa using fun heq : c = '}' => hbrace (heq ▸ hc)
    have htake : (r.body ++ ('}' :: rest)).takeWhile (· != '}') = r.body := by
      rw [List.takeWhile_append_of_pos hp]
      simp
    have hdrop : (r.body ++ ('}' :: rest)).dropWhile (· != '}') = '}' :: rest := by
      rw [List.dropWhile_append_of_pos hp]
      simp
    simp only [Reference.render, List.cons_append, List.append_assoc, List.nil_append,
      matchReference, stripKind_word, Option.bind_some, htake, hdrop, hsplit]

/-! ## Reading step by step -/

/-- A match takes something off the text. -/
theorem length_rest_lt (h : matchReference s = some (r, rest)) : rest.length < s.length := by
  obtain ⟨-, rfl⟩ := matchReference_iff.mp h
  simp [Reference.render]
  omega

theorem drop_matched (h : matchReference (c :: s) = some (r, rest)) :
    s.drop (s.length - rest.length) = rest := by
  obtain ⟨-, hs⟩ := matchReference_iff.mp h
  have htail : s = r.render.tail ++ rest := (List.cons_eq_cons.mp hs).2
  rw [htail, List.length_append, Nat.add_sub_cancel, List.drop_left]

theorem take_matched (h : matchReference s = some (r, rest)) :
    s.take (s.length - rest.length) = r.render := by
  obtain ⟨-, rfl⟩ := matchReference_iff.mp h
  rw [List.length_append, Nat.add_sub_cancel, List.take_left]

theorem matchReference_ne_dollar (hc : c ≠ '$') (s : Text) : matchReference (c :: s) = none := by
  cases h : matchReference (c :: s) with
  | none => rfl
  | some m =>
    obtain ⟨-, hs⟩ := matchReference_iff.mp (h.trans rfl)
    exact absurd (List.cons_eq_cons.mp hs).1 hc

theorem matchReference_ne_brace {b : Char} (hb : b ≠ '{') (s : Text) :
    matchReference ('$' :: b :: s) = none := by
  cases h : matchReference ('$' :: b :: s) with
  | none => rfl
  | some m =>
    obtain ⟨-, hs⟩ := matchReference_iff.mp (h.trans rfl)
    exact absurd (List.cons_eq_cons.mp (List.cons_eq_cons.mp hs).2).1 hb

theorem tokens_drop (n : Nat) (s : Text) : tokens n s = tokens 0 (s.drop n) := by
  induction s generalizing n with
  | nil => cases n <;> rfl
  | cons c s ih =>
    cases n with
    | zero => rfl
    | succ n => exact ih n

theorem tokens_dollar (s : Text) : tokens 0 ('$' :: '$' :: s) = .dollar :: tokens 0 s := rfl

theorem tokens_ref (h : matchReference s = some (r, rest)) :
    tokens 0 s = .ref r :: tokens 0 rest := by
  cases s with
  | nil => cases h
  | cons c s =>
    have hdouble : ['$', '$'].isPrefixOf (c :: s) = false := by
      obtain ⟨-, hs⟩ := matchReference_iff.mp h
      rw [hs]
      rfl
    rw [tokens, hdouble, if_neg Bool.false_ne_true, h]
    simp only
    rw [tokens_drop, drop_matched h]

theorem tokens_char (hdouble : ['$', '$'].isPrefixOf (c :: s) = false)
    (h : matchReference (c :: s) = none) : tokens 0 (c :: s) = .char c :: tokens 0 s := by
  rw [tokens, hdouble, if_neg Bool.false_ne_true, h]

/-- Induction over a reading of the text. -/
theorem reading_induction (nil : P []) (dollar : ∀ s, P s → P ('$' :: '$' :: s))
    (ref : ∀ s r rest, matchReference s = some (r, rest) → P rest → P s)
    (char : ∀ c s, ['$', '$'].isPrefixOf (c :: s) = false → matchReference (c :: s) = none →
      P s → P (c :: s)) (s : Text) : P s := by
  induction hn : s.length using Nat.strong_induction_on generalizing s with
  | _ n ih =>
    subst hn
    cases s with
    | nil => exact nil
    | cons c s =>
      cases hdouble : ['$', '$'].isPrefixOf (c :: s) with
      | true =>
        obtain ⟨rest, hrest⟩ := List.isPrefixOf_iff_prefix.mp hdouble
        rw [← hrest]
        refine dollar rest (ih _ ?_ rest rfl)
        rw [← hrest, List.length_append]
        exact Nat.lt_add_of_pos_left (Nat.zero_lt_succ _)
      | false =>
        cases h : matchReference (c :: s) with
        | some m => exact ref _ m.1 m.2 h (ih _ (length_rest_lt h) _ rfl)
        | none => exact char c s hdouble h (ih _ (Nat.lt_succ_self _) s rfl)

/-! ## The sentinel does not disturb the pattern -/

theorem escapeDollar_double (s : Text) :
    escapeDollar ('$' :: '$' :: s) = dollarSentinel ++ escapeDollar s := rfl

theorem escapeDollar_cons (h : ['$', '$'].isPrefixOf (c :: s) = false) :
    escapeDollar (c :: s) = c :: escapeDollar s := by
  rw [escapeDollar]
  rintro t rfl rfl
  cases h

theorem escapeDollar_cons_of_ne (hc : c ≠ '$') (s : Text) :
    escapeDollar (c :: s) = c :: escapeDollar s :=
  escapeDollar_cons (by simp [List.isPrefixOf, Ne.symm hc])

theorem unescape_cons (h : ['$', '$'].isPrefixOf (c :: s) = false) :
    unescape (c :: s) = c :: unescape s := by
  rw [unescape]
  rintro t rfl rfl
  cases h

theorem double_iff : ['$', '$'].isPrefixOf (c :: s) = true ↔ c = '$' ∧ ∃ t, s = '$' :: t := by
  rw [List.isPrefixOf_iff_prefix]
  constructor
  · rintro ⟨t, ht⟩
    obtain ⟨rfl, rfl⟩ := List.cons_eq_cons.mp ht.symm
    exact ⟨rfl, t, rfl⟩
  · rintro ⟨rfl, t, rfl⟩
    exact ⟨t, rfl⟩

/-- Induction over a text as `$$` is found in it. -/
theorem double_induction (nil : P []) (double : ∀ s, P s → P ('$' :: '$' :: s))
    (cons : ∀ c s, ['$', '$'].isPrefixOf (c :: s) = false → P s → P (c :: s)) (s : Text) : P s := by
  suffices h : P s ∧ ∀ c, P (c :: s) from h.1
  induction s with
  | nil => exact ⟨nil, fun c => cons c [] (by simp [List.isPrefixOf]) nil⟩
  | cons a s ih =>
    refine ⟨ih.2 a, fun c => ?_⟩
    cases h : ['$', '$'].isPrefixOf (c :: a :: s) with
    | false => exact cons c _ h (ih.2 a)
    | true =>
      obtain ⟨rfl, t, ht⟩ := double_iff.mp h
      obtain ⟨rfl, rfl⟩ := List.cons_eq_cons.mp ht
      exact double _ ih.1

/-- A text cut short has no more `$$` at its start. -/
theorem double_of_isPrefix (hst : t <+: s) (h : ['$', '$'].isPrefixOf (c :: s) = false) :
    ['$', '$'].isPrefixOf (c :: t) = false := by
  rw [Bool.eq_false_iff, ne_eq, List.isPrefixOf_iff_prefix] at h ⊢
  exact fun hpre => h (hpre.trans (List.prefix_cons_inj c |>.mpr hst))

theorem isPrefixOf_escapeDollar (hw : '$' ∉ w) (hnul : '\x00' ∉ w) (s : Text) :
    w.isPrefixOf (escapeDollar s) = w.isPrefixOf s := by
  induction w generalizing s with
  | nil => rfl
  | cons a w ih =>
    rw [List.mem_cons, not_or] at hw hnul
    cases s using double_induction with
    | nil => rfl
    | double s =>
      show ((a == '\x00') && _) = ((a == '$') && _)
      rw [beq_false_of_ne (Ne.symm hnul.1), beq_false_of_ne (Ne.symm hw.1)]
      rfl
    | cons c s h =>
      rw [escapeDollar_cons h]
      exact congrArg ((a == c) && ·) (ih hw.2 hnul.2 s)

theorem occurs_escapeDollar (s : Text) :
    occurs [':', '-'] (escapeDollar s) = occurs [':', '-'] s := by
  unfold occurs
  induction s using double_induction with
  | nil => rfl
  | double s ih => simpa [escapeDollar_double, dollarSentinel, List.isPrefixOf] using ih
  | cons c s h ih =>
    have hpre := isPrefixOf_escapeDollar (w := [':', '-']) (by decide) (by decide) (c :: s)
    rw [escapeDollar_cons h] at hpre ⊢
    simp only [List.tails_cons, List.any_cons, hpre, ih]

theorem takeWhile_escapeDollar (s : Text) :
    (escapeDollar s).takeWhile (· != '}') = escapeDollar (s.takeWhile (· != '}')) := by
  induction s using double_induction with
  | nil => rfl
  | double s ih => simpa [escapeDollar_double, dollarSentinel] using ih
  | cons c s h ih =>
    rw [escapeDollar_cons h, List.takeWhile_cons, List.takeWhile_cons, ih]
    split
    next => rw [escapeDollar_cons (double_of_isPrefix (List.takeWhile_prefix _) h)]
    next => rfl

theorem dropWhile_escapeDollar (s : Text) :
    (escapeDollar s).dropWhile (· != '}') = escapeDollar (s.dropWhile (· != '}')) := by
  induction s using double_induction with
  | nil => rfl
  | double s ih => simpa [escapeDollar_double, dollarSentinel] using ih
  | cons c s h ih =>
    rw [escapeDollar_cons h, List.dropWhile_cons, List.dropWhile_cons, ih]
    split
    next => rfl
    next => rw [escapeDollar_cons h]

theorem splitDefault_isPrefix (s : Text) : (splitDefault s).1 <+: s :=
  ⟨_, splitDefault_join s⟩

theorem splitDefault_escapeDollar (s : Text) :
    splitDefault (escapeDollar s) =
      (escapeDollar (splitDefault s).1, (splitDefault s).2.map escapeDollar) := by
  induction s using double_induction with
  | nil => rfl
  | double s ih => simp [escapeDollar_double, dollarSentinel, splitDefault, List.isPrefixOf, ih]
  | cons c s h ih =>
    have hcons := escapeDollar_cons h
    rw [hcons, splitDefault, splitDefault, ← hcons, isPrefixOf_escapeDollar (by decide) (by decide), ih]
    split
    next hpre =>
      obtain ⟨rest, hrest⟩ := List.isPrefixOf_iff_prefix.mp hpre
      obtain ⟨rfl, rfl⟩ := List.cons_eq_cons.mp hrest.symm
      have hdash : escapeDollar ('-' :: rest) = '-' :: escapeDollar rest :=
        escapeDollar_cons_of_ne (by decide) rest
      exact congrArg (fun t : Text => (([] : Text), some (t.drop 1))) hdash
    next => rw [escapeDollar_cons (double_of_isPrefix (splitDefault_isPrefix s) h)]

theorem dollar_notMem_kindWord (kind : RefKind) : '$' ∉ kindWord kind := by
  cases kind <;> decide

theorem escapeDollar_append (hw : '$' ∉ w) (s : Text) :
    escapeDollar (w ++ s) = w ++ escapeDollar s := by
  induction w with
  | nil => rfl
  | cons c w ih =>
    rw [List.mem_cons, not_or] at hw
    rw [List.cons_append, escapeDollar_cons_of_ne (Ne.symm hw.1), ih hw.2]
    rfl

/-- No `$$` reaches over a character that is not a dollar. -/
theorem escapeDollar_append_cons (hc : c ≠ '$') (a b : Text) :
    escapeDollar (a ++ c :: b) = escapeDollar a ++ c :: escapeDollar b := by
  induction a using double_induction with
  | nil => exact escapeDollar_cons_of_ne hc b
  | double a ih => simp [escapeDollar_double, ih]
  | cons x a h ih =>
    have hdouble : ['$', '$'].isPrefixOf (x :: (a ++ c :: b)) = false := by
      rw [Bool.eq_false_iff, ne_eq, double_iff] at h ⊢
      rintro ⟨hx, t, ht⟩
      cases a with
      | nil => exact hc (List.cons_eq_cons.mp ht).1
      | cons y a => exact h ⟨hx, a, by rw [(List.cons_eq_cons.mp ht).1]⟩
    rw [List.cons_append, escapeDollar_cons hdouble, ih, escapeDollar_cons h]
    rfl

theorem stripKind_escapeDollar (s : Text) :
    stripKind (escapeDollar s) = (stripKind s).map fun found => (found.1, escapeDollar found.2) := by
  have hword (kind : RefKind) : '\x00' ∉ kindWord kind := by cases kind <;> decide
  cases h : stripKind s with
  | some found =>
    rw [stripKind_eq_some h, escapeDollar_append (dollar_notMem_kindWord _), stripKind_word]
    rfl
  | none =>
    rw [Option.map_none]
    unfold stripKind at h ⊢
    rw [List.findSome?_eq_none_iff] at h ⊢
    intro kind hkind
    have := h kind hkind
    rw [isPrefixOf_escapeDollar (dollar_notMem_kindWord kind) (hword kind)]
    split
    next hpre => rw [if_pos hpre] at this; cases this
    next => rfl

/-- The reference with the sentinel in its name and in its default. -/
def Reference.escaped (r : Reference) : Reference :=
  ⟨r.kind, escapeDollar r.ref, r.dflt.map escapeDollar⟩

theorem render_escaped (r : Reference) : r.escaped.render = escapeDollar r.render := by
  have hbody : r.escaped.body = escapeDollar r.body := by
    unfold Reference.body Reference.escaped
    cases r.dflt with
    | none => rfl
    | some d =>
      rw [escapeDollar_append_cons (by decide), escapeDollar_cons_of_ne (by decide)]
      rfl
  rw [Reference.render, hbody, Reference.render, escapeDollar_cons (by rfl),
    escapeDollar_cons_of_ne (by decide), escapeDollar_append (dollar_notMem_kindWord _),
    escapeDollar_append_cons (by decide)]
  rfl

theorem splitBody_escapeDollar (b : Text) :
    splitBody (escapeDollar b) =
      (splitBody b).map fun m => (escapeDollar m.1, m.2.map escapeDollar) := by
  cases b using double_induction with
  | nil => rfl
  | double s =>
    simp [escapeDollar_double, dollarSentinel, splitBody, splitDefault, List.isPrefixOf,
      splitDefault_escapeDollar]
  | cons c s h =>
    rw [escapeDollar_cons h, splitBody, splitBody, splitDefault_escapeDollar, Option.map_some,
      escapeDollar_cons (double_of_isPrefix (splitDefault_isPrefix s) h)]

/-- The pattern matches the escaped text where it matches the text. -/
theorem matchReference_escapeDollar (s : Text) :
    matchReference (escapeDollar s) =
      (matchReference s).map fun m => (m.1.escaped, escapeDollar m.2) := by
  cases s using double_induction with
  | nil => rfl
  | double s => rfl
  | cons c s h =>
    rw [escapeDollar_cons h]
    by_cases hc : c = '$'
    · subst hc
      cases s with
      | nil => rfl
      | cons b s =>
        by_cases hb : b = '{'
        · subst hb
          rw [escapeDollar_cons_of_ne (by decide)]
          simp only [matchReference, stripKind_escapeDollar]
          cases hk : stripKind s with
          | none => rfl
          | some found =>
            simp only [Option.map_some, Option.bind_some, takeWhile_escapeDollar,
              dropWhile_escapeDollar, splitBody_escapeDollar]
            cases hd : found.2.dropWhile (· != '}') with
            | nil => rfl
            | cons x rest =>
              rw [(cut_brace hd).1, escapeDollar_cons_of_ne (by decide)]
              cases splitBody (found.2.takeWhile (· != '}')) <;> rfl
        · have hdollar : b ≠ '$' := fun hb => Bool.eq_false_iff.mp h (double_iff.mpr ⟨rfl, s, hb ▸ rfl⟩)
          rw [escapeDollar_cons_of_ne hdollar, matchReference_ne_brace hb, matchReference_ne_brace hb]
          rfl
    · rw [matchReference_ne_dollar hc, matchReference_ne_dollar hc]
      rfl

/-! ## The passes as one emission -/

section Passes

variable (src : Sources)

theorem replaceReferences_drop (n : Nat) (s : Text) :
    replaceReferences src n s = replaceReferences src 0 (s.drop n) := by
  induction s generalizing n with
  | nil => cases n <;> rfl
  | cons c s ih =>
    cases n with
    | zero => rfl
    | succ n => exact ih n

theorem replaceReferences_char (h : matchReference (c :: s) = none) :
    replaceReferences src 0 (c :: s) = (replaceReferences src 0 s).map (c :: ·) := by
  rw [replaceReferences, h]

/-- The callback reads its own match as the search did. -/
theorem expandMatch_render (h : r.Wf) :
    expandMatch src r.render =
      resolveReference src r.kind r.ref (r.dflt.getD []) (occurs [':', '-'] r.render) := by
  have hmatch : matchReference r.render = some (r, []) :=
    matchReference_iff.mpr ⟨h, (List.append_nil _).symm⟩
  rw [expandMatch, hmatch]

theorem replaceReferences_ref (h : matchReference s = some (r, rest)) :
    replaceReferences src 0 s = (do
      let value ← resolveReference src r.kind r.ref (r.dflt.getD []) (occurs [':', '-'] r.render)
      let out ← replaceReferences src 0 rest
      .ok (value ++ out)) := by
  cases s with
  | nil => cases h
  | cons c s =>
    rw [replaceReferences, h]
    simp only
    rw [take_matched h, replaceReferences_drop, drop_matched h,
      expandMatch_render src (matchReference_iff.mp h).1]

/-- What the callback makes of a reference, before the sentinel is restored. -/
def resolveEscaped (r : Reference) : Except Unresolved Text :=
  resolveReference src r.kind (escapeDollar r.ref) (escapeDollar (r.dflt.getD []))
    (occurs [':', '-'] r.render)

theorem replaceReferences_escapeDollar (s : Text) :
    replaceReferences src 0 (escapeDollar s) =
      emit dollarSentinel (resolveEscaped src) (tokens 0 s) := by
  induction s using reading_induction with
  | nil => rfl
  | dollar s ih =>
    rw [tokens_dollar, emit, ← ih]
    simp only [escapeDollar, dollarSentinel, List.cons_append, List.nil_append]
    repeat rw [replaceReferences_char src (matchReference_ne_dollar (by decide) _)]
    cases replaceReferences src 0 (escapeDollar s) <;> rfl
  | ref s r rest h ih =>
    have hescaped := matchReference_escapeDollar s
    rw [h] at hescaped
    have hdflt : r.escaped.dflt.getD [] = escapeDollar (r.dflt.getD []) := by
      unfold Reference.escaped
      cases r.dflt <;> rfl
    rw [replaceReferences_ref src hescaped, ih, tokens_ref h, emit, render_escaped,
      occurs_escapeDollar, hdflt]
    rfl
  | char c s hdouble h ih =>
    have hescaped := matchReference_escapeDollar (c :: s)
    rw [h, escapeDollar_cons hdouble] at hescaped
    rw [tokens_char hdouble h, emit, ← ih, escapeDollar_cons hdouble,
      replaceReferences_char src hescaped]
    rfl

/-- No value holds a NUL. -/
structure Sources.NulFree : Prop where
  env : ∀ {name v}, src.lookupEnv name = some v → '\x00' ∉ v
  file : ∀ {name v}, src.readFile name = some v → '\x00' ∉ v
  secret : ∀ {name v}, src.getSecret name = .value v → '\x00' ∉ v

theorem mem_trimText {data : Text} (h : c ∈ trimText data) : c ∈ data := by
  rw [trimText, List.mem_reverse] at h
  exact (List.dropWhile_suffix _).mem (List.mem_reverse.mp ((List.dropWhile_suffix _).mem h))

theorem restoreDollar_append {v : Text} (hv : '\x00' ∉ v) (s : Text) :
    restoreDollar 0 (v ++ s) = v ++ restoreDollar 0 s := by
  induction v with
  | nil => rfl
  | cons c v ih =>
    rw [List.mem_cons, not_or] at hv
    have hne : dollarSentinel.isPrefixOf (c :: (v ++ s)) = false := by
      simp [dollarSentinel, List.isPrefixOf, hv.1]
    rw [List.cons_append, restoreDollar, hne, if_neg Bool.false_ne_true, ih hv.2]
    rfl

variable {d : Text} {ts : List Token}

theorem restoreDollar_escaped (hd : '\x00' ∉ d) (s : Text) :
    restoreDollar 0 (escapeDollar d ++ s) = unescape d ++ restoreDollar 0 s := by
  induction d using double_induction with
  | nil => rfl
  | double d ih =>
    have ih := ih fun h => hd (List.mem_cons_of_mem _ (List.mem_cons_of_mem _ h))
    rw [escapeDollar_double, List.append_assoc]
    exact congrArg (List.cons '$') ih
  | cons c d h ih =>
    rw [List.mem_cons, not_or] at hd
    rw [escapeDollar_cons h, unescape_cons h, List.cons_append, ← List.singleton_append,
      restoreDollar_append (by simpa using hd.1), ih hd.2]
    rfl

/-- What a reference resolves to once the sentinel is restored: the name is looked up with
the sentinel in it. -/
def resolveCode (r : Reference) : Except Unresolved Text :=
  resolveReference src r.kind (escapeDollar r.ref) (unescape (r.dflt.getD []))
    (occurs [':', '-'] r.render)

/-- The characters, names and defaults of a token hold no NUL. -/
def Token.NulFree : Token → Prop
  | .dollar => True
  | .char c => c ≠ '\x00'
  | .ref r => '\x00' ∉ r.ref ∧ '\x00' ∉ r.dflt.getD []

theorem nulFree_tokens (hs : '\x00' ∉ s) : ∀ t ∈ tokens 0 s, t.NulFree := by
  induction s using reading_induction with
  | nil => nofun
  | dollar s ih =>
    rw [tokens_dollar, List.forall_mem_cons]
    exact ⟨trivial, ih fun h => hs (List.mem_cons_of_mem _ (List.mem_cons_of_mem _ h))⟩
  | ref s r rest h ih =>
    obtain ⟨-, rfl⟩ := matchReference_iff.mp h
    rw [tokens_ref h, List.forall_mem_cons]
    have hbody : '\x00' ∉ r.body := fun hmem => hs (by simp [Reference.render, hmem])
    refine ⟨?_, ih fun h => hs (List.mem_append_right _ h)⟩
    unfold Reference.body at hbody
    cases hd : r.dflt <;> simp_all [Token.NulFree]
  | char c s hdouble h ih =>
    rw [List.mem_cons, not_or] at hs
    rw [tokens_char hdouble h, List.forall_mem_cons]
    exact ⟨Ne.symm hs.1, ih hs.2⟩

theorem emit_congr {dollar : Text} {f g : Reference → Except Unresolved Text}
    (h : ∀ r, .ref r ∈ ts → f r = g r) : emit dollar f ts = emit dollar g ts := by
  induction ts with
  | nil => rfl
  | cons t ts ih =>
    have hpiece : piece dollar f t = piece dollar g t := by
      cases t with
      | ref r => exact h r List.mem_cons_self
      | _ => rfl
    rw [emit, emit, hpiece, ih fun r hr => h r (List.mem_cons_of_mem _ hr)]

variable {src}

/-- Only what its references resolve to makes a difference to a text. -/
theorem substitute_congr {src' : Sources}
    (h : ∀ r, .ref r ∈ tokens 0 s → resolveEscaped src r = resolveEscaped src' r) :
    substitute src s = substitute src' s := by
  unfold substitute
  rw [replaceReferences_escapeDollar, replaceReferences_escapeDollar, emit_congr h]

/-- Restoring after a value, whether it is one of the sources' or the default. -/
theorem resolveReference_restore (hsrc : src.NulFree) (kind : RefKind) (name : Text)
    (hd : '\x00' ∉ d) (hasDefault : Bool) (s : Text) :
    (resolveReference src kind name (escapeDollar d) hasDefault).map
        (fun v => restoreDollar 0 (v ++ s)) =
      (resolveReference src kind name (unescape d) hasDefault).map (· ++ restoreDollar 0 s) := by
  have hvalue {v : Text} (hv : '\x00' ∉ v) :
      (.ok (restoreDollar 0 (v ++ s)) : Except Unresolved Text) = .ok (v ++ restoreDollar 0 s) :=
    congrArg _ (restoreDollar_append hv s)
  have hdefault : (.ok (restoreDollar 0 (escapeDollar d ++ s)) : Except Unresolved Text) =
      .ok (unescape d ++ restoreDollar 0 s) :=
    congrArg _ (restoreDollar_escaped hd s)
  unfold resolveReference
  cases kind with
  | env =>
    cases h : src.lookupEnv name with
    | some v => exact hvalue (hsrc.env h)
    | none => cases hasDefault <;> first | exact hdefault | rfl
  | file =>
    cases h : src.readFile name with
    | some v => exact hvalue fun hmem => hsrc.file h (mem_trimText hmem)
    | none => cases hasDefault <;> first | exact hdefault | rfl
  | secret =>
    cases h : src.getSecret name with
    | value v => exact hvalue (hsrc.secret h)
    | notFound => cases hasDefault <;> first | exact hdefault | rfl
    | failed => rfl

theorem piece_restore (hsrc : src.NulFree) {t : Token} (ht : t.NulFree) (s : Text) :
    (piece dollarSentinel (resolveEscaped src) t).map (fun v => restoreDollar 0 (v ++ s)) =
      (piece ['$'] (resolveCode src) t).map (· ++ restoreDollar 0 s) := by
  cases t with
  | dollar => rfl
  | char c =>
    have hc : '\x00' ∉ [c] := by simpa using Ne.symm ht
    exact congrArg Except.ok (restoreDollar_append hc s)
  | ref r => exact resolveReference_restore hsrc r.kind (escapeDollar r.ref) ht.2 _ s

theorem emit_restore (hsrc : src.NulFree) (hts : ∀ t ∈ ts, t.NulFree) :
    (emit dollarSentinel (resolveEscaped src) ts).map (restoreDollar 0) =
      emit ['$'] (resolveCode src) ts := by
  induction ts with
  | nil => rfl
  | cons t ts ih =>
    obtain ⟨ht, hts⟩ := List.forall_mem_cons.mp hts
    have hpiece := piece_restore hsrc ht
    rw [emit, emit, ← ih hts]
    cases hp : piece dollarSentinel (resolveEscaped src) t <;>
      cases hq : piece ['$'] (resolveCode src) t <;> rw [hp, hq] at hpiece
    · exact congrArg Except.error (Except.error.inj (hpiece []))
    · cases hpiece []
    · cases hpiece []
    · cases emit dollarSentinel (resolveEscaped src) ts with
      | error e => rfl
      | ok out => exact hpiece out

theorem occurs_cons (w : Text) (c : Char) (s : Text) :
    occurs w (c :: s) = (w.isPrefixOf (c :: s) || occurs w s) := by
  simp [occurs]

/-- A text without `${` and without `$$` is read character by character. -/
theorem tokens_plain (hopen : occurs ['$', '{'] s = false)
    (hdouble : occurs ['$', '$'] s = false) : tokens 0 s = s.map .char := by
  induction s with
  | nil => rfl
  | cons c s ih =>
    rw [occurs_cons, Bool.or_eq_false_iff] at hopen hdouble
    have hnone : matchReference (c :: s) = none := by
      cases h : matchReference (c :: s) with
      | none => rfl
      | some m =>
        obtain ⟨-, hs⟩ := matchReference_iff.mp (h.trans rfl)
        rw [hs] at hopen
        cases hopen.1
    rw [tokens_char hdouble.1 hnone, ih hopen.2 hdouble.2]
    rfl

theorem emit_chars (dollar : Text) (f : Reference → Except Unresolved Text) (s : Text) :
    emit dollar f (s.map .char) = .ok s := by
  induction s with
  | nil => rfl
  | cons c s ih =>
    rw [List.map_cons, emit, ih]
    rfl

/-- The three passes are one emission of the tokens. -/
theorem substitute_eq_emit (hsrc : src.NulFree) (hs : '\x00' ∉ s) :
    substitute src s = emit ['$'] (resolveCode src) (tokens 0 s) := by
  unfold substitute
  split
  next h =>
    simp only [Bool.and_eq_true, Bool.not_eq_true'] at h
    rw [tokens_plain h.1 h.2, emit_chars]
  next => rw [replaceReferences_escapeDollar, emit_restore hsrc (nulFree_tokens hs)]

end Passes

end SenhubAgent.Config

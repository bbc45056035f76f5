import Mathlib.Algebra.Group.Int.Defs
import Mathlib.Algebra.GroupWithZero.Nat
import SenhubAgent.ExportErrors

/-!
# Export errors: partial success, classification, size refusals

Everything the OTLP strategy decides about a failed export it decides from the
Go error value: `partial_success.go` takes the consumer's rejections out of it,
`export_errors.go` classifies what is left, and `logs_split.go` recognises a
refusal for size. This file models those three readers on the error *tree*.

Mirroring notes:
- An error is a tree: a leaf, `fmt.Errorf("… %w …")` around one cause, or
  `errors.Join`. A wrapper carries its full rendered text, as Go's does.
- The two regular expressions (`partialSuccessRe`, `httpStatusRe`) are written
  as scanners over the characters of the message; greedy `(.*)` prefers the
  *last* split, and `.` does not match a newline.
- `status.FromError` belongs to the gRPC module. It is the parameter
  `fromError`, and nothing below assumes anything about it.
- `exporterrors.classify` wraps the cause in a class sentinel; only the class is
  ever asked for again, so the model keeps the class.
-/

namespace SenhubAgent.Otlp

/-- A Go error value as the export paths see it. -/
inductive GoErr where
  | leaf (msg : String)
  | wrap (msg : String) (inner : GoErr)
  | join (errs : List GoErr)

mutual

/-- `err.Error()`. -/
def GoErr.error : GoErr → String
  | .leaf msg => msg
  | .wrap msg _ => msg
  | .join errs => "\n".intercalate (GoErr.errors errs)

/-- The messages of a joined list. -/
def GoErr.errors : List GoErr → List String
  | [] => []
  | e :: es => e.error :: GoErr.errors es

end

/-- `errors.Join`: nil when there is nothing to join. -/
def errorsJoin : List GoErr → Option GoErr
  | [] => none
  | e :: es => some (.join (e :: es))

/-! ## Text helpers -/

/-- What follows `p` when the text starts with it. -/
def stripPrefix : List Char → List Char → Option (List Char)
  | [], cs => some cs
  | _ :: _, [] => none
  | p :: ps, c :: cs => if p = c then stripPrefix ps cs else none

/-- What precedes the suffix `p` when the text ends with it. -/
def stripSuffix (p cs : List Char) : Option (List Char) :=
  (stripPrefix p.reverse cs.reverse).map List.reverse

/-- `strings.Contains`. -/
def containsText (p : List Char) : List Char → Bool
  | [] => p.isEmpty
  | c :: cs => (stripPrefix p (c :: cs)).isSome || containsText p cs

theorem stripPrefix_append (p rest : List Char) : stripPrefix p (p ++ rest) = some rest := by
  induction p with
  | nil => rfl
  | cons a p ih => simpa [stripPrefix] using ih

theorem stripPrefix_eq_append :
    ∀ (p cs : List Char) {rest : List Char}, stripPrefix p cs = some rest → cs = p ++ rest := by
  intro p
  induction p with
  | nil => intro cs rest h; simpa [stripPrefix] using h
  | cons a p ih =>
    intro cs rest h
    cases cs with
    | nil => simp [stripPrefix] at h
    | cons c cs =>
      unfold stripPrefix at h
      split at h
      next hac => rw [hac, ih cs h, List.cons_append]
      next => cases h

theorem stripSuffix_eq_append {p cs front : List Char} (h : stripSuffix p cs = some front) :
    cs = front ++ p := by
  unfold stripSuffix at h
  obtain ⟨r, hr, hrev⟩ := Option.map_eq_some_iff.mp h
  have hcs := stripPrefix_eq_append _ _ hr
  rw [← hrev, ← List.reverse_reverse cs, hcs, List.reverse_append, List.reverse_reverse]

/-! ## Partial success (`partial_success.go`) -/

structure PartialSuccess where
  signal : String
  rejected : Int
  message : String
  deriving DecidableEq, Repr

/-- `partialSuccessNouns`, with the label of a noun it does not list. -/
def partialSuccessSignal (noun : String) : String :=
  if noun = "logs" then "logs"
  else if noun = "log records" then "logs"
  else if noun = "metric data points" then "metrics"
  else if noun = "spans" then "traces"
  else "unknown"

/-- `strconv.ParseInt(s, 10, 64)` on an optional sign and a digit run. -/
def parseInt64 (neg : Bool) (digits : List Char) : Option Int :=
  let n : Int := Nat.ofDigitChars 10 digits 0
  let v := if neg then -n else n
  if -(2 ^ 63) ≤ v ∧ v < 2 ^ 63 then some v else none

/-- `[a-z ]`. -/
def isNounChar (c : Char) : Bool := c.isLower || c == ' '

/-- The count and the noun of `(-?\d+) ([a-z ]+) rejected\)$`, the sign already
read. -/
def rejectedCount (neg : Bool) (cs : List Char) : Option (Bool × List Char × List Char) :=
  match cs.dropWhile Char.isDigit with
  | ' ' :: rest =>
    match stripSuffix " rejected)".toList rest with
    | some noun =>
      if !(cs.takeWhile Char.isDigit).isEmpty && !noun.isEmpty && noun.all isNounChar then
        some (neg, cs.takeWhile Char.isDigit, noun)
      else none
    | none => none
  | _ => none

/-- ` \((-?\d+) ([a-z ]+) rejected\)$` at this very position. -/
def rejectedTail : List Char → Option (Bool × List Char × List Char)
  | ' ' :: '(' :: '-' :: cs => rejectedCount true cs
  | ' ' :: '(' :: cs => rejectedCount false cs
  | _ => none

/-- `(.*)` followed by the tail: the last split wins, and `.` stops at a
newline. -/
def rejectedSplit : List Char → Option (List Char × Bool × List Char × List Char)
  | [] => none
  | c :: cs =>
    match (if c = '\n' then none else rejectedSplit cs) with
    | some (m, t) => some (c :: m, t)
    | none => (rejectedTail (c :: cs)).map fun t => ([], t)

/-- An SDK partial success, recognised by its message alone. -/
def parsePartialSuccess (msg : String) : Option PartialSuccess :=
  match stripPrefix "OTLP partial success: ".toList msg.toList with
  | none => none
  | some body =>
    match rejectedSplit body with
    | none => none
    | some (m, neg, digits, noun) =>
      match parseInt64 neg digits with
      | none => none
      | some n => some ⟨partialSuccessSignal (String.ofList noun), n, String.ofList m⟩

mutual

/-- `splitPartialSuccess`: the rejections found anywhere in the tree, and the
failure that remains once they are taken out. -/
def splitPartialSuccess (err : GoErr) : List PartialSuccess × Option GoErr :=
  match parsePartialSuccess err.error with
  | some ps => ([ps], none)
  | none =>
    match err with
    | .leaf msg => ([], some (.leaf msg))
    | .wrap msg inner =>
      match splitPartialSuccess inner with
      | ([], _) => ([], some (.wrap msg inner))
      | (p :: ps, rest) => (p :: ps, rest)
    | .join errs =>
      let (found, rest) := splitPartialSuccessAll errs
      (found, errorsJoin rest)

/-- The loop over `joined.Unwrap()`. -/
def splitPartialSuccessAll : List GoErr → List PartialSuccess × List GoErr
  | [] => ([], [])
  | e :: es =>
    let (ps, remainder) := splitPartialSuccess e
    let (found, rest) := splitPartialSuccessAll es
    (ps ++ found, remainder.toList ++ rest)

end

/-! ## Classification (`export_errors.go`, `exporterrors`) -/

/-- `codes.Code`. -/
inductive GrpcCode where
  | ok | canceled | unknown | invalidArgument | deadlineExceeded | notFound
  | alreadyExists | permissionDenied | resourceExhausted | failedPrecondition
  | aborted | outOfRange | unimplemented | internal | unavailable | dataLoss
  | unauthenticated
  deriving DecidableEq, Repr

/-- What is read of a `*status.Status`: its code and whether a
`google.rpc.RetryInfo` detail is attached. -/
structure GrpcStatus where
  code : GrpcCode
  retryInfo : Bool
  deriving DecidableEq, Repr

/-- `([1-5]\d{2}) [A-Z][A-Za-z]` at this very position. -/
def httpStatusHere : List Char → Option Nat
  | a :: b :: c :: ' ' :: u :: l :: _ =>
    if '1' ≤ a && a ≤ '5' && b.isDigit && c.isDigit && u.isUpper && l.isAlpha then
      some (Nat.ofDigitChars 10 [a, b, c] 0)
    else none
  | _ => none

/-- The code after the leftmost non-digit that one follows. -/
def httpStatusScan : List Char → Option Nat
  | [] => none
  | c :: cs =>
    match (if c.isDigit then none else httpStatusHere cs) with
    | some n => some n
    | none => httpStatusScan cs

/-- `httpStatusFromError`: `(^|[^\d])([1-5]\d{2}) [A-Z][A-Za-z]`. -/
def httpStatusFromError (err : GoErr) : Option Nat :=
  match httpStatusHere err.error.toList with
  | some n => some n
  | none => httpStatusScan err.error.toList

def classifyGRPCCode : GrpcCode → ErrClass
  | .canceled | .deadlineExceeded | .aborted | .outOfRange | .unavailable | .dataLoss
  | .resourceExhausted | .internal | .unknown => .transport
  | .invalidArgument | .failedPrecondition => .validation
  | .unauthenticated | .permissionDenied => .transport
  | .unimplemented | .notFound => .configuration
  | .ok | .alreadyExists => .transport

/-- `RESOURCE_EXHAUSTED` is retryable only with a throttle hint. -/
def classifyGRPCStatus (st : GrpcStatus) : ErrClass :=
  if st.code = .resourceExhausted ∧ st.retryInfo = false then .validation
  else classifyGRPCCode st.code

section Classify

variable (fromError : GoErr → Option GrpcStatus)

/-- The status of an error, when `status.FromError` finds one that is not
`Unknown`. -/
def knownStatus (err : GoErr) : Option GrpcStatus :=
  (fromError err).filter fun st => st.code ≠ .unknown

def classifyExportError (err : GoErr) : ErrClass :=
  match knownStatus fromError err with
  | some st => classifyGRPCStatus st
  | none =>
    match httpStatusFromError err with
    | some code => if isPermanentHTTPStatus code then .validation else .transport
    | none => .transport

/-- `isSizeRefusal`: these exact bytes were refused for their size. -/
def isSizeRefusal (err : GoErr) : Bool :=
  match knownStatus fromError err with
  | some st => st.code = .resourceExhausted && !st.retryInfo
  | none =>
    match httpStatusFromError err with
    | some code =>
      code == 413 ||
        (code == 400 && containsText "request body too large".toList err.error.toList)
    | none => false

end Classify

/-! ## What the splitter leaves holds no rejection -/

theorem takeWhile_digit_no_newline (cs : List Char) : '\n' ∉ cs.takeWhile Char.isDigit := by
  intro hmem
  have hdig : ('\n').isDigit = true := List.all_eq_true.mp List.all_takeWhile _ hmem
  revert hdig
  decide

/-- A text the tail matches holds no newline. -/
theorem rejectedCount_no_newline {neg : Bool} {cs : List Char} {t : Bool × List Char × List Char}
    (h : rejectedCount neg cs = some t) : '\n' ∉ cs := by
  unfold rejectedCount at h
  split at h
  next rest hrest =>
    split at h
    next noun hnoun =>
      split at h
      next hcond =>
        simp only [Bool.and_eq_true, List.all_eq_true] at hcond
        intro hmem
        rw [← List.takeWhile_append_dropWhile (p := Char.isDigit) (l := cs), hrest,
          stripSuffix_eq_append hnoun] at hmem
        simp only [List.mem_append, List.mem_cons] at hmem
        rcases hmem with hd | hsp | hn | hs
        · exact takeWhile_digit_no_newline cs hd
        · exact absurd hsp (by decide)
        · exact absurd (hcond.2 _ hn) (by decide)
        · exact absurd hs (by decide)
      next => cases h
    next => cases h
  next => cases h

theorem rejectedTail_no_newline {cs : List Char} {t : Bool × List Char × List Char}
    (h : rejectedTail cs = some t) : '\n' ∉ cs := by
  unfold rejectedTail at h
  split at h
  next rest =>
    have hrest := rejectedCount_no_newline h
    simpa using hrest
  next rest _ =>
    have hrest := rejectedCount_no_newline h
    simpa using hrest
  next => cases h

theorem rejectedSplit_no_newline :
    ∀ (cs : List Char) {r : List Char × Bool × List Char × List Char},
      rejectedSplit cs = some r → '\n' ∉ cs := by
  intro cs
  induction cs with
  | nil => intro r h; simp [rejectedSplit] at h
  | cons c cs ih =>
    intro r h
    unfold rejectedSplit at h
    split at h
    next m t hm =>
      -- the match goes on behind `c`, so `c` is not the newline
      split at hm
      next => cases hm
      next hc =>
        rw [List.mem_cons, not_or]
        exact ⟨fun heq => hc heq.symm, ih hm⟩
    next =>
      obtain ⟨t, ht, _⟩ := Option.map_eq_some_iff.mp h
      exact rejectedTail_no_newline ht

/-- A message of more than one line is never read as a partial success. -/
theorem parsePartialSuccess_newline {msg : String} (h : '\n' ∈ msg.toList) :
    parsePartialSuccess msg = none := by
  unfold parsePartialSuccess
  split
  next => rfl
  next body hbody =>
    have happ := stripPrefix_eq_append _ _ hbody
    rw [happ, List.mem_append] at h
    have hin : '\n' ∈ body := by
      rcases h with hp | hb
      · exact absurd hp (by decide)
      · exact hb
    cases hs : rejectedSplit body with
    | none => rfl
    | some r => exact absurd hin (rejectedSplit_no_newline body hs)

/-- An error the splitter takes nothing out of: it stays a failure. -/
def GoErr.Clean (e : GoErr) : Prop :=
  (splitPartialSuccess e).1 = [] ∧ ∃ r, (splitPartialSuccess e).2 = some r

theorem GoErr.Clean.parse {e : GoErr} (h : e.Clean) : parsePartialSuccess e.error = none := by
  cases hp : parsePartialSuccess e.error with
  | none => rfl
  | some ps =>
    have hfound := h.1
    unfold splitPartialSuccess at hfound
    rw [hp] at hfound
    cases hfound

theorem splitPartialSuccessAll_clean :
    ∀ (es : List GoErr), (∀ e ∈ es, e.Clean) →
      (splitPartialSuccessAll es).1 = [] ∧
      (splitPartialSuccessAll es).2.length = es.length := by
  intro es
  induction es with
  | nil => intro _; exact ⟨rfl, rfl⟩
  | cons e es ih =>
    intro h
    obtain ⟨hfound, r, hr⟩ := h e (List.mem_cons_self ..)
    obtain ⟨ih1, ih2⟩ := ih (fun x hx => h x (List.mem_cons_of_mem _ hx))
    simp only [splitPartialSuccessAll, hfound, hr, ih1, List.nil_append, Option.toList_some,
      List.length_append, List.length_cons, List.length_nil, ih2]
    exact ⟨trivial, Nat.add_comm _ _⟩

/-- The rendering of a join of two or more errors spans several lines. -/
theorem GoErr.join_error_newline (e₁ e₂ : GoErr) (es : List GoErr) :
    '\n' ∈ (GoErr.join (e₁ :: e₂ :: es)).error.toList := by
  simp only [GoErr.error, GoErr.errors, String.intercalate_cons_cons, String.toList_append,
    List.mem_append]
  exact Or.inl (Or.inr (by decide))

theorem GoErr.join_single_error (e : GoErr) : (GoErr.join [e]).error = e.error := by
  simp [GoErr.error, GoErr.errors]

/-- The text of a join whose members are not all single-line rejections is not
read as one. -/
theorem GoErr.join_parse {e : GoErr} {es : List GoErr}
    (h : es = [] → parsePartialSuccess e.error = none) :
    parsePartialSuccess (GoErr.join (e :: es)).error = none := by
  cases es with
  | nil => rw [GoErr.join_single_error]; exact h rfl
  | cons e₂ es => exact parsePartialSuccess_newline (GoErr.join_error_newline e e₂ es)

theorem GoErr.Clean.join {e : GoErr} {es : List GoErr} (h : ∀ x ∈ e :: es, x.Clean) :
    (GoErr.join (e :: es)).Clean := by
  have hparse : parsePartialSuccess (GoErr.join (e :: es)).error = none :=
    GoErr.join_parse (fun _ => (h e (List.mem_cons_self ..)).parse)
  obtain ⟨hfound, hlen⟩ := splitPartialSuccessAll_clean (e :: es) h
  unfold GoErr.Clean splitPartialSuccess
  rw [hparse]
  refine ⟨hfound, ?_⟩
  show ∃ r, errorsJoin (splitPartialSuccessAll (e :: es)).2 = some r
  cases hrest : (splitPartialSuccessAll (e :: es)).2 with
  | nil => rw [hrest] at hlen; simp at hlen
  | cons r rs => exact ⟨.join (r :: rs), rfl⟩

theorem GoErr.Clean.leaf {msg : String} (h : parsePartialSuccess msg = none) :
    (GoErr.leaf msg).Clean := by
  unfold GoErr.Clean splitPartialSuccess
  simp [GoErr.error, h]

theorem GoErr.Clean.wrap {msg : String} {inner : GoErr} (h : parsePartialSuccess msg = none)
    (hinner : (splitPartialSuccess inner).1 = []) : (GoErr.wrap msg inner).Clean := by
  unfold GoErr.Clean splitPartialSuccess
  simp only [GoErr.error, h]
  split
  next => exact ⟨rfl, _, rfl⟩
  next p ps rest heq => rw [heq] at hinner; cases hinner

mutual

/-- What is left once the rejections are out holds no rejection. -/
theorem splitPartialSuccess_rest (e : GoErr) {r : GoErr}
    (h : (splitPartialSuccess e).2 = some r) : r.Clean := by
  unfold splitPartialSuccess at h
  split at h
  next => cases h
  next hparse =>
    cases e with
    | leaf msg =>
      cases h
      exact GoErr.Clean.leaf hparse
    | wrap msg inner =>
      simp only at h
      split at h
      next rest heq =>
        cases h
        exact GoErr.Clean.wrap hparse (by rw [heq])
      next p ps rest heq =>
        exact splitPartialSuccess_rest inner (by rw [heq]; exact h)
    | join errs =>
      have hall := splitPartialSuccessAll_rest errs
      simp only at h
      cases hrest : (splitPartialSuccessAll errs).2 with
      | nil => rw [hrest] at h; cases h
      | cons x xs =>
        rw [hrest] at h hall
        cases h
        exact GoErr.Clean.join hall

theorem splitPartialSuccessAll_rest (es : List GoErr) :
    ∀ r ∈ (splitPartialSuccessAll es).2, r.Clean := by
  cases es with
  | nil => intro r hr; cases hr
  | cons e es =>
    intro r hr
    simp only [splitPartialSuccessAll, List.mem_append, Option.mem_toList] at hr
    rcases hr with hr | hr
    · exact splitPartialSuccess_rest e hr
    · exact splitPartialSuccessAll_rest es r hr

end

theorem splitPartialSuccessAll_none (es : List GoErr) :
    (splitPartialSuccessAll es).2 = [] ↔ ∀ e ∈ es, (splitPartialSuccess e).2 = none := by
  induction es with
  | nil => simp [splitPartialSuccessAll]
  | cons e es ih =>
    simp only [splitPartialSuccessAll, List.append_eq_nil_iff, ih, List.mem_cons, forall_eq_or_imp,
      Option.toList_eq_nil_iff]

/-- A join holds no failure exactly when none of its members does. -/
theorem GoErr.join_rest (e : GoErr) (es : List GoErr) :
    (splitPartialSuccess (.join (e :: es))).2 = none ↔
      ∀ x ∈ e :: es, (splitPartialSuccess x).2 = none := by
  cases hparse : parsePartialSuccess (GoErr.join (e :: es)).error with
  | none =>
    rw [← splitPartialSuccessAll_none]
    unfold splitPartialSuccess
    simp only [hparse]
    cases (splitPartialSuccessAll (e :: es)).2 with
    | nil => simp [errorsJoin]
    | cons r rs => simp [errorsJoin]
  | some ps =>
    -- only a join of one rejection reads as a rejection
    cases es with
    | cons e₂ es =>
      rw [parsePartialSuccess_newline (GoErr.join_error_newline e e₂ es)] at hparse
      cases hparse
    | nil =>
      have hsingle : parsePartialSuccess e.error = some ps := by
        rw [← GoErr.join_single_error]; exact hparse
      have hjoin : (splitPartialSuccess (.join [e])).2 = none := by
        unfold splitPartialSuccess
        simp only [hparse]
      have helem : (splitPartialSuccess e).2 = none := by
        unfold splitPartialSuccess
        simp only [hsingle]
      simp [hjoin, helem]

end SenhubAgent.Otlp

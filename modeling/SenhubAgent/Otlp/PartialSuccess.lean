import Mathlib.Data.List.Basic
import SenhubAgent.Otlp.ExportError

/-!
# Partial success: every rejection, and nothing else

`splitPartialSuccess` takes the consumer's rejections out of an error and hands back the
failure that remains. On a tree of rejections, other failures, joins and wrappers it should
find exactly the rejections, in order, and keep every failure (`Exact`).

Recognition is by a pattern on the rendered text of a node, tried before the node's
structure is looked at. A rejection's own text is read back, parentheses and all, unless the
consumer's message holds a line break, which `(.*)` does not cross (`parse_text`,
`parse_text_newline`). So

> `splitPartialSuccess_exact_iff`: the split is exact iff no rejection's message holds a
> line break, no other failure's text is matched, and a wrapper whose text is matched
> wraps that one rejection.

That nothing else can go wrong is a count: a node that is matched and should not be loses
a failure or merges rejections (`bounds`), and neither can be made up for elsewhere.
-/

namespace SenhubAgent.Otlp

/-! ## Rejections and their text -/

/-- The nouns the SDK uses. -/
inductive Noun where
  | logs | logRecords | dataPoints | spans
  deriving DecidableEq, Repr

def Noun.text : Noun → List Char
  | .logs => "logs".toList
  | .logRecords => "log records".toList
  | .dataPoints => "metric data points".toList
  | .spans => "spans".toList

/-- A consumer's rejection. -/
structure Rejection where
  noun : Noun
  count : Int64
  message : String

/-- `%d` -/
def intText (n : Int) : List Char :=
  if n < 0 then '-' :: Nat.toDigits 10 n.natAbs else Nat.toDigits 10 n.natAbs

/-- What stands behind the message: ` (<n> <noun> rejected)`. -/
def Rejection.tail (r : Rejection) : List Char :=
  ' ' :: '(' :: (intText r.count.toInt ++ ' ' :: (r.noun.text ++ " rejected)".toList))

/-- The text the SDK renders a rejection to. -/
def Rejection.text (r : Rejection) : String :=
  String.ofList ("OTLP partial success: ".toList ++ (r.message.toList ++ r.tail))

theorem Rejection.toList_text (r : Rejection) :
    r.text.toList = "OTLP partial success: ".toList ++ (r.message.toList ++ r.tail) :=
  String.toList_ofList

theorem Noun.text_chars (noun : Noun) :
    noun.text ≠ [] ∧ noun.text.all isNounChar = true ∧ '(' ∉ noun.text ∧ '\n' ∉ noun.text := by
  cases noun <;> decide

theorem stripSuffix_append (p front : List Char) : stripSuffix p (front ++ p) = some front := by
  unfold stripSuffix
  rw [List.reverse_append, stripPrefix_append, Option.map_some, List.reverse_reverse]

theorem toDigits_isDigit {n : Nat} {c : Char} (h : c ∈ Nat.toDigits 10 n) : c.isDigit = true :=
  Nat.isDigit_of_mem_toDigits (by decide) (by decide) h

theorem rejectedCount_text (neg : Bool) (n : Nat) (noun : Noun) :
    rejectedCount neg (Nat.toDigits 10 n ++ ' ' :: (noun.text ++ " rejected)".toList))
      = some (neg, Nat.toDigits 10 n, noun.text) := by
  have hdigits : ∀ c ∈ Nat.toDigits 10 n, c.isDigit = true := fun c => toDigits_isDigit
  obtain ⟨hne, hall, -, -⟩ := noun.text_chars
  have htake : (Nat.toDigits 10 n ++ ' ' :: (noun.text ++ " rejected)".toList)).takeWhile
      Char.isDigit = Nat.toDigits 10 n := by
    rw [List.takeWhile_append_of_pos hdigits]
    simp
  have hdrop : (Nat.toDigits 10 n ++ ' ' :: (noun.text ++ " rejected)".toList)).dropWhile
      Char.isDigit = ' ' :: (noun.text ++ " rejected)".toList) := by
    rw [List.dropWhile_append_of_pos hdigits]
    simp
  unfold rejectedCount
  rw [hdrop, htake]
  simp only [stripSuffix_append]
  rw [if_pos]
  simp only [Bool.and_eq_true, Bool.not_eq_true', List.isEmpty_eq_false_iff]
  exact ⟨⟨Nat.toDigits_ne_nil, hne⟩, hall⟩

theorem rejectedTail_text (r : Rejection) :
    rejectedTail r.tail
      = some (decide (r.count.toInt < 0), Nat.toDigits 10 r.count.toInt.natAbs, r.noun.text) := by
  unfold Rejection.tail intText
  by_cases hneg : r.count.toInt < 0
  · rw [if_pos hneg]
    simp only [hneg, decide_true]
    exact rejectedCount_text true _ r.noun
  · rw [if_neg hneg]
    simp only [hneg, decide_false]
    -- the first digit is no sign
    cases hd : Nat.toDigits 10 r.count.toInt.natAbs with
    | nil => exact absurd hd Nat.toDigits_ne_nil
    | cons c cs =>
      have hc : c ≠ '-' := by
        rintro rfl
        exact absurd (toDigits_isDigit (hd ▸ List.mem_cons_self ..)) (by decide)
      have hcount := rejectedCount_text false r.count.toInt.natAbs r.noun
      rw [hd] at hcount
      unfold rejectedTail
      split
      next heq =>
        simp only [List.cons_append, List.cons.injEq, true_and] at heq
        exact absurd heq.1 hc
      next heq =>
        simp only [List.cons.injEq, true_and] at heq
        rw [← heq]
        exact hcount
      next heq => exact absurd rfl (heq _)

theorem rejectedSplit_of_no_paren : ∀ {cs : List Char}, '(' ∉ cs → rejectedSplit cs = none := by
  intro cs
  induction cs with
  | nil => intro _; rfl
  | cons c cs ih =>
    intro h
    rw [List.mem_cons, not_or] at h
    have hrest : (if c = '\n' then none else rejectedSplit cs) = none := by
      rw [ih h.2]
      split <;> rfl
    have htail : rejectedTail (c :: cs) = none := by
      unfold rejectedTail
      split
      next heq =>
        simp only [List.cons.injEq] at heq
        exact absurd (heq.2 ▸ List.mem_cons_self ..) h.2
      next heq =>
        simp only [List.cons.injEq] at heq
        exact absurd (heq.2 ▸ List.mem_cons_self ..) h.2
      next => rfl
    unfold rejectedSplit
    rw [hrest, htail]
    rfl

/-- The last parenthesis opens the count. -/
theorem tail_no_paren (r : Rejection) :
    '(' ∉ intText r.count.toInt ++ ' ' :: (r.noun.text ++ " rejected)".toList) := by
  have hint : '(' ∉ intText r.count.toInt := by
    have hdigit : '(' ∉ Nat.toDigits 10 r.count.toInt.natAbs := fun h =>
      absurd (toDigits_isDigit h) (by decide)
    unfold intText
    split
    next =>
      rw [List.mem_cons, not_or]
      exact ⟨by decide, hdigit⟩
    next => exact hdigit
  rw [List.mem_append, List.mem_cons, List.mem_append, not_or, not_or, not_or]
  exact ⟨hint, by decide, r.noun.text_chars.2.2.1, by decide⟩

/-- Greedy matching finds the message. Induction on it; behind the message there is no second
parenthesis to split at. -/
theorem rejectedSplit_text (r : Rejection) :
    ∀ {msg : List Char}, '\n' ∉ msg →
      rejectedSplit (msg ++ r.tail)
        = some (msg, decide (r.count.toInt < 0), Nat.toDigits 10 r.count.toInt.natAbs,
            r.noun.text) := by
  intro msg
  induction msg with
  | nil =>
    intro _
    have hparen : rejectedSplit
        ('(' :: (intText r.count.toInt ++ ' ' :: (r.noun.text ++ " rejected)".toList))) = none := by
      unfold rejectedSplit
      rw [rejectedSplit_of_no_paren (tail_no_paren r)]
      rfl
    have htail := rejectedTail_text r
    unfold Rejection.tail at htail ⊢
    rw [List.nil_append, rejectedSplit, hparen, if_neg (by decide), htail]
    rfl
  | cons c msg ih =>
    intro h
    rw [List.mem_cons, not_or] at h
    rw [List.cons_append, rejectedSplit, if_neg (fun hc => h.1 hc.symm), ih h.2]

theorem parseInt64_text (n : Int64) :
    parseInt64 (decide (n.toInt < 0)) (Nat.toDigits 10 n.toInt.natAbs) = some n.toInt := by
  have hlow := n.le_toInt
  have hhigh := n.toInt_lt
  unfold parseInt64
  rw [Nat.ofDigitChars_ten_toDigits]
  have hvalue : (if decide (n.toInt < 0) = true then -(n.toInt.natAbs : Int)
      else (n.toInt.natAbs : Int)) = n.toInt := by
    by_cases hneg : n.toInt < 0
    · rw [if_pos (by simpa using hneg)]
      omega
    · rw [if_neg (by simpa using hneg)]
      omega
  simp only [hvalue]
  rw [if_pos ⟨hlow, hhigh⟩]

variable {r : Rejection} {motive : ErrTree → Prop} {e : GoErr} {ps : PartialSuccess}

/-- A rejection whose message is one line is read back. -/
theorem parse_text (h : '\n' ∉ r.message.toList) :
    parsePartialSuccess r.text =
      some ⟨partialSuccessSignal (String.ofList r.noun.text), r.count.toInt, r.message⟩ := by
  unfold parsePartialSuccess
  rw [r.toList_text, stripPrefix_append]
  simp only [rejectedSplit_text r h, parseInt64_text, String.ofList_toList]

theorem parse_text_newline (h : '\n' ∈ r.message.toList) : parsePartialSuccess r.text = none := by
  apply parsePartialSuccess_newline
  rw [r.toList_text]
  exact List.mem_append_right _ (List.mem_append_left _ h)

/-! ## Trees -/

/-- An error tree: a rejection, another failure, a wrapper with its rendered text, or a
join of at least one error. -/
inductive ErrTree where
  | rejection (r : Rejection)
  | failure (text : String) (other : ∀ r : Rejection, text ≠ r.text)
  | wrap (text : String) (cause : ErrTree)
  | join (first : ErrTree) (more : List ErrTree)

/-- Induction on trees, with a statement about the members of a join. -/
theorem ErrTree.indAll (all : List ErrTree → Prop) (rejection : ∀ r, motive (.rejection r))
    (failure : ∀ text other, motive (.failure text other))
    (wrap : ∀ text cause, motive cause → motive (.wrap text cause))
    (join : ∀ first more, all (first :: more) → motive (.join first more)) (nil : all [])
    (cons : ∀ t ts, motive t → all ts → all (t :: ts)) (t : ErrTree) : motive t :=
  t.rec rejection failure wrap
    (fun first more hfirst hmore => join first more (cons first more hfirst hmore)) nil cons

theorem ErrTree.ind (rejection : ∀ r, motive (.rejection r))
    (failure : ∀ text other, motive (.failure text other))
    (wrap : ∀ text cause, motive cause → motive (.wrap text cause))
    (join : ∀ first more, (∀ t ∈ first :: more, motive t) → motive (.join first more))
    (t : ErrTree) : motive t :=
  ErrTree.indAll (∀ s ∈ ·, motive s) rejection failure wrap join (by simp)
    (fun _ _ ht hts => List.forall_mem_cons.mpr ⟨ht, hts⟩) t

mutual

/-- The error value. -/
def ErrTree.err : ErrTree → GoErr
  | .rejection r => .leaf r.text
  | .failure text _ => .leaf text
  | .wrap text cause => .wrap text cause.err
  | .join first more => .join (first.err :: ErrTree.errs more)

def ErrTree.errs : List ErrTree → List GoErr
  | [] => []
  | t :: ts => t.err :: ErrTree.errs ts

end

mutual

/-- The rejections of a tree, from left to right. -/
def ErrTree.rejections : ErrTree → List Rejection
  | .rejection r => [r]
  | .failure _ _ => []
  | .wrap _ cause => cause.rejections
  | .join first more => first.rejections ++ ErrTree.allRejections more

def ErrTree.allRejections : List ErrTree → List Rejection
  | [] => []
  | t :: ts => t.rejections ++ ErrTree.allRejections ts

end

mutual

/-- The texts of its other leaves, from left to right. -/
def ErrTree.failures : ErrTree → List String
  | .rejection _ => []
  | .failure text _ => [text]
  | .wrap _ cause => cause.failures
  | .join first more => first.failures ++ ErrTree.allFailures more

def ErrTree.allFailures : List ErrTree → List String
  | [] => []
  | t :: ts => t.failures ++ ErrTree.allFailures ts

end

mutual

/-- The texts of the leaves of an error. -/
def GoErr.leaves : GoErr → List String
  | .leaf msg => [msg]
  | .wrap _ inner => inner.leaves
  | .join errs => GoErr.allLeaves errs

def GoErr.allLeaves : List GoErr → List String
  | [] => []
  | e :: es => e.leaves ++ GoErr.allLeaves es

end

/-- The leaves of the error a split hands back. -/
def restLeaves (e : GoErr) : List String := ((splitPartialSuccess e).2.map GoErr.leaves).getD []

/-- What is read off a rejection found. -/
def PartialSuccess.read (ps : PartialSuccess) : Int × String := (ps.rejected, ps.message)

def Rejection.read (r : Rejection) : Int × String := (r.count.toInt, r.message)

/-- The split finds the rejections and hands back the failures. -/
structure Exact (t : ErrTree) : Prop where
  found : (splitPartialSuccess t.err).1.map PartialSuccess.read = t.rejections.map Rejection.read
  rest : (splitPartialSuccess t.err).2 = none ↔ t.failures = []
  kept : t.failures.Sublist (restLeaves t.err)

mutual

/-- What the pattern reads of every node is what the node is. -/
def ErrTree.Legible : ErrTree → Prop
  | .rejection r => '\n' ∉ r.message.toList
  | .failure text _ => parsePartialSuccess text = none
  | .wrap text cause =>
    match parsePartialSuccess text with
    | some ps => cause.rejections.map Rejection.read = [ps.read] ∧ cause.failures = []
    | none => cause.Legible
  | .join first more => first.Legible ∧ ErrTree.AllLegible more

def ErrTree.AllLegible : List ErrTree → Prop
  | [] => True
  | t :: ts => t.Legible ∧ ErrTree.AllLegible ts

end

/-! ## One node of the split -/

/-- The rejections found in a list of errors, and the leaves of what remains of each. -/
def foundAll (es : List GoErr) : List PartialSuccess := (splitPartialSuccessAll es).1

def restLeavesAll (es : List GoErr) : List String := GoErr.allLeaves (splitPartialSuccessAll es).2

theorem split_of_parse (h : parsePartialSuccess e.error = some ps) :
    splitPartialSuccess e = ([ps], none) := by
  unfold splitPartialSuccess
  rw [h]

theorem restLeaves_of_parse (h : parsePartialSuccess e.error = some ps) : restLeaves e = [] := by
  unfold restLeaves
  rw [split_of_parse h]
  rfl

/-- A leaf is matched, or it remains. -/
theorem split_leaf (msg : String) :
    (∃ ps, parsePartialSuccess msg = some ps ∧ splitPartialSuccess (.leaf msg) = ([ps], none)) ∨
      (parsePartialSuccess msg = none ∧
        splitPartialSuccess (.leaf msg) = ([], some (.leaf msg))) := by
  have herror : (GoErr.leaf msg).error = msg := by rw [GoErr.error]
  rw [splitPartialSuccess.eq_def, herror]
  cases parsePartialSuccess msg with
  | some ps => exact Or.inl ⟨ps, rfl, rfl⟩
  | none => exact Or.inr ⟨rfl, rfl⟩

/-- A wrapper is matched, or it is handed back whole when nothing was found in its cause,
or its cause is split in its place. -/
theorem split_wrap (msg : String) (inner : GoErr) :
    (∃ ps, parsePartialSuccess msg = some ps ∧
      splitPartialSuccess (.wrap msg inner) = ([ps], none)) ∨
    (parsePartialSuccess msg = none ∧
      (((splitPartialSuccess inner).1 = [] ∧
          splitPartialSuccess (.wrap msg inner) = ([], some (.wrap msg inner))) ∨
        ((splitPartialSuccess inner).1 ≠ [] ∧
          splitPartialSuccess (.wrap msg inner) = splitPartialSuccess inner))) := by
  have herror : (GoErr.wrap msg inner).error = msg := by rw [GoErr.error]
  rw [splitPartialSuccess.eq_def (.wrap msg inner), herror]
  cases parsePartialSuccess msg with
  | some ps => exact Or.inl ⟨ps, rfl, rfl⟩
  | none =>
    refine Or.inr ⟨rfl, ?_⟩
    dsimp only
    split
    next rest heq => exact Or.inl ⟨by rw [heq], rfl⟩
    next p ps rest heq => exact Or.inr ⟨by rw [heq]; simp, heq.symm⟩

theorem allLeaves_append (es fs : List GoErr) :
    GoErr.allLeaves (es ++ fs) = GoErr.allLeaves es ++ GoErr.allLeaves fs := by
  induction es with
  | nil => rfl
  | cons e es ih => rw [List.cons_append, GoErr.allLeaves, GoErr.allLeaves, ih, List.append_assoc]

theorem foundAll_cons (e : GoErr) (es : List GoErr) :
    foundAll (e :: es) = (splitPartialSuccess e).1 ++ foundAll es := by
  unfold foundAll
  rw [splitPartialSuccessAll]

theorem restLeavesAll_cons (e : GoErr) (es : List GoErr) :
    restLeavesAll (e :: es) = restLeaves e ++ restLeavesAll es := by
  unfold restLeavesAll restLeaves
  rw [splitPartialSuccessAll, allLeaves_append]
  cases (splitPartialSuccess e).2 with
  | none => rfl
  | some r => simp [GoErr.allLeaves]

/-- A join is split member by member; a join of one is matched when its member is. -/
theorem split_join (e : GoErr) (es : List GoErr) :
    (splitPartialSuccess (.join (e :: es))).1 = foundAll (e :: es) ∧
      restLeaves (.join (e :: es)) = restLeavesAll (e :: es) ∧
      ((splitPartialSuccess (.join (e :: es))).2 = none ↔
        (splitPartialSuccessAll (e :: es)).2 = []) := by
  cases hparse : parsePartialSuccess (GoErr.join (e :: es)).error with
  | none =>
    have hsplit : splitPartialSuccess (.join (e :: es))
        = ((splitPartialSuccessAll (e :: es)).1,
            errorsJoin (splitPartialSuccessAll (e :: es)).2) := by
      rw [splitPartialSuccess.eq_def, hparse]
    unfold restLeaves restLeavesAll foundAll
    rw [hsplit]
    cases (splitPartialSuccessAll (e :: es)).2 with
    | nil | cons r rs => exact ⟨rfl, rfl, by simp [errorsJoin]⟩
  | some ps =>
    have hes : es = [] := by
      by_contra hne
      rw [GoErr.join_parse fun h => absurd h hne] at hparse
      cases hparse
    subst hes
    have hmember : parsePartialSuccess e.error = some ps := by
      rw [← GoErr.join_single_error]
      exact hparse
    have hall : splitPartialSuccessAll [e] = ([ps], []) := by
      simp [splitPartialSuccessAll, split_of_parse hmember]
    rw [restLeaves_of_parse hparse, split_of_parse hparse, foundAll, restLeavesAll, hall]
    exact ⟨rfl, rfl, by simp⟩

/-! ## Leaves -/

theorem leaves_ne_nil (t : ErrTree) : t.err.leaves ≠ [] := by
  induction t using ErrTree.ind with
  | rejection r | failure text other => simp [ErrTree.err, GoErr.leaves]
  | wrap text cause ih => simpa [ErrTree.err, GoErr.leaves] using ih
  | join first more ih =>
    have hfirst := ih first (List.mem_cons_self ..)
    simp [ErrTree.err, GoErr.leaves, GoErr.allLeaves, hfirst]

/-- Where nothing is found, every leaf remains; and the error handed back is nil exactly when
no leaf does. -/
theorem restLeaves_spec (t : ErrTree) :
    ((splitPartialSuccess t.err).1 = [] → restLeaves t.err = t.err.leaves) ∧
      ((splitPartialSuccess t.err).2 = none ↔ restLeaves t.err = []) := by
  have hleaf : ∀ msg, ((splitPartialSuccess (.leaf msg)).1 = [] →
      restLeaves (.leaf msg) = (GoErr.leaf msg).leaves) ∧
      ((splitPartialSuccess (.leaf msg)).2 = none ↔ restLeaves (.leaf msg) = []) := by
    intro msg
    unfold restLeaves
    rcases split_leaf msg with ⟨ps, -, hsplit⟩ | ⟨-, hsplit⟩
    · rw [hsplit]
      simp
    · rw [hsplit]
      simp [GoErr.leaves]
  induction t using ErrTree.indAll fun ts => (foundAll (ErrTree.errs ts) = [] →
      restLeavesAll (ErrTree.errs ts) = GoErr.allLeaves (ErrTree.errs ts)) ∧
    ((splitPartialSuccessAll (ErrTree.errs ts)).2 = [] ↔ restLeavesAll (ErrTree.errs ts) = []) with
  | rejection r => exact hleaf r.text
  | failure text other => exact hleaf text
  | wrap text cause ih =>
    rw [ErrTree.err]
    unfold restLeaves at ih ⊢
    rcases split_wrap text cause.err with ⟨ps, -, hsplit⟩ | ⟨-, ⟨-, hsplit⟩ | ⟨hne, hsplit⟩⟩
    · rw [hsplit]
      simp
    · rw [hsplit]
      simpa [GoErr.leaves] using leaves_ne_nil cause
    · rw [hsplit]
      exact ⟨fun hnil => absurd hnil hne, ih.2⟩
  | join first more ih =>
    obtain ⟨hfound, hrest, hnone⟩ := split_join first.err (ErrTree.errs more)
    rw [ErrTree.err, hfound, hrest, hnone, GoErr.leaves]
    exact ih
  | nil => simp [ErrTree.errs, restLeavesAll, splitPartialSuccessAll, GoErr.allLeaves]
  | cons t ts iht ihts =>
    rw [ErrTree.errs, foundAll_cons, restLeavesAll_cons, GoErr.allLeaves, List.append_eq_nil_iff,
      List.append_eq_nil_iff, splitPartialSuccessAll]
    refine ⟨fun hnil => ?_, ?_⟩
    · rw [iht.1 hnil.1, ihts.1 hnil.2]
    · simp [← iht.2, ← ihts.2]

/-! ## Legible trees are split exactly -/

/-- The split reads the tree: its rejections are found, and its failures remain. -/
def Reads (t : ErrTree) : Prop :=
  (splitPartialSuccess t.err).1.map PartialSuccess.read = t.rejections.map Rejection.read ∧
    restLeaves t.err = t.failures

theorem reads_of_legible (t : ErrTree) (h : t.Legible) : Reads t := by
  induction t using ErrTree.indAll fun ts => ErrTree.AllLegible ts →
    (foundAll (ErrTree.errs ts)).map PartialSuccess.read
        = (ErrTree.allRejections ts).map Rejection.read ∧
      restLeavesAll (ErrTree.errs ts) = ErrTree.allFailures ts with
  | rejection r =>
    rw [ErrTree.Legible] at h
    unfold Reads restLeaves
    rw [ErrTree.err]
    rcases split_leaf r.text with ⟨ps, hparse, hsplit⟩ | ⟨hparse, -⟩
    · rw [parse_text h, Option.some.injEq] at hparse
      rw [hsplit, ← hparse]
      exact ⟨rfl, rfl⟩
    · rw [parse_text h] at hparse
      cases hparse
  | failure text other =>
    rw [ErrTree.Legible] at h
    unfold Reads restLeaves
    rw [ErrTree.err]
    rcases split_leaf text with ⟨ps, hparse, -⟩ | ⟨-, hsplit⟩
    · rw [h] at hparse
      cases hparse
    · rw [hsplit]
      exact ⟨rfl, rfl⟩
  | wrap text cause ih =>
    rw [ErrTree.Legible] at h
    unfold Reads restLeaves
    rw [ErrTree.err, ErrTree.rejections, ErrTree.failures]
    rcases split_wrap text cause.err with ⟨ps, hparse, hsplit⟩ |
      ⟨hparse, ⟨hnil, hsplit⟩ | ⟨-, hsplit⟩⟩
    · rw [hparse] at h
      obtain ⟨hread, hfailures⟩ := h
      rw [hsplit, hread, hfailures]
      exact ⟨rfl, rfl⟩
    · rw [hparse] at h
      obtain ⟨hfound, hrest⟩ := ih h
      rw [hnil] at hfound
      rw [(restLeaves_spec cause).1 hnil] at hrest
      rw [hsplit, ← hfound, ← hrest]
      exact ⟨rfl, rfl⟩
    · rw [hparse] at h
      rw [hsplit]
      exact ih h
  | join first more ih =>
    obtain ⟨hfound, hrest, -⟩ := split_join first.err (ErrTree.errs more)
    unfold Reads
    rw [ErrTree.err, hfound, hrest]
    exact ih h
  | nil => exact ⟨rfl, rfl⟩
  | cons t ts iht ihts =>
    rename_i hall
    obtain ⟨hfound, hrest⟩ := iht hall.1
    obtain ⟨hfounds, hrests⟩ := ihts hall.2
    rw [ErrTree.errs, foundAll_cons, restLeavesAll_cons, ErrTree.allRejections,
      ErrTree.allFailures, List.map_append, List.map_append, hfound, hfounds, hrest, hrests]
    exact ⟨rfl, rfl⟩

/-! ## Nothing makes up for a misread node -/

open Classical in
/-- How many of the texts are no rejection's. -/
noncomputable def genuine (texts : List String) : Nat :=
  texts.countP fun x => decide (∀ r : Rejection, x ≠ r.text)

theorem genuine_append (xs ys : List String) : genuine (xs ++ ys) = genuine xs + genuine ys :=
  List.countP_append

theorem genuine_rejection (r : Rejection) : genuine [r.text] = 0 := by
  unfold genuine
  simp

theorem genuine_failure {text : String} (h : ∀ r : Rejection, text ≠ r.text) :
    genuine [text] = 1 := by
  unfold genuine
  simp [h]

/-- The failures are genuine, and no other leaf is. -/
theorem genuine_leaves (t : ErrTree) :
    genuine t.err.leaves = t.failures.length ∧ genuine t.failures = t.failures.length := by
  induction t using ErrTree.indAll fun ts =>
    genuine (GoErr.allLeaves (ErrTree.errs ts)) = (ErrTree.allFailures ts).length ∧
      genuine (ErrTree.allFailures ts) = (ErrTree.allFailures ts).length with
  | rejection r => exact ⟨genuine_rejection r, rfl⟩
  | failure text other => exact ⟨genuine_failure other, genuine_failure other⟩
  | wrap text cause ih => exact ih
  | join first more ih => exact ih
  | nil => exact ⟨rfl, rfl⟩
  | cons t ts iht ihts =>
    rw [ErrTree.errs, GoErr.allLeaves, ErrTree.allFailures, genuine_append, genuine_append,
      List.length_append, iht.1, iht.2, ihts.1, ihts.2]
    exact ⟨rfl, rfl⟩

/-- No more failures remain than there are, and where none is lost, no more rejections are
found than there are. -/
def Bounded (found rejections rest failures : Nat) : Prop :=
  rest ≤ failures ∧ (rest = failures → found ≤ rejections)

theorem Bounded.add {f r k n f' r' k' n' : Nat} (h : Bounded f r k n) (h' : Bounded f' r' k' n') :
    Bounded (f + f') (r + r') (k + k') (n + n') := by
  unfold Bounded at h h' ⊢
  omega

theorem leaf_count (t : ErrTree) : 0 < t.rejections.length + t.failures.length := by
  induction t using ErrTree.ind with
  | rejection r => exact Nat.one_pos
  | failure text other => exact Nat.one_pos
  | wrap text cause ih => exact ih
  | join first more ih =>
    have hfirst := ih first (List.mem_cons_self ..)
    rw [ErrTree.rejections, ErrTree.failures, List.length_append, List.length_append]
    omega

/-- The counts of one tree. -/
def ErrTree.Bounded (t : ErrTree) : Prop :=
  Otlp.Bounded (splitPartialSuccess t.err).1.length t.rejections.length
    (genuine (restLeaves t.err)) t.failures.length

theorem bounded_all :
    ∀ (ts : List ErrTree), (∀ t ∈ ts, t.Bounded) →
      Bounded (foundAll (ErrTree.errs ts)).length (ErrTree.allRejections ts).length
        (genuine (restLeavesAll (ErrTree.errs ts))) (ErrTree.allFailures ts).length := by
  intro ts
  induction ts with
  | nil => intro _; exact ⟨Nat.le_refl _, fun _ => Nat.le_refl _⟩
  | cons t ts ih =>
    intro h
    rw [ErrTree.errs, foundAll_cons, restLeavesAll_cons, ErrTree.allRejections,
      ErrTree.allFailures, genuine_append, List.length_append, List.length_append,
      List.length_append]
    exact (h t (List.mem_cons_self ..)).add (ih fun s hs => h s (List.mem_cons_of_mem _ hs))

theorem bounds (t : ErrTree) : t.Bounded := by
  induction t using ErrTree.ind with
  | rejection r =>
    unfold ErrTree.Bounded restLeaves
    rw [ErrTree.err]
    rcases split_leaf r.text with ⟨ps, -, hsplit⟩ | ⟨-, hsplit⟩
    · rw [hsplit]
      exact ⟨Nat.le_refl _, fun _ => Nat.le_refl _⟩
    · rw [hsplit]
      exact ⟨Nat.le_of_eq (genuine_rejection r), fun _ => Nat.zero_le _⟩
  | failure text other =>
    unfold ErrTree.Bounded restLeaves
    rw [ErrTree.err]
    rcases split_leaf text with ⟨ps, -, hsplit⟩ | ⟨-, hsplit⟩
    · rw [hsplit]
      exact ⟨Nat.zero_le _, fun h => absurd h Nat.zero_ne_one⟩
    · rw [hsplit]
      exact ⟨Nat.le_of_eq (genuine_failure other), fun _ => Nat.le_refl _⟩
  | wrap text cause ih =>
    have hcount := leaf_count cause
    unfold ErrTree.Bounded restLeaves at ih ⊢
    rw [ErrTree.err, ErrTree.rejections, ErrTree.failures]
    rcases split_wrap text cause.err with ⟨ps, -, hsplit⟩ | ⟨-, ⟨-, hsplit⟩ | ⟨-, hsplit⟩⟩
    · rw [hsplit]
      refine ⟨Nat.zero_le _, fun h => ?_⟩
      have hzero : 0 = cause.failures.length := h
      show 1 ≤ cause.rejections.length
      omega
    · rw [hsplit]
      exact ⟨Nat.le_of_eq (genuine_leaves cause).1, fun _ => Nat.zero_le _⟩
    · rw [hsplit]
      exact ih
  | join first more ih =>
    obtain ⟨hfound, hrest, -⟩ := split_join first.err (ErrTree.errs more)
    unfold ErrTree.Bounded
    rw [ErrTree.err, hfound, hrest]
    exact bounded_all (first :: more) ih

/-- What a legible tree is recognised by: no failure is lost, and the rejections found are
its own. -/
def Unmixed (t : ErrTree) : Prop :=
  t.failures.length ≤ genuine (restLeaves t.err) ∧
    (splitPartialSuccess t.err).1.map PartialSuccess.read = t.rejections.map Rejection.read

/-- The members of a list share neither gains nor losses, so each is unmixed when the list
is. -/
theorem unmixed_all :
    ∀ (ts : List ErrTree),
      (ErrTree.allFailures ts).length ≤ genuine (restLeavesAll (ErrTree.errs ts)) →
      (foundAll (ErrTree.errs ts)).map PartialSuccess.read
          = (ErrTree.allRejections ts).map Rejection.read →
      ∀ t ∈ ts, Unmixed t := by
  intro ts
  induction ts with
  | nil => intro _ _ t ht; cases ht
  | cons t ts ih =>
    intro hkept hfound
    have hone := bounds t
    have hmore := bounded_all ts fun s _ => bounds s
    unfold ErrTree.Bounded at hone
    unfold Bounded at hone hmore
    rw [ErrTree.errs, restLeavesAll_cons, genuine_append, ErrTree.allFailures,
      List.length_append] at hkept
    rw [ErrTree.errs, foundAll_cons, ErrTree.allRejections, List.map_append,
      List.map_append] at hfound
    have hlength := congrArg List.length hfound
    simp only [List.length_append, List.length_map] at hlength
    have hsame : (splitPartialSuccess t.err).1.length = t.rejections.length := by
      omega
    obtain ⟨hhead, htail⟩ := List.append_inj hfound (by simpa using hsame)
    refine List.forall_mem_cons.mpr ⟨⟨by omega, hhead⟩, ih (by omega) htail⟩

theorem legible_of_unmixed (t : ErrTree) (h : Unmixed t) : t.Legible := by
  induction t using ErrTree.indAll fun ts => (∀ t ∈ ts, Unmixed t) → ErrTree.AllLegible ts with
  | rejection r =>
    intro hline
    obtain ⟨-, hfound⟩ := h
    rw [ErrTree.err] at hfound
    rcases split_leaf r.text with ⟨ps, hparse, -⟩ | ⟨-, hsplit⟩
    · rw [parse_text_newline hline] at hparse
      cases hparse
    · rw [hsplit] at hfound
      cases hfound
  | failure text other =>
    obtain ⟨hkept, -⟩ := h
    unfold restLeaves at hkept
    rw [ErrTree.err] at hkept
    rw [ErrTree.Legible]
    rcases split_leaf text with ⟨ps, -, hsplit⟩ | ⟨hparse, -⟩
    · rw [hsplit] at hkept
      exact absurd hkept (Nat.not_succ_le_zero 0)
    · exact hparse
  | wrap text cause ih =>
    obtain ⟨hkept, hfound⟩ := h
    unfold restLeaves at hkept
    rw [ErrTree.err] at hkept hfound
    rw [ErrTree.Legible]
    rcases split_wrap text cause.err with ⟨ps, hparse, hsplit⟩ |
      ⟨hparse, ⟨hnil, hsplit⟩ | ⟨-, hsplit⟩⟩
    · rw [hsplit] at hkept hfound
      rw [hparse]
      exact ⟨hfound.symm, List.length_eq_zero_iff.mp (Nat.le_zero.mp hkept)⟩
    · -- the wrapper was handed back whole, so its cause has no rejection
      rw [hsplit] at hfound
      rw [hparse]
      refine ih ⟨?_, by rw [hnil]; exact hfound⟩
      rw [(restLeaves_spec cause).1 hnil]
      exact Nat.le_of_eq (genuine_leaves cause).1.symm
    · rw [hsplit] at hkept hfound
      rw [hparse]
      exact ih ⟨hkept, hfound⟩
  | join first more ih =>
    obtain ⟨hkept, hfound⟩ := h
    obtain ⟨hfounds, hrests, -⟩ := split_join first.err (ErrTree.errs more)
    rw [ErrTree.err, hrests] at hkept
    rw [ErrTree.err, hfounds] at hfound
    exact ih (unmixed_all (first :: more) hkept hfound)
  | nil => trivial
  | cons t ts iht ihts =>
    rename_i hall
    obtain ⟨hone, hmore⟩ := List.forall_mem_cons.mp hall
    exact ⟨iht hone, ihts hmore⟩

theorem Exact.unmixed {t : ErrTree} (h : Exact t) : Unmixed t := by
  refine ⟨?_, h.found⟩
  calc t.failures.length = genuine t.failures := (genuine_leaves t).2.symm
    _ ≤ genuine (restLeaves t.err) := h.kept.countP_le

/-- **Every rejection, and nothing else**, exactly on the legible trees. -/
theorem splitPartialSuccess_exact_iff (t : ErrTree) : Exact t ↔ t.Legible := by
  constructor
  · intro h
    exact legible_of_unmixed t h.unmixed
  · intro h
    obtain ⟨hfound, hrest⟩ := reads_of_legible t h
    refine ⟨hfound, ?_, ?_⟩
    · rw [(restLeaves_spec t).2, hrest]
    · rw [hrest]

/-- Two records refused, with a reason of two lines. -/
def twoLines : Rejection := ⟨.logs, 2, "bad\nline"⟩

/-- It is not found, and the export counts as failed. -/
theorem twoLines_not_exact : ¬ Exact (.rejection twoLines) := by
  intro h
  have hlegible := legible_of_unmixed _ h.unmixed
  exact hlegible (by decide)

end SenhubAgent.Otlp

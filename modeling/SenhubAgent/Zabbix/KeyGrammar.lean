import Mathlib.Data.List.Basic
import SenhubAgent.Zabbix.Keys

/-!
# Reading an item key back

The server's grammar of the bracketed part of an item key, and what it makes of the keys
`buildKey` writes. A parameter that starts with a quote runs to the next quote that no backslash
stands before; one that starts with a bracket is an array; any other runs to the next comma or
closing bracket.

`quoteParam` quotes for commas, closing brackets, quotes and a leading space, and escapes quotes
only. Two kinds of parameters are therefore not read back: one that starts with a bracket and
needs no quotes, and one that needs quotes and ends in a backslash, which then escapes the closing
quote. `decodeKey_buildKey_iff` says that there are no others.
-/

namespace SenhubAgent.Zabbix

open SenhubAgent.Lib

/-! ## The grammar -/

inductive Param where
  | text (t : Text)
  | array (items : List Text)
deriving DecidableEq

/-- What follows an opening quote, up to the quote that closes it. -/
def readQuoted : Text → Option (Text × Text)
  | [] => none
  | '\\' :: '"' :: rest => (readQuoted rest).map fun r => ('"' :: r.1, r.2)
  | '"' :: rest => some ([], rest)
  | c :: rest => (readQuoted rest).map fun r => (c :: r.1, r.2)

def inPlain (c : Char) : Bool := c ≠ ',' && c ≠ ']'

/-- A parameter that is no array. -/
def readText : Text → Option (Text × Text)
  | '"' :: rest => readQuoted rest
  | '[' :: _ => none
  | t => some (t.takeWhile inPlain, t.dropWhile inPlain)

/-- Items separated by commas, up to a closing bracket; every item takes one character at least,
its separator. -/
def readList {α : Type} (item : Text → Option (α × Text)) : Nat → Text → Option (List α × Text)
  | 0, _ => none
  | fuel + 1, t =>
    match item t with
    | some (x, ',' :: rest) => (readList item fuel rest).map fun r => (x :: r.1, r.2)
    | some (x, ']' :: rest) => some ([x], rest)
    | _ => none

def readParam : Text → Option (Param × Text)
  | '[' :: rest => (readList readText rest.length rest).map fun r => (.array r.1, r.2)
  | t => (readText t).map fun r => (.text r.1, r.2)

/-- The parameters of a key; none when the server refuses it. -/
def decodeKey (key : Text) : Option (List Param) :=
  match key.dropWhile (· ≠ '[') with
  | [] => some []
  | _ :: t =>
    match readList readParam t.length t with
    | some (params, []) => some params
    | _ => none

/-- The parameters the key format carries. -/
def Readable (p : Text) : Prop :=
  (needsQuotes p = true → p.getLast? ≠ some '\\') ∧ (needsQuotes p = false → p.head? ≠ some '[')

/-! ## One parameter -/

def escapeQuotes (p : Text) : Text := p.flatMap fun c => if c = '"' then ['\\', '"'] else [c]

variable {t p : Text}

theorem readQuoted_cons {c : Char} (hquote : c ≠ '"') (hescape : c = '\\' → t.head? ≠ some '"') :
    readQuoted (c :: t) = (readQuoted t).map fun r => (c :: r.1, r.2) := by
  rw [readQuoted]
  · intro rest hc ht
    exact hescape hc (by rw [ht]; rfl)
  · exact hquote

/-- An escaped text does not start with a quote. -/
theorem head?_escapeQuotes (p : Text) (hp : p ≠ []) (t : Text) :
    (escapeQuotes p ++ t).head? ≠ some '"' := by
  cases p with
  | nil => exact absurd rfl hp
  | cons c p =>
    unfold escapeQuotes
    rw [List.flatMap_cons]
    split
    next => simp
    next hc => simpa using hc

/-- The reader gets through an escaped text, unless its last backslash is read with what comes
after it. -/
theorem readQuoted_escape (p t : Text) (h : p.getLast? = some '\\' → t.head? ≠ some '"') :
    readQuoted (escapeQuotes p ++ t) = (readQuoted t).map fun r => (p ++ r.1, r.2) := by
  induction p with
  | nil => exact Option.map_id'.symm
  | cons c p ih =>
    have hrest : p.getLast? = some '\\' → t.head? ≠ some '"' := by
      intro hlast
      apply h
      rw [List.getLast?_cons, hlast]
      rfl
    have hmap : ((readQuoted t).map fun r => (p ++ r.1, r.2)).map (fun r => (c :: r.1, r.2)) =
        (readQuoted t).map fun r => (c :: p ++ r.1, r.2) := by
      rw [Option.map_map]
      rfl
    rw [← hmap, ← ih hrest]
    by_cases hc : c = '"'
    · rw [hc]
      rfl
    · show readQuoted ((if c = '"' then ['\\', '"'] else [c]) ++ escapeQuotes p ++ t) = _
      rw [if_neg hc, List.append_assoc]
      apply readQuoted_cons hc
      intro hback
      by_cases hp : p = []
      · rw [hp]
        apply h
        rw [hp, hback]
        rfl
      · exact head?_escapeQuotes p hp t

theorem quoteParam_quoted (h : needsQuotes p = true) (t : Text) :
    quoteParam p ++ t = '"' :: (escapeQuotes p ++ '"' :: t) := by
  unfold quoteParam
  rw [if_pos h, List.append_assoc]
  rfl

theorem readParam_quoted (t : Text) :
    readParam ('"' :: t) = (readQuoted t).map fun r => (.text r.1, r.2) := rfl

theorem readParam_plain (hquote : t.head? ≠ some '"') (hopen : t.head? ≠ some '[') :
    readParam t = some (.text (t.takeWhile inPlain), t.dropWhile inPlain) := by
  have htext : readText t = some (t.takeWhile inPlain, t.dropWhile inPlain) := by
    rw [readText]
    · intro rest ht
      exact hquote (by rw [ht]; rfl)
    · intro rest ht
      exact hopen (by rw [ht]; rfl)
  rw [readParam, htext]
  · rfl
  · intro rest ht
    exact hopen (by rw [ht]; rfl)

/-- A parameter without quotes holds none of the characters that end or open one. -/
theorem mem_of_plain (h : needsQuotes p = false) {c : Char} (hc : c ∈ p) :
    inPlain c = true ∧ c ≠ '"' := by
  unfold needsQuotes at h
  rw [Bool.or_eq_false_iff, List.any_eq_false] at h
  have hspecial := h.1 c hc
  simp only [Bool.or_eq_true, decide_eq_true_eq, not_or] at hspecial
  unfold inPlain
  simp [hspecial]

/-- A readable parameter is read back, whatever follows its separator. -/
theorem readParam_readable (h : Readable p) {sep : Char} (hsep : inPlain sep = false) (t : Text) :
    readParam (quoteParam p ++ sep :: t) = some (.text p, sep :: t) := by
  cases hneeds : needsQuotes p with
  | true =>
    rw [quoteParam_quoted hneeds, readParam_quoted,
      readQuoted_escape p _ (fun hlast => absurd hlast (h.1 hneeds))]
    show some (Param.text (p ++ []), sep :: t) = _
    rw [List.append_nil]
  | false =>
    have hquoted : quoteParam p = p := if_neg (by simp [hneeds])
    obtain ⟨htake, hdrop⟩ := takeWhile_of_stopsAt (fun c hc => (mem_of_plain hneeds hc).1)
      (stopsAt_cons hsep t)
    have hsepQuote : sep ≠ '"' := by
      intro heq
      rw [heq] at hsep
      exact absurd hsep (by decide)
    have hsepOpen : sep ≠ '[' := by
      intro heq
      rw [heq] at hsep
      exact absurd hsep (by decide)
    rw [hquoted, readParam_plain, htake, hdrop]
    · cases p with
      | nil => simpa using hsepQuote
      | cons c p => simpa using (mem_of_plain hneeds (List.mem_cons_self ..)).2
    · cases p with
      | nil => simpa using hsepOpen
      | cons c p => simpa using h.2 hneeds

/-- The other parameters are read as an array, or with the text that follows them. -/
theorem readParam_unreadable (h : ¬ Readable p) {r : Param × Text}
    (hr : readParam (quoteParam p ++ t) = some r) : r.1 ≠ .text p := by
  cases hneeds : needsQuotes p with
  | true =>
    have hlast : p.getLast? = some '\\' := by
      by_contra hlast
      exact h ⟨fun _ => hlast, fun hno => absurd (hneeds.symm.trans hno) (by decide)⟩
    obtain ⟨init, hinit⟩ := List.getLast?_eq_some_iff.mp hlast
    have hesc : escapeQuotes p ++ '"' :: t = escapeQuotes init ++ '\\' :: '"' :: t := by
      rw [hinit]
      unfold escapeQuotes
      rw [List.flatMap_append, List.append_assoc]
      rfl
    rw [quoteParam_quoted hneeds, readParam_quoted, hesc,
      readQuoted_escape init _ (fun _ => by simp), readQuoted, Option.map_map, Option.map_map] at hr
    obtain ⟨q, -, hq⟩ := Option.map_eq_some_iff.mp hr
    rw [← hq, hinit]
    intro heq
    have hchar := List.append_cancel_left (Param.text.inj heq)
    cases hchar
  | false =>
    have hopen : p.head? = some '[' := by
      by_contra hopen
      exact h ⟨fun hyes => absurd (hneeds.symm.trans hyes) (by decide), fun _ => hopen⟩
    obtain ⟨p', hp⟩ := List.head?_eq_some_iff.mp hopen
    have hquoted : quoteParam p = p := if_neg (by simp [hneeds])
    rw [hquoted, hp, List.cons_append, readParam] at hr
    obtain ⟨q, -, hq⟩ := Option.map_eq_some_iff.mp hr
    rw [← hq]
    exact Param.noConfusion

/-! ## The whole key -/

theorem readList_head {α : Type} {item : Text → Option (α × Text)} {fuel : Nat} {rest : Text}
    {x : α} {xs : List α} (h : readList item fuel t = some (x :: xs, rest)) :
    ∃ rest', item t = some (x, rest') := by
  cases fuel with
  | zero => cases h
  | succ fuel =>
    rw [readList] at h
    split at h
    next y more hitem =>
      obtain ⟨r, -, hr⟩ := Option.map_eq_some_iff.mp h
      rw [(List.cons.inj (Prod.mk.inj hr).1).1] at hitem
      exact ⟨_, hitem⟩
    next y more hitem =>
      rw [(List.cons.inj (Prod.mk.inj (Option.some.inj h)).1).1] at hitem
      exact ⟨_, hitem⟩
    next => cases h

/-- The parameters behind the opening bracket. -/
theorem readList_params (ps : List Text) :
    ∀ (p : Text) {fuel : Nat}, ps.length < fuel →
      (readList readParam fuel ([','].intercalate ((p :: ps).map quoteParam) ++ [']']) =
          some ((p :: ps).map .text, []) ↔ ∀ q ∈ p :: ps, Readable q) := by
  induction ps with
  | nil =>
    intro p fuel hfuel
    obtain ⟨n, rfl⟩ := Nat.exists_eq_add_of_lt hfuel
    rw [List.forall_mem_singleton]
    show readList readParam (_ + 1) ([','].intercalate [quoteParam p] ++ [']']) = _ ↔ _
    rw [List.intercalate_singleton]
    by_cases hp : Readable p
    · rw [readList, readParam_readable hp (by decide)]
      exact iff_of_true rfl hp
    · refine iff_of_false (fun heq => ?_) hp
      obtain ⟨rest, hrest⟩ := readList_head heq
      exact readParam_unreadable hp hrest rfl
  | cons p' ps ih =>
    intro p fuel hfuel
    rw [List.length_cons] at hfuel
    obtain ⟨n, rfl⟩ : ∃ n, fuel = n + 1 := ⟨fuel - 1, by omega⟩
    have hn : ps.length < n := by omega
    have hkey : [','].intercalate ((p :: p' :: ps).map quoteParam) ++ [']'] =
        quoteParam p ++ ',' :: ([','].intercalate ((p' :: ps).map quoteParam) ++ [']']) := by
      rw [List.map_cons, List.map_cons, List.intercalate_cons_cons]
      simp only [List.append_assoc]
      rfl
    rw [hkey, List.forall_mem_cons]
    by_cases hp : Readable p
    · -- in step so far: what follows decides
      rw [readList, readParam_readable hp (by decide), and_iff_right hp, ← ih p' hn]
      constructor
      · intro heq
        obtain ⟨r, hr, hcons⟩ := Option.map_eq_some_iff.mp heq
        rw [hr, ← (List.cons.inj (Prod.mk.inj hcons).1).2, ← (Prod.mk.inj hcons).2]
      · intro heq
        show Option.map _ (readList readParam n _) = _
        rw [heq]
        rfl
    · refine iff_of_false (fun heq => ?_) (fun hall => hp hall.1)
      obtain ⟨rest, hrest⟩ := readList_head heq
      exact readParam_unreadable hp hrest rfl

/-- The reader's fuel is enough: between two fields there is a separator. -/
theorem length_le_joined (ps : List Text) :
    ∀ p : Text, ps.length ≤ ([','].intercalate (p :: ps)).length := by
  induction ps with
  | nil =>
    intro p
    exact Nat.zero_le _
  | cons p' ps ih =>
    intro p
    have hrest := ih p'
    rw [List.intercalate_cons_cons]
    simp only [List.length_append, List.length_cons, List.length_nil]
    omega

theorem dropWhile_keyName (pre name t : Text) :
    (keyName pre name ++ '[' :: t).dropWhile (· ≠ '[') = '[' :: t := by
  refine (takeWhile_of_stopsAt (fun c hc => ?_) (stopsAt_cons (by decide) t)).2
  rw [decide_eq_true_eq]
  intro heq
  exact bracket_not_mem_keyName pre name (heq ▸ hc)

theorem decodeKey_iff (pre name : Text) (params : List Text) :
    decodeKey (buildKey pre name params) = some (params.map .text) ↔ ∀ p ∈ params, Readable p := by
  cases params with
  | nil =>
    refine iff_of_true ?_ (fun p hp => (nomatch hp))
    have hnone : (keyName pre name).dropWhile (· ≠ '[') = [] := by
      rw [List.dropWhile_eq_nil_iff]
      intro c hc
      rw [decide_eq_true_eq]
      intro heq
      exact bracket_not_mem_keyName pre name (heq ▸ hc)
    show decodeKey (keyName pre name) = some []
    rw [decodeKey, hnone]
  | cons p ps =>
    have hfuel : ps.length < ([','].intercalate ((p :: ps).map quoteParam) ++ [']']).length := by
      have hjoined := length_le_joined (ps.map quoteParam) (quoteParam p)
      rw [List.length_map] at hjoined
      rw [List.length_append, List.map_cons]
      exact Nat.lt_succ_of_le hjoined
    rw [← readList_params ps p hfuel]
    show decodeKey (buildKeyWith quoteParam pre name (p :: ps)) = _ ↔ _
    rw [buildKey_cons, decodeKey, dropWhile_keyName]
    dsimp only
    constructor
    · intro heq
      split at heq
      next params hread =>
        rw [hread, Option.some.inj heq]
      next => cases heq
    · intro heq
      rw [heq]

/-- **Item keys are read back** exactly when every parameter is readable; lists of readable
parameters that differ are never read as one item. -/
theorem decodeKey_buildKey_iff (pre name : Text) (params : List Text) :
    (decodeKey (buildKey pre name params) = some (params.map .text) ↔
        ∀ p ∈ params, Readable p) ∧
      ∀ params', (∀ p ∈ params, Readable p) → (∀ p ∈ params', Readable p) →
        decodeKey (buildKey pre name params) = decodeKey (buildKey pre name params') →
        params = params' := by
  refine ⟨decodeKey_iff pre name params, fun params' hp hp' heq => ?_⟩
  rw [(decodeKey_iff pre name params).mpr hp, (decodeKey_iff pre name params').mpr hp',
    Option.some.injEq] at heq
  exact List.map_injective_iff.mpr (fun _ _ => Param.text.inj) heq

/-- A mount point `[x`, read as an array that is not closed, and a share `a,` with a backslash at
its end, whose closing quote is escaped: the server refuses both keys. -/
theorem bracket_and_backslash_refused :
    decodeKey (buildKey "senhub".toList "fs".toList ["disk".toList, "[x".toList]) = none ∧
    decodeKey (buildKey "senhub".toList "fs".toList ["disk".toList, ['a', ',', '\\']]) = none := by
  decide

end SenhubAgent.Zabbix

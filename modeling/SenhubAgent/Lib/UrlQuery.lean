/-!
# The query part of a URL

`queryEscape` and `queryUnescape` code one component of a query, and `parseQuery` reads the pairs of
a whole one: a pair that has a semicolon or a bad escape is left out. What `encodeQuery` writes is
read back as it was (`parseQuery_encodeQuery`), whatever bytes the components have.

Unescaping a text that was never escaped can change it, and then it always makes it lighter: with
`weight`, the length where a plus counts twice, that is `weight_queryUnescape`.
-/

namespace SenhubAgent.Lib

/-- `%`, `+`, ` `, `&`, `=` and `;` -/
def percent : UInt8 := 37
def plus : UInt8 := 43
def blank : UInt8 := 32
def ampersand : UInt8 := 38
def equals : UInt8 := 61
def semicolon : UInt8 := 59

def hexDigit (n : UInt8) : UInt8 := if n < 10 then 48 + n else 55 + n

def hexValue (c : UInt8) : Option UInt8 :=
  if 48 ≤ c ∧ c ≤ 57 then some (c - 48)
  else if 97 ≤ c ∧ c ≤ 102 then some (c - 87)
  else if 65 ≤ c ∧ c ≤ 70 then some (c - 55)
  else none

/-- Letters, digits and `-`, `_`, `.`, `~` stand for themselves. -/
def isUnreserved (c : UInt8) : Bool :=
  (97 ≤ c ∧ c ≤ 122) ∨ (65 ≤ c ∧ c ≤ 90) ∨ (48 ≤ c ∧ c ≤ 57) ∨ c = 45 ∨ c = 95 ∨ c = 46 ∨ c = 126

def escapeByte (c : UInt8) : List UInt8 :=
  if isUnreserved c then [c]
  else if c = blank then [plus]
  else [percent, hexDigit (c / 16), hexDigit (c % 16)]

def queryEscape (s : List UInt8) : List UInt8 := s.flatMap escapeByte

/-- A percent sign takes two hex digits with it; without them the whole text is refused. -/
def queryUnescape : List UInt8 → Option (List UInt8)
  | [] => some []
  | c :: s =>
    if c = percent then
      match s with
      | high :: low :: rest =>
        match hexValue high, hexValue low, queryUnescape rest with
        | some a, some b, some decoded => some ((a * 16 + b) :: decoded)
        | _, _, _ => none
      | _ => none
    else (queryUnescape s).map ((if c = plus then blank else c) :: ·)

/-- One `key=value` between two ampersands. -/
def readPair (segment : List UInt8) : Option (List UInt8 × List UInt8) :=
  if semicolon ∈ segment ∨ segment = [] then none
  else
    match queryUnescape (segment.takeWhile (· ≠ equals)),
      queryUnescape ((segment.dropWhile (· ≠ equals)).drop 1) with
    | some key, some value => some (key, value)
    | _, _ => none

def parseQuery (raw : List UInt8) : List (List UInt8 × List UInt8) :=
  (raw.splitOn ampersand).filterMap readPair

def encodePair (pair : List UInt8 × List UInt8) : List UInt8 :=
  queryEscape pair.1 ++ equals :: queryEscape pair.2

def encodeQuery (pairs : List (List UInt8 × List UInt8)) : List UInt8 :=
  [ampersand].intercalate (pairs.map encodePair)

/-! ## Reading back what was written -/

/-- A fact about a byte is checked for all of them. -/
theorem forall_byte {p : UInt8 → Prop} (h : ∀ n < 256, p (UInt8.ofNat n)) (c : UInt8) : p c := by
  have hc := h c.toNat c.toNat_lt
  rwa [UInt8.ofNat_toNat] at hc

theorem hexValue_nibbles : ∀ c,
    hexValue (hexDigit (c / 16)) = some (c / 16) ∧ hexValue (hexDigit (c % 16)) = some (c % 16)
      ∧ c / 16 * 16 + c % 16 = c :=
  forall_byte (by decide +kernel)

theorem ne_of_isUnreserved : ∀ c, isUnreserved c = true → c ≠ percent ∧ c ≠ plus :=
  forall_byte (by decide +kernel)

theorem separators_not_mem_escapeByte : ∀ b,
    ampersand ∉ escapeByte b ∧ equals ∉ escapeByte b ∧ semicolon ∉ escapeByte b :=
  forall_byte (by decide +kernel)

variable {s s' : List UInt8} {c : UInt8}

theorem queryUnescape_cons (h : c ≠ percent) :
    queryUnescape (c :: s) = (queryUnescape s).map ((if c = plus then blank else c) :: ·) := by
  rw [queryUnescape.eq_def]
  exact if_neg h

theorem queryUnescape_escapeByte (c : UInt8) (s : List UInt8) :
    queryUnescape (escapeByte c ++ s) = (queryUnescape s).map (c :: ·) := by
  unfold escapeByte
  split
  next hplain =>
    have hne := ne_of_isUnreserved c hplain
    rw [List.singleton_append, queryUnescape_cons hne.1, if_neg hne.2]
  next =>
    split
    next hblank => rw [hblank, List.singleton_append, queryUnescape_cons (by decide), if_pos rfl]
    next =>
      obtain ⟨hhigh, hlow, hsum⟩ := hexValue_nibbles c
      simp only [List.cons_append, List.nil_append, queryUnescape, hhigh, hlow, if_true]
      cases queryUnescape s with
      | none => rfl
      | some decoded => exact congrArg (fun c => some (c :: decoded)) hsum

theorem queryUnescape_queryEscape (s : List UInt8) : queryUnescape (queryEscape s) = some s := by
  induction s with
  | nil => rfl
  | cons c s ih =>
    rw [queryEscape, List.flatMap_cons, queryUnescape_escapeByte]
    exact congrArg (Option.map (c :: ·)) ih

/-- What is written between the separators has none of them. -/
theorem not_mem_queryEscape (hc : c = ampersand ∨ c = equals ∨ c = semicolon) (s : List UInt8) :
    c ∉ queryEscape s := by
  intro hmem
  obtain ⟨b, -, hb⟩ := List.mem_flatMap.mp hmem
  have hnone := separators_not_mem_escapeByte b
  rcases hc with rfl | rfl | rfl
  · exact hnone.1 hb
  · exact hnone.2.1 hb
  · exact hnone.2.2 hb

theorem readPair_encodePair (pair : List UInt8 × List UInt8) :
    readPair (encodePair pair) = some pair := by
  have hkey : equals ∉ queryEscape pair.1 := not_mem_queryEscape (by simp) _
  have hall : ∀ c ∈ queryEscape pair.1, decide (c ≠ equals) = true :=
    fun c hc => decide_eq_true fun h => hkey (h ▸ hc)
  have hsemi : ¬(semicolon ∈ encodePair pair ∨ encodePair pair = []) := by
    have hne : semicolon ≠ equals := by decide
    simp [encodePair, not_mem_queryEscape (c := semicolon) (by simp), hne]
  rw [readPair, if_neg hsemi, encodePair, List.takeWhile_append_of_pos hall,
    List.dropWhile_append_of_pos hall]
  simp [queryUnescape_queryEscape]

theorem parseQuery_encodeQuery (pairs : List (List UInt8 × List UInt8)) :
    parseQuery (encodeQuery pairs) = pairs := by
  by_cases hne : pairs = []
  · rw [hne]
    rfl
  · have hno : ∀ s ∈ pairs.map encodePair, ampersand ∉ s := by
      intro s hs
      obtain ⟨pair, -, rfl⟩ := List.mem_map.mp hs
      have hne : ampersand ≠ equals := by decide
      simp [encodePair, not_mem_queryEscape (c := ampersand) (by simp), hne]
    rw [parseQuery, encodeQuery, List.splitOn_intercalate _ hno (by simpa using hne),
      List.filterMap_map]
    have hread : readPair ∘ encodePair = some := funext readPair_encodePair
    rw [hread, List.filterMap_some]

/-! ## Unescaping once too often -/

def byteWeight (c : UInt8) : Nat := if c = plus then 2 else 1

theorem byteWeight_bounds (c : UInt8) : 1 ≤ byteWeight c ∧ byteWeight c ≤ 2 := by
  unfold byteWeight
  split <;> decide

/-- The length of a text, where a plus counts twice. -/
def weight (s : List UInt8) : Nat := s.length + s.count plus

theorem weight_cons (c : UInt8) (s : List UInt8) : weight (c :: s) = byteWeight c + weight s := by
  simp only [weight, byteWeight, List.length_cons, List.count_cons, beq_iff_eq]
  split <;> omega

theorem weight_append (s s' : List UInt8) : weight (s ++ s') = weight s + weight s' := by
  simp only [weight, List.length_append, List.count_append]
  omega

theorem weight_mono (h : s.Sublist s') : weight s ≤ weight s' :=
  Nat.add_le_add h.length_le (h.count_le plus)

/-- A part that weighs as much as the whole is the whole. -/
theorem eq_of_weight_le (h : s.Sublist s') (hw : weight s' ≤ weight s) : s = s' := by
  have hcount := h.count_le plus
  unfold weight at hw
  exact h.eq_of_length_le (by omega)

/-- Unescaping leaves a text as it is or makes it lighter. -/
theorem weight_queryUnescape {decoded : List UInt8} (h : queryUnescape s = some decoded) :
    weight decoded < weight s ∨ decoded = s := by
  fun_induction queryUnescape s generalizing decoded with
  | case1 => exact .inr (Option.some.inj h).symm
  | case2 high low rest a b rest' hrest ha hb ih =>
    cases h
    have hle : weight rest' ≤ weight rest := by
      rcases ih hrest with hlt | rfl <;> omega
    left
    have := byteWeight_bounds (a * 16 + b)
    have := byteWeight_bounds percent
    have := byteWeight_bounds high
    have := byteWeight_bounds low
    simp only [weight_cons]
    omega
  | case3 => cases h
  | case4 => cases h
  | case5 c s hc ih =>
    obtain ⟨rest, hrest, rfl⟩ := Option.map_eq_some_iff.mp h
    by_cases hplus : c = plus
    · have hle : weight rest ≤ weight s := by
        rcases ih hrest with hlt | rfl <;> omega
      left
      have hlighter : byteWeight blank < byteWeight plus := by decide
      rw [if_pos hplus, weight_cons, weight_cons, hplus]
      omega
    · rw [if_neg hplus, weight_cons, weight_cons]
      rcases ih hrest with hlt | rfl
      · exact .inl (by omega)
      · exact .inr rfl

end SenhubAgent.Lib

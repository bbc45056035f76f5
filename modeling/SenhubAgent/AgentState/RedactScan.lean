import SenhubAgent.Lib.ValuePattern
import SenhubAgent.Lib.Text

/-!
# The two parameter scanners

`credential_param` and `url_query_secret` run on every log line, so they are hand-written scanners
(`log_redact_scan.go`) where the other rules are regular expressions. Both walk over the text once:
where a key is found and a value follows, the value is replaced by `***`, and the walk goes on
behind it.

`scanLoop_leftmost` is about the walk: if the test at a position finds the match of a pattern there
(`Finds`), the values of the leftmost matches are masked.

Mirroring notes:
- A Go string is the list of its bytes.
- The loop over a class of bytes is `advance`; the two loops over the text are one, with the test at
  a position as a parameter. Each turn moves at least one byte on, so the length of the text is fuel
  enough.
- The closure that `keysAt` is given returns the bounds of the value.
-/

namespace SenhubAgent.AgentState

open SenhubAgent.Lib

/-- An ASCII character as a byte. -/
def ascii (c : Char) : UInt8 := c.toNat.toUInt8

/-- A text of ASCII characters. -/
def asciiText (s : String) : Bytes := s.toList.map ascii

def maskText : Bytes := asciiText "***"

theorem eq_star_of_mem {c : UInt8} (h : c ∈ maskText) : c = ascii '*' :=
  List.eq_of_mem_replicate (show c ∈ List.replicate 3 (ascii '*') from h)

/-- `maskString`, of a text of characters or of bytes: each rule runs over what the rules before it
left, where its `precheck` lets it. -/
def maskWith {ρ τ : Type} [DecidableEq τ] (empty : τ) (precheck : ρ → Option (τ → Bool))
    (rewrite : ρ → τ → τ) (rules : List ρ) (s : τ) : τ :=
  if s = empty ∨ rules = [] then s
  else rules.foldl (fun out rule =>
    if (precheck rule).any (fun check => !check out) then out else rewrite rule out) s

def credentialParamKeys : List Bytes :=
  ["password", "passwd", "pwd", "passhash", "apikey", "api_key", "token", "access_token",
    "refresh_token", "id_token", "client_secret", "secret"].map asciiText

def urlQuerySecretKeys : List Bytes :=
  ["key", "access_key", "auth_key", "sig", "signature", "x-api-key", "apikey"].map asciiText

def isWordByte (c : UInt8) : Bool :=
  c == ascii '_' || (ascii '0' ≤ c && c ≤ ascii '9') || (ascii 'a' ≤ c && c ≤ ascii 'z')
    || (ascii 'A' ≤ c && c ≤ ascii 'Z')

/-- Space, tab, newline, form feed, carriage return. -/
def isRE2Space (c : UInt8) : Bool := c == 32 || c == 9 || c == 10 || c == 12 || c == 13

def asciiLower (c : UInt8) : UInt8 :=
  if ascii 'A' ≤ c && c ≤ ascii 'Z' then c + 32 else c

def isQuote (c : UInt8) : Bool := c == ascii '"' || c == ascii '\''

/-! ## The scanners -/

/-- `for pos < len(s) && p(s[pos]) { pos++ }` -/
def advance (p : UInt8 → Bool) (s : Bytes) (pos : Nat) : Nat :=
  pos + ((s.drop pos).takeWhile p).length

/-- `if pos < len(s) && p(s[pos]) { pos++ }` -/
def advanceOne (p : UInt8 → Bool) (s : Bytes) (pos : Nat) : Nat :=
  match s[pos]? with
  | some c => if p c then pos + 1 else pos
  | none => pos

def keysAt (s : Bytes) (i : Nat) (fn : Nat → Option (Nat × Nat)) :
    List Bytes → Option (Nat × Nat)
  | [] => none
  | k :: keys =>
    if i + k.length > s.length then keysAt s i fn keys
    else if ((s.drop i).take k.length).map asciiLower = k then
      match fn (i + k.length) with
      | some span => some span
      | none => keysAt s i fn keys
    else keysAt s i fn keys

def credentialStop (c : UInt8) : Bool :=
  isRE2Space c || c == ascii '&' || isQuote c || c == ascii ',' || c == ascii ';'

def credentialValueSpan (s : Bytes) (pos : Nat) : Option (Nat × Nat) :=
  let pos := advanceOne isQuote s pos
  let pos := advance isRE2Space s pos
  match s[pos]? with
  | none => none
  | some c =>
    if c ≠ ascii '=' ∧ c ≠ ascii ':' then none
    else
      let pos := advance isRE2Space s (pos + 1)
      let start := advanceOne isQuote s pos
      let pos := advance (fun c => !credentialStop c) s start
      if pos = start then none else some (start, pos)

def credentialFirstByte (c : UInt8) : Bool :=
  [ascii 'p', ascii 'a', ascii 't', ascii 'r', ascii 'i', ascii 'c', ascii 's'].contains c

/-- The byte before position `i`. -/
def byteBefore (s : Bytes) (i : Nat) : Option UInt8 := (s.take i).getLast?

/-- What `scanCredentialParam` finds at `i`. -/
def credentialAt (s : Bytes) (i : Nat) : Option (Nat × Nat) :=
  match s[i]? with
  | none => none
  | some c =>
    if !isWordByte c || (byteBefore s i).any isWordByte || !credentialFirstByte (asciiLower c) then
      none
    else keysAt s i (credentialValueSpan s) credentialParamKeys

def urlQueryStop (c : UInt8) : Bool :=
  isRE2Space c || c == ascii '&' || c == ascii '#' || isQuote c || c == ascii ',' || c == ascii ';'
    || c == ascii '<' || c == ascii '>'

def urlQueryValueSpan (s : Bytes) (pos : Nat) : Option (Nat × Nat) :=
  if s[pos]? ≠ some (ascii '=') then none
  else
    let stop := advance (fun c => !urlQueryStop c) s (pos + 1)
    if stop > pos + 1 then some (pos + 1, stop) else none

/-- What `scanURLQuerySecret` finds at `i`. -/
def urlQueryAt (s : Bytes) (i : Nat) : Option (Nat × Nat) :=
  match s[i]? with
  | none => none
  | some c =>
    if c ≠ ascii '?' ∧ c ≠ ascii '&' then none
    else keysAt s (i + 1) (urlQueryValueSpan s) urlQuerySecretKeys

/-- `s[a:b]`. -/
def sliceOf (s : Bytes) (a b : Nat) : Bytes := (s.take b).drop a

/-- The loop of both: where it is, how far the text is copied, how often it masked, and the copy. -/
def scanLoop (s : Bytes) (find : Nat → Option (Nat × Nat)) :
    Nat → Nat → Nat → Nat → Bytes → Bytes × Nat
  | fuel + 1, i, last, count, out =>
    if i < s.length then
      match find i with
      | none => scanLoop s find fuel (i + 1) last count out
      | some (vs, ve) =>
        if sliceOf s vs ve = maskText then scanLoop s find fuel ve last count out
        else scanLoop s find fuel ve ve (count + 1) (out ++ sliceOf s last vs ++ maskText)
    else if count = 0 then (s, 0)
    else (out ++ s.drop last, count)
  | 0, _, last, count, out => if count = 0 then (s, 0) else (out ++ s.drop last, count)

def scanCredentialParam (s : Bytes) : Bytes × Nat :=
  scanLoop s (credentialAt s) (s.length + 1) 0 0 0 []

def scanURLQuerySecret (s : Bytes) : Bytes × Nat :=
  scanLoop s (urlQueryAt s) (s.length + 1) 0 0 0 []

/-! ## The loop -/

section Loop

variable {P : ValuePattern UInt8} {s : Bytes} {find : Nat → Option (Nat × Nat)}

/-- The test at a position finds the match there, if there is one. -/
def Finds (P : ValuePattern UInt8) (s : Bytes) (find : Nat → Option (Nat × Nat)) : Prop :=
  ∀ pre x, s = pre ++ x → ∀ vs ve, find pre.length = some (vs, ve) ↔
    ∃ h v r, P.Match pre.getLast? x h v r ∧ vs = pre.length + h.length ∧ ve = vs + v.length

theorem Finds.none (hfind : Finds P s find) {pre x : Bytes} (hs : s = pre ++ x)
    (hno : ∀ h v r, ¬ P.Match pre.getLast? x h v r) : find pre.length = none := by
  cases hspan : find pre.length with
  | none => rfl
  | some span =>
    obtain ⟨h, v, r, hm, _⟩ := (hfind pre x hs span.1 span.2).mp hspan
    exact absurd hm (hno h v r)

theorem getLast?_append_lastOr (pre a : Bytes) : (pre ++ a).getLast? = lastOr pre.getLast? a :=
  List.getLast?_append

/-- Nothing is found over bytes no match starts at. -/
theorem Finds.none_over (hfind : Finds P s find) {pre gap y : Bytes} (hs : s = pre ++ (gap ++ y))
    (hno : ∀ a b, gap = a ++ b → b ≠ [] →
      ∀ h v r, ¬ P.Match (lastOr pre.getLast? a) (b ++ y) h v r) :
    ∀ j, pre.length ≤ j → j < pre.length + gap.length → find j = .none := by
  intro j hle hlt
  have hcut := List.take_append_drop (j - pre.length) gap
  have hdrop : gap.drop (j - pre.length) ≠ [] := by
    intro hnil
    have hlen := congrArg List.length hnil
    rw [List.length_drop, List.length_nil] at hlen
    omega
  have hj : (pre ++ gap.take (j - pre.length)).length = j := by
    rw [List.length_append, List.length_take]
    omega
  have hsplit : s = (pre ++ gap.take (j - pre.length)) ++ (gap.drop (j - pre.length) ++ y) := by
    rw [List.append_assoc, ← List.append_assoc (gap.take _), hcut]
    exact hs
  rw [← hj]
  refine hfind.none hsplit fun h v r hm => ?_
  rw [getLast?_append_lastOr] at hm
  exact hno _ _ hcut.symm hdrop h v r hm

/-- The walk over bytes at which nothing is found. -/
theorem scanLoop_walk (fuel last count : Nat) (out : Bytes) : ∀ (n i : Nat), i + n ≤ s.length →
    (∀ j, i ≤ j → j < i + n → find j = none) →
      scanLoop s find (fuel + n) i last count out =
        scanLoop s find fuel (i + n) last count out := by
  intro n
  induction n with
  | zero => intro i _ _; rfl
  | succ n ih =>
    intro i hlen hnone
    rw [← Nat.add_assoc, scanLoop, if_pos (by omega), hnone i (Nat.le_refl i) (by omega)]
    rw [ih (i + 1) (by omega) fun j hj hlt => hnone j (by omega) (by omega), Nat.add_right_comm,
      Nat.add_assoc]

/-- The values that are not masked yet. -/
def unmasked (parts : List (Bytes × Bytes)) : Nat :=
  parts.countP fun part => decide (part.2 ≠ maskText)

/-- **The loop masks the values of the leftmost matches**, whatever it has copied before. -/
theorem scanLoop_leftmost (hfind : Finds P s find) {prev : Option UInt8} {x tail : Bytes}
    {parts : List (Bytes × Bytes)} (hl : P.Leftmost prev x parts tail) :
    ∀ (pre out : Bytes) (fuel last count : Nat), s = pre ++ x → prev = pre.getLast? →
      last ≤ pre.length → s.length < fuel + pre.length → (count = 0 → out = [] ∧ last = 0) →
      scanLoop s find fuel pre.length last count out =
        (out ++ (pre.drop last ++ ValuePattern.render maskText parts tail),
          count + unmasked parts) := by
  induction hl with
  | @done prev x hnone =>
    intro pre out fuel last count hs hprev hlast hfuel hcount
    subst hprev
    have hlen : s.length = pre.length + x.length := by rw [hs, List.length_append]
    obtain ⟨fuel, rfl⟩ : ∃ f, fuel = f + 1 + x.length := ⟨fuel - 1 - x.length, by omega⟩
    have hwalk : ∀ j, pre.length ≤ j → j < pre.length + x.length → find j = none := by
      refine hfind.none_over (y := []) (by rw [List.append_nil]; exact hs) ?_
      intro a b hab _ h v r hm
      rw [List.append_nil] at hm
      exact hnone a b hab h v r hm
    rw [scanLoop_walk (fuel + 1) last count out x.length pre.length (by omega) hwalk, scanLoop,
      if_neg (by omega)]
    by_cases hzero : count = 0
    · obtain ⟨rfl, rfl⟩ := hcount hzero
      rw [if_pos hzero, hzero]
      exact congrArg (·, 0) hs
    · rw [if_neg hzero, hs, List.drop_append_of_le_length hlast]
      rfl
  | @next prev gap x h v r parts tail hgap hmatch hrest ih =>
    intro pre out fuel last count hs hprev hlast hfuel hcount
    subst hprev
    have hx := hmatch.text
    have hpos := List.length_pos_iff.mpr hmatch.value
    have hlen : s.length = pre.length + gap.length + h.length + v.length + r.length := by
      rw [hs, hx]
      simp only [List.length_append]
      omega
    obtain ⟨fuel, rfl⟩ : ∃ f, fuel = f + 1 + gap.length := ⟨fuel - 1 - gap.length, by omega⟩
    have hsplit : s = (pre ++ gap) ++ x := by rw [List.append_assoc]; exact hs
    have hfound : find (pre.length + gap.length) = some (pre.length + gap.length + h.length,
        pre.length + gap.length + h.length + v.length) := by
      rw [← List.length_append, hfind (pre ++ gap) x hsplit]
      rw [← getLast?_append_lastOr] at hmatch
      exact ⟨h, v, r, hmatch, rfl, rfl⟩
    rw [scanLoop_walk (fuel + 1) last count out gap.length pre.length (by omega)
      (hfind.none_over hs hgap), scanLoop, if_pos (by omega), hfound]
    dsimp only
    -- the loop goes on behind the value
    have hpre : (pre ++ (gap ++ (h ++ v))).length =
        pre.length + gap.length + h.length + v.length := by
      simp only [List.length_append]
      omega
    have hbehind : s = (pre ++ (gap ++ (h ++ v))) ++ r := by
      rw [hs, hx]
      simp only [List.append_assoc]
    have hhead : (pre ++ (gap ++ h)).length = pre.length + gap.length + h.length := by
      simp only [List.length_append]
      omega
    have hcut : pre ++ (gap ++ (h ++ v)) = (pre ++ (gap ++ h)) ++ v := by
      simp only [List.append_assoc]
    have hvalue : sliceOf s (pre.length + gap.length + h.length)
        (pre.length + gap.length + h.length + v.length) = v := by
      rw [sliceOf, hbehind, ← hpre, List.take_left, hcut, ← hhead, List.drop_left]
    rw [hvalue]
    by_cases hmasked : v = maskText
    · rw [if_pos hmasked, ← hpre, ih _ _ _ _ _ hbehind (getLast?_append_lastOr ..).symm
        (by rw [hpre]; omega) (by rw [hpre]; omega) hcount,
        List.drop_append_of_le_length hlast, ValuePattern.render, unmasked, unmasked,
        List.countP_cons_of_neg (by rw [decide_eq_true_eq]; exact fun hne => hne hmasked),
        ← hmasked]
      simp only [List.append_assoc]
    · have hcopied : sliceOf s last (pre.length + gap.length + h.length) =
          pre.drop last ++ (gap ++ h) := by
        rw [sliceOf, hbehind, hcut, List.append_assoc, ← hhead, List.take_left,
          List.drop_append_of_le_length hlast]
      rw [if_neg hmasked, ← hpre, ih _ _ _ _ _ hbehind (getLast?_append_lastOr ..).symm
        (Nat.le_refl _) (by rw [hpre]; omega) (fun hzero => absurd hzero (Nat.succ_ne_zero count)),
        hcopied, List.drop_length, ValuePattern.render, unmasked, unmasked,
        List.countP_cons_of_pos (by rw [decide_eq_true_eq]; exact hmasked)]
      simp only [List.append_assoc, List.nil_append, Prod.mk.injEq, true_and]
      omega

end Loop

end SenhubAgent.AgentState

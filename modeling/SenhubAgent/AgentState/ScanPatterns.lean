import SenhubAgent.AgentState.RedactScan
import SenhubAgent.Lib.Delimited

/-!
# What the parameter scanners look for

The patterns of `credential_param` and `url_query_secret`, written down apart from the code: what
may stand before a value (`credentialHead`, `urlQueryHead`) and what ends one. The scanners find
just their matches (`credentialAt_finds`, `urlQueryAt_finds`): the parts of a head are taken one
after the other, each as long as it can be, and no other way of cutting the text would do, since
nothing that may follow a part could go on with it.

`scanners_mask_values` puts this and the walk together. A second scan finds the same matches, all
of them masked.
-/

namespace SenhubAgent.AgentState

open SenhubAgent.Lib

/-! ## Reading a head -/

section Reading

variable {s pre x y : Bytes} {p : UInt8 → Bool}

/-- All bytes are of a class. -/
def Run (p : UInt8 → Bool) (l : Bytes) : Prop := ∀ c ∈ l, p c = true

/-- At most one byte, of a class. -/
def Optional (p : UInt8 → Bool) (l : Bytes) : Prop := l = [] ∨ ∃ c, p c = true ∧ l = [c]

theorem getElem?_length (hs : s = pre ++ x) : s[pre.length]? = x.head? := by
  rw [hs, List.getElem?_append_right (Nat.le_refl _), Nat.sub_self, List.head?_eq_getElem?]

theorem run_not {stop : UInt8 → Bool} : Run (fun c => !stop c) x ↔ ∀ c ∈ x, stop c = false := by
  simp [Run]

theorem stopsAt_not {stop : UInt8 → Bool} :
    StopsAt (fun c => !stop c) x ↔ ∀ c, x.head? = some c → stop c = true := by
  simp [StopsAt]

theorem advance_run {run : Bytes} (hs : s = pre ++ (run ++ y)) (hrun : Run p run)
    (hstop : StopsAt p y) : advance p s pre.length = (pre ++ run).length := by
  rw [advance, hs, List.drop_left, (takeWhile_of_stopsAt hrun hstop).1, List.length_append]

theorem advanceOne_optional {q : Bytes} (hs : s = pre ++ (q ++ y)) (hq : Optional p q)
    (hstop : q = [] → StopsAt p y) : advanceOne p s pre.length = (pre ++ q).length := by
  unfold advanceOne
  rw [getElem?_length hs]
  rcases hq with rfl | ⟨c, hc, rfl⟩
  · rw [List.append_nil, List.nil_append]
    cases y with
    | nil => rfl
    | cons c y => simp [hstop rfl c rfl]
  · simp [hc]

/-- A text starts with a run of a class, perhaps an empty one. -/
theorem exists_run (p : UInt8 → Bool) (x : Bytes) :
    ∃ run y, x = run ++ y ∧ Run p run ∧ StopsAt p y := by
  refine ⟨x.takeWhile p, x.dropWhile p, List.takeWhile_append_dropWhile.symm,
    fun c hc => List.mem_takeWhile_imp hc, fun c hc => ?_⟩
  have hnot := List.head?_dropWhile_not p x
  rw [hc] at hnot
  simpa using hnot

theorem exists_optional (p : UInt8 → Bool) (x : Bytes) :
    ∃ q y, x = q ++ y ∧ Optional p q ∧ (q = [] → StopsAt p y) := by
  cases x with
  | nil => exact ⟨[], [], rfl, .inl rfl, fun _ c hc => nomatch hc⟩
  | cons c x =>
    cases hc : p c with
    | true => exact ⟨[c], x, rfl, .inr ⟨c, hc, rfl⟩, fun hnil => nomatch hnil⟩
    | false => exact ⟨[], c :: x, rfl, .inl rfl, fun _ => stopsAt_cons hc x⟩

end Reading

/-! ## Keys -/

section Keys

variable {s pre x : Bytes} {fn : Nat → Option (Nat × Nat)} {keys : List Bytes}

/-- What `keysAt` accepts is a key, and what it returns comes from behind it. -/
theorem keysAt_sound (hs : s = pre ++ x) {span : Nat × Nat}
    (h : keysAt s pre.length fn keys = some span) :
    ∃ a y, x = a ++ y ∧ a.map asciiLower ∈ keys ∧ fn (pre ++ a).length = some span := by
  induction keys with
  | nil => cases h
  | cons k keys ih =>
    have hlater : keysAt s pre.length fn keys = some span → ∃ a y, x = a ++ y ∧
        a.map asciiLower ∈ k :: keys ∧ fn (pre ++ a).length = some span := by
      intro hrest
      obtain ⟨a, y, hx, hmem, hfn⟩ := ih hrest
      exact ⟨a, y, hx, List.mem_cons_of_mem _ hmem, hfn⟩
    rw [keysAt] at h
    split at h
    next => exact hlater h
    next hlen =>
      split at h
      next hkey =>
        split at h
        next found hfound =>
          cases h
          rw [hs, List.drop_left] at hkey
          have ha := congrArg List.length hkey
          rw [List.length_map] at ha
          refine ⟨x.take k.length, x.drop k.length, (List.take_append_drop ..).symm, ?_, ?_⟩
          · rw [hkey]
            exact List.mem_cons_self ..
          · rw [List.length_append, ha]
            exact hfound
        next => exact hlater h
      next => exact hlater h

/-- A key before what is accepted is not missed. -/
theorem keysAt_complete {a y : Bytes} (hs : s = pre ++ (a ++ y)) (hkey : a.map asciiLower ∈ keys)
    (hfn : fn (pre ++ a).length ≠ none) : keysAt s pre.length fn keys ≠ none := by
  induction keys with
  | nil => exact nomatch hkey
  | cons k keys ih =>
    rw [keysAt]
    rcases List.mem_cons.mp hkey with hk | hk
    · have hlen : a.length = k.length := by rw [← hk, List.length_map]
      rw [if_neg (by rw [hs]; simp only [List.length_append]; omega),
        if_pos (by rw [hs, List.drop_left, ← hlen, List.take_left, hk])]
      rw [List.length_append, hlen] at hfn
      split
      next => exact Option.some_ne_none _
      next hnone => exact absurd hnone hfn
    · split
      next => exact ih hk
      next =>
        split
        next =>
          split
          next => exact Option.some_ne_none _
          next => exact ih hk
        next => exact ih hk

/-- A key, in any case, before what `J` allows. -/
def KeyBefore (keys : List Bytes) (J : Bytes → Prop) (h : Bytes) : Prop :=
  ∃ key j, h = key ++ j ∧ key.map asciiLower ∈ keys ∧ J j

/-- With a test that finds what follows a key, `keysAt` finds the key with it. The keys are runs of
a class that what follows does not go on with, so at most one key is accepted. -/
theorem keysAt_finds {J : Bytes → Prop} {stop p : UInt8 → Bool}
    (hfn : Finds ⟨fun _ => J, stop⟩ s fn) (hkeys : ∀ key, key.map asciiLower ∈ keys → Run p key)
    (hstop : ∀ j y, J j → StopsAt p (j ++ y)) :
    Finds ⟨fun _ => KeyBefore keys J, stop⟩ s fun i => keysAt s i fn keys := by
  intro pre x hs vs ve
  constructor
  · intro h
    obtain ⟨key, y, hx, hkey, hspan⟩ := keysAt_sound hs h
    have hs' : s = (pre ++ key) ++ y := by rw [hs, hx, List.append_assoc]
    obtain ⟨j, v, r, hm, hvs, hve⟩ := (hfn _ _ hs' vs ve).mp hspan
    refine ⟨key ++ j, v, r, ⟨?_, ⟨key, j, rfl, hkey, hm.head⟩, hm.value, hm.inside, hm.ends⟩, ?_, hve⟩
    · rw [hx, hm.text, List.append_assoc]
    · rw [hvs, List.length_append, List.length_append, Nat.add_assoc]
  · intro ⟨h, v, r, hm, hvs, hve⟩
    obtain ⟨key, j, rfl, hkey, hj⟩ := hm.head
    have hx : x = key ++ (j ++ (v ++ r)) := by rw [hm.text, List.append_assoc]
    have hs' : s = (pre ++ key) ++ (j ++ (v ++ r)) := by rw [hs, hx, List.append_assoc]
    have hspan : fn (pre ++ key).length = some (vs, ve) := by
      refine (hfn _ _ hs' vs ve).mpr ⟨j, v, r, ⟨rfl, hj, hm.value, hm.inside, hm.ends⟩, ?_, hve⟩
      rw [hvs, List.length_append, List.length_append, Nat.add_assoc]
    dsimp only
    cases hfound : keysAt s pre.length fn keys with
    | none =>
      exact absurd hfound (keysAt_complete (hx ▸ hs) hkey (by rw [hspan]; exact Option.some_ne_none _))
    | some span =>
      -- whatever key is accepted ends where the joint begins
      obtain ⟨a, y, hsame, hakey, haspan⟩ := keysAt_sound hs hfound
      have hsa : s = (pre ++ a) ++ y := by rw [hs, hsame, List.append_assoc]
      obtain ⟨j', v', r', hm', _⟩ := (hfn _ _ hsa span.1 span.2).mp haspan
      rw [hx, hm'.text] at hsame
      have ha := (run_inj (hkeys a hakey) (hkeys key hkey) (hstop j' _ hm'.head) (hstop j _ hj)
        hsame.symm).1
      rw [ha, hspan] at haspan
      exact haspan.symm

end Keys

/-! ## The pattern of `credential_param` -/

section Credential

/-- `\b` between two bytes. -/
def wordBoundary (prev next : Option UInt8) : Prop := prev.any isWordByte ≠ next.any isWordByte

/-- `["']?\s*[=:]\s*["']?` -/
def credentialJoint (j : Bytes) : Prop :=
  ∃ q sp sep sp' q', j = q ++ (sp ++ sep :: (sp' ++ q')) ∧ Optional isQuote q ∧
    Run isRE2Space sp ∧ (sep = ascii '=' ∨ sep = ascii ':') ∧ Run isRE2Space sp' ∧
    Optional isQuote q'

/-- A key as a whole word, in any case, and what joins it to its value. -/
def credentialHead (prev : Option UInt8) (h : Bytes) : Prop :=
  ∃ key j, h = key ++ j ∧ wordBoundary prev key.head? ∧
    key.map asciiLower ∈ credentialParamKeys ∧ credentialJoint j

def credentialPattern : ValuePattern UInt8 := ⟨credentialHead, credentialStop⟩

variable {s pre x : Bytes}

variable {c : UInt8}

theorem not_quote_of_space (h : isRE2Space c = true) : isQuote c = false := by
  unfold isRE2Space at h
  simp only [Bool.or_eq_true, beq_iff_eq] at h
  rcases h with (((rfl | rfl) | rfl) | rfl) | rfl <;> decide

theorem not_space_of_value (h : credentialStop c = false) : isRE2Space c = false := by
  unfold credentialStop at h
  simp only [Bool.or_eq_false_iff] at h
  exact h.1.1.1.1

theorem not_quote_of_value (h : credentialStop c = false) : isQuote c = false := by
  unfold credentialStop at h
  simp only [Bool.or_eq_false_iff] at h
  exact h.1.1.2

/-- The parts of what follows a key, each as long as it can be. -/
structure Joint (x q sp : Bytes) (sep : UInt8) (sp' q' v r : Bytes) : Prop where
  text : x = q ++ (sp ++ sep :: (sp' ++ (q' ++ (v ++ r))))
  quote : Optional isQuote q
  quoteStop : q = [] → StopsAt isQuote (sp ++ sep :: (sp' ++ (q' ++ (v ++ r))))
  space : Run isRE2Space sp
  spaceStop : isRE2Space sep = false
  space' : Run isRE2Space sp'
  spaceStop' : StopsAt isRE2Space (q' ++ (v ++ r))
  quote' : Optional isQuote q'
  quoteStop' : q' = [] → StopsAt isQuote (v ++ r)
  value : Run (fun c => !credentialStop c) v
  valueStop : StopsAt (fun c => !credentialStop c) r

variable {q sp sp' q' v r : Bytes} {sep : UInt8}

/-- What the code computes from the parts. -/
theorem credentialValueSpan_parts (hs : s = pre ++ x) (h : Joint x q sp sep sp' q' v r) :
    credentialValueSpan s pre.length =
      if sep ≠ ascii '=' ∧ sep ≠ ascii ':' then none
      else if v = [] then none
      else some ((pre ++ (q ++ (sp ++ sep :: (sp' ++ q')))).length,
        (pre ++ (q ++ (sp ++ sep :: (sp' ++ q')))).length + v.length) := by
  have hq : advanceOne isQuote s pre.length = (pre ++ q).length :=
    advanceOne_optional (by rw [hs, h.text]) h.quote h.quoteStop
  have hsp : advance isRE2Space s (pre ++ q).length = (pre ++ q ++ sp).length :=
    advance_run (by rw [hs, h.text, List.append_assoc]) h.space (stopsAt_cons h.spaceStop _)
  have hsplit : s = (pre ++ q ++ sp) ++ sep :: (sp' ++ (q' ++ (v ++ r))) := by
    rw [hs, h.text]
    simp only [List.append_assoc]
  have hsep : s[(pre ++ q ++ sp).length]? = some sep := getElem?_length hsplit
  have hone : (pre ++ q ++ sp).length + 1 = (pre ++ q ++ sp ++ [sep]).length := by
    simp only [List.length_append, List.length_singleton]
  have hsplit' : s = (pre ++ q ++ sp ++ [sep]) ++ (sp' ++ (q' ++ (v ++ r))) := by
    rw [hsplit, List.append_assoc (pre ++ q ++ sp)]
    rfl
  have hsp' : advance isRE2Space s (pre ++ q ++ sp ++ [sep]).length =
      (pre ++ q ++ sp ++ [sep] ++ sp').length := advance_run hsplit' h.space' h.spaceStop'
  have hq' : advanceOne isQuote s (pre ++ q ++ sp ++ [sep] ++ sp').length =
      (pre ++ q ++ sp ++ [sep] ++ sp' ++ q').length :=
    advanceOne_optional (by rw [hsplit', List.append_assoc _ sp']) h.quote' h.quoteStop'
  have hv : advance (fun c => !credentialStop c) s
      (pre ++ q ++ sp ++ [sep] ++ sp' ++ q').length =
        (pre ++ q ++ sp ++ [sep] ++ sp' ++ q' ++ v).length :=
    advance_run (by rw [hsplit', List.append_assoc _ q', List.append_assoc _ sp']) h.value
      h.valueStop
  have hhead : pre ++ q ++ sp ++ [sep] ++ sp' ++ q' = pre ++ (q ++ (sp ++ sep :: (sp' ++ q'))) := by
    simp only [List.append_assoc, List.cons_append, List.nil_append]
  unfold credentialValueSpan
  dsimp only
  rw [hq, hsp, hsep]
  dsimp only
  rw [hone, hsp', hq', hv, List.length_append, hhead]
  split
  next => rfl
  next =>
    by_cases hnil : v = []
    · rw [if_pos hnil, if_pos (by rw [hnil, List.length_nil, Nat.add_zero])]
    · have hpos := List.length_pos_iff.mpr hnil
      rw [if_neg hnil, if_neg (by omega)]

theorem separator_plain (h : sep = ascii '=' ∨ sep = ascii ':') :
    isRE2Space sep = false ∧ isQuote sep = false ∧ isWordByte sep = false := by
  rcases h with rfl | rfl <;> decide

/-- The parts of the pattern are as long as they can be: nothing that may follow one could go on
with it. -/
theorem Joint.of_pattern (hq : Optional isQuote q) (hsp : Run isRE2Space sp)
    (hsep : sep = ascii '=' ∨ sep = ascii ':') (hsp' : Run isRE2Space sp')
    (hq' : Optional isQuote q') (hne : v ≠ []) (hv : ∀ c ∈ v, credentialStop c = false)
    (hr : ∀ c, r.head? = some c → credentialStop c = true) :
    Joint (q ++ (sp ++ sep :: (sp' ++ (q' ++ (v ++ r))))) q sp sep sp' q' v r := by
  obtain ⟨c, v', rfl⟩ := List.exists_cons_of_ne_nil hne
  have hc := hv c (List.mem_cons_self ..)
  obtain ⟨hspace, hquote, _⟩ := separator_plain hsep
  constructor
  case text => rfl
  case quote => exact hq
  case quoteStop =>
    intro _
    cases sp with
    | nil => exact stopsAt_cons hquote _
    | cons b sp => exact stopsAt_cons (not_quote_of_space (hsp b (List.mem_cons_self ..))) _
  case space => exact hsp
  case spaceStop => exact hspace
  case space' => exact hsp'
  case spaceStop' =>
    rcases hq' with rfl | ⟨b, hb, rfl⟩
    · exact stopsAt_cons (not_space_of_value hc) _
    · refine stopsAt_cons ?_ _
      cases hbs : isRE2Space b with
      | false => rfl
      | true =>
        rw [not_quote_of_space hbs] at hb
        cases hb
  case quote' => exact hq'
  case quoteStop' => exact fun _ => stopsAt_cons (not_quote_of_value hc) _
  case value => exact run_not.mpr hv
  case valueStop => exact stopsAt_not.mpr hr

/-- The code finds what the pattern allows after a key. -/
theorem credentialValueSpan_finds (s : Bytes) :
    Finds ⟨fun _ => credentialJoint, credentialStop⟩ s (credentialValueSpan s) := by
  intro pre x hs vs ve
  constructor
  · intro h
    -- cut the text as far as each part goes
    obtain ⟨q, y, hx, hq, hqstop⟩ := exists_optional isQuote x
    obtain ⟨sp, y₂, hy, hsp, hspstop⟩ := exists_run isRE2Space y
    cases y₂ with
    | nil =>
      rw [List.append_nil] at hy
      subst hy hx
      have hend : s = (pre ++ q ++ y) := by rw [hs, List.append_assoc]
      rw [credentialValueSpan] at h
      rw [advanceOne_optional hs hq hqstop,
        advance_run (show s = (pre ++ q) ++ (y ++ []) by rw [hend, List.append_nil]) hsp hspstop,
        ← hend,
        List.getElem?_eq_none (Nat.le_refl _)] at h
      cases h
    | cons sep y₃ =>
      obtain ⟨sp', y₄, hy₃, hsp', hsp'stop⟩ := exists_run isRE2Space y₃
      obtain ⟨q', y₅, hy₄, hq', hq'stop⟩ := exists_optional isQuote y₄
      obtain ⟨v, r, hy₅, hv, hr⟩ := exists_run (fun c => !credentialStop c) y₅
      subst hy₅ hy₄ hy₃ hy hx
      rw [credentialValueSpan_parts hs ⟨rfl, hq, hqstop, hsp, hspstop sep rfl, hsp', hsp'stop, hq',
        hq'stop, hv, hr⟩] at h
      split at h
      next => cases h
      next hsep =>
        split at h
        next => cases h
        next hne =>
          rw [Option.some.injEq, Prod.mk.injEq, List.length_append] at h
          refine ⟨q ++ (sp ++ sep :: (sp' ++ q')), v, r, ⟨?_,
            ⟨q, sp, sep, sp', q', rfl, hq, hsp, ?_, hsp', hq'⟩, hne, run_not.mp hv,
            stopsAt_not.mp hr⟩, h.1.symm, ?_⟩
          · simp only [List.append_assoc, List.cons_append]
          · by_contra hnot
            exact hsep (not_or.mp hnot)
          · rw [← h.2, ← h.1]
  · intro ⟨j, v, r, ⟨hx, ⟨q, sp, sep, sp', q', hj, hq, hsp, hsep, hsp', hq'⟩, hne, hv, hr⟩, hvs, hve⟩
    have htext : x = q ++ (sp ++ sep :: (sp' ++ (q' ++ (v ++ r)))) := by
      rw [hx, hj]
      simp only [List.append_assoc, List.cons_append]
    have hparts := Joint.of_pattern hq hsp hsep hsp' hq' hne hv hr
    rw [← htext] at hparts
    rw [credentialValueSpan_parts hs hparts, if_neg (fun hnot => hsep.elim hnot.1 hnot.2),
      if_neg hne, hvs, hve, hvs, ← hj, List.length_append]

theorem isWordByte_iff (c : UInt8) : isWordByte c = true ↔
    c.toNat = 95 ∨ (48 ≤ c.toNat ∧ c.toNat ≤ 57) ∨ (97 ≤ c.toNat ∧ c.toNat ≤ 122) ∨
      (65 ≤ c.toNat ∧ c.toNat ≤ 90) := by
  have h_ : (ascii '_').toNat = 95 := rfl
  have h0 : (ascii '0').toNat = 48 := rfl
  have h9 : (ascii '9').toNat = 57 := rfl
  have ha : (ascii 'a').toNat = 97 := rfl
  have hz : (ascii 'z').toNat = 122 := rfl
  have hA : (ascii 'A').toNat = 65 := rfl
  have hZ : (ascii 'Z').toNat = 90 := rfl
  unfold isWordByte
  simp only [Bool.or_eq_true, Bool.and_eq_true, decide_eq_true_eq, beq_iff_eq,
    UInt8.le_iff_toNat_le, ← UInt8.toNat_inj]
  omega

theorem asciiLower_toNat (c : UInt8) : (asciiLower c).toNat =
    if 65 ≤ c.toNat ∧ c.toNat ≤ 90 then c.toNat + 32 else c.toNat := by
  have hA : (ascii 'A').toNat = 65 := rfl
  have hZ : (ascii 'Z').toNat = 90 := rfl
  have h32 : (32 : UInt8).toNat = 32 := rfl
  unfold asciiLower
  simp only [Bool.and_eq_true, decide_eq_true_eq, UInt8.le_iff_toNat_le, hA, hZ]
  split
  next =>
    rw [UInt8.toNat_add]
    omega
  next => rfl

theorem isWordByte_of_lower (h : isWordByte (asciiLower c) = true) : isWordByte c = true := by
  have hlower := asciiLower_toNat c
  rw [isWordByte_iff] at h ⊢
  split at hlower
  next => omega
  next => omega

/-- The keys are words, and the first byte test knows them all. -/
theorem credentialParamKeys_words : ∀ k ∈ credentialParamKeys, k ≠ [] ∧
    (∀ c ∈ k, isWordByte c = true) ∧ ∀ c, k.head? = some c → credentialFirstByte c = true := by
  have hall : (credentialParamKeys.all fun k => !k.isEmpty && k.all isWordByte &&
      k.head?.all credentialFirstByte) = true := by decide
  intro k hk
  have hkey := List.all_eq_true.mp hall k hk
  simp only [Bool.and_eq_true, Bool.not_eq_true', List.isEmpty_eq_false_iff, List.all_eq_true]
    at hkey
  refine ⟨hkey.1.1, hkey.1.2, fun c hc => ?_⟩
  have hfirst := hkey.2
  rw [hc] at hfirst
  exact hfirst

/-- A key in the text, whatever its case. -/
theorem key_words {key : Bytes} (h : key.map asciiLower ∈ credentialParamKeys) :
    key ≠ [] ∧ Run isWordByte key ∧
      ∀ c, key.head? = some c → credentialFirstByte (asciiLower c) = true := by
  obtain ⟨hne, hwords, hfirst⟩ := credentialParamKeys_words _ h
  refine ⟨fun hnil => hne (by rw [hnil]; rfl), fun c hc => ?_, fun c hc => ?_⟩
  · exact isWordByte_of_lower (hwords _ (List.mem_map_of_mem hc))
  · exact hfirst _ (by rw [List.head?_map, hc]; rfl)

/-- What follows a key is no word. -/
theorem credentialJoint.stops {j : Bytes} (h : credentialJoint j) (y : Bytes) :
    StopsAt isWordByte (j ++ y) := by
  obtain ⟨q, sp, sep, sp', q', rfl, hq, hsp, hsep, _⟩ := h
  have hquote : ∀ {c}, isQuote c = true → isWordByte c = false := by
    intro c hc
    unfold isQuote at hc
    simp only [Bool.or_eq_true, beq_iff_eq] at hc
    rcases hc with rfl | rfl <;> decide
  have hspace : ∀ {c}, isRE2Space c = true → isWordByte c = false := by
    intro c hc
    unfold isRE2Space at hc
    simp only [Bool.or_eq_true, beq_iff_eq] at hc
    rcases hc with (((rfl | rfl) | rfl) | rfl) | rfl <;> decide
  rcases hq with rfl | ⟨c, hc, rfl⟩
  · cases sp with
    | nil => exact stopsAt_cons (separator_plain hsep).2.2 _
    | cons c sp => exact stopsAt_cons (hspace (hsp c (List.mem_cons_self ..))) _
  · exact stopsAt_cons (hquote hc) _

/-- **The scanner finds the matches of the pattern.** -/
theorem credentialAt_finds (s : Bytes) : Finds credentialPattern s (credentialAt s) := by
  intro pre x hs vs ve
  have hbefore : byteBefore s pre.length = pre.getLast? := by rw [hs, byteBefore, List.take_left]
  have hkeys := keysAt_finds (credentialValueSpan_finds s) (fun _ h => (key_words h).2.1)
    (fun _ y h => h.stops y) pre x hs vs ve
  unfold credentialAt
  rw [getElem?_length hs, hbefore]
  constructor
  · intro h
    split at h
    next => cases h
    next c hc =>
      split at h
      next => cases h
      next hguard =>
        simp only [Bool.or_eq_true, Bool.not_eq_true', not_or, Bool.not_eq_false,
          Bool.not_eq_true] at hguard
        obtain ⟨_, v, r, hm, hspan⟩ := hkeys.mp h
        obtain ⟨key, j, rfl, hkey, hj⟩ := hm.head
        obtain ⟨a, key', rfl⟩ := List.exists_cons_of_ne_nil (key_words hkey).1
        have hac : a = c := by
          rw [hm.text] at hc
          exact Option.some.inj hc
        refine ⟨_, v, r, { hm with head := ⟨a :: key', j, rfl, ?_, hkey, hj⟩ }, hspan⟩
        unfold wordBoundary
        rw [hguard.1.2, List.head?_cons, hac]
        simp only [Option.any_some, hguard.1.1]
        exact Bool.false_ne_true
  · intro ⟨h, v, r, hm, hspan⟩
    obtain ⟨key, j, rfl, hboundary, hkey, hj⟩ := hm.head
    obtain ⟨hne, hwords, hfirst⟩ := key_words hkey
    obtain ⟨c, key', rfl⟩ := List.exists_cons_of_ne_nil hne
    have hword := hwords c (List.mem_cons_self ..)
    have hprev : pre.getLast?.any isWordByte = false := by
      unfold wordBoundary at hboundary
      rw [List.head?_cons, Option.any_some, hword] at hboundary
      exact Bool.eq_false_iff.mpr hboundary
    rw [show x.head? = some c by rw [hm.text]; rfl]
    dsimp only
    rw [if_neg (by rw [hword, hprev, hfirst c rfl]; exact Bool.false_ne_true)]
    exact hkeys.mpr ⟨_, v, r, { hm with head := ⟨c :: key', j, rfl, hkey, hj⟩ }, hspan⟩

theorem not_word_of_stop (h : credentialStop c = true) : isWordByte c = false := by
  unfold credentialStop isRE2Space isQuote at h
  simp only [Bool.or_eq_true, beq_iff_eq] at h
  rcases h with ((((((((rfl | rfl) | rfl) | rfl) | rfl) | rfl) | rfl | rfl) | rfl) | rfl) <;> decide

theorem credentialPattern_maskable : credentialPattern.Maskable maskText := by
  constructor
  case head_ne =>
    intro prev h hh
    obtain ⟨key, j, rfl, _, hkey, _⟩ := hh
    exact fun hnil => (key_words hkey).1 (List.append_eq_nil_iff.mp hnil).1
  case mask_ne => decide
  case mask_inside =>
    intro c hc
    rw [eq_star_of_mem hc]
    decide
  case mask_head =>
    intro prev h hh c hc hmem
    rw [eq_star_of_mem hc] at hmem
    obtain ⟨key, j, rfl, _, hkey, q, sp, sep, sp', q', rfl, hq, hsp, hsep, hsp', hq'⟩ := hh
    have hrun : ∀ {p : UInt8 → Bool} {l : Bytes}, Run p l → p (ascii '*') = false →
        ascii '*' ∉ l := by
      intro p l hl hp hin
      rw [hl _ hin] at hp
      cases hp
    have hoptional : ∀ {l : Bytes}, Optional isQuote l → ascii '*' ∉ l := by
      intro l hl hin
      rcases hl with rfl | ⟨c, hc, rfl⟩
      · exact nomatch hin
      · rw [← List.mem_singleton.mp hin] at hc
        exact absurd hc (by decide)
    have hsepstar : ascii '*' ≠ sep := by rcases hsep with rfl | rfl <;> decide
    simp only [List.mem_append, List.mem_cons] at hmem
    rcases hmem with hin | hin | hin | hin | hin | hin
    · exact hrun (key_words hkey).2.1 (by decide) hin
    · exact hoptional hq hin
    · exact hrun hsp (by decide) hin
    · exact hsepstar hin
    · exact hrun hsp' (by decide) hin
    · exact hoptional hq' hin
  case head_prev =>
    -- a key does not start with the end of a value
    intro prev prev' c h hh hc
    obtain ⟨key, j, heq, _, hkey, _⟩ := hh
    obtain ⟨hne, hwords, _⟩ := key_words hkey
    obtain ⟨b, key', rfl⟩ := List.exists_cons_of_ne_nil hne
    obtain ⟨rfl, _⟩ := List.cons.inj heq
    have hword := hwords c (List.mem_cons_self ..)
    rw [not_word_of_stop hc] at hword
    cases hword

end Credential

/-! ## The pattern of `url_query_secret` -/

section URLQuery

/-- `[?&]`, a key in any case, `=`. -/
def urlQueryHead (_ : Option UInt8) (h : Bytes) : Prop :=
  ∃ mark key, h = mark :: (key ++ [ascii '=']) ∧ (mark = ascii '?' ∨ mark = ascii '&') ∧
    key.map asciiLower ∈ urlQuerySecretKeys

def urlQueryPattern : ValuePattern UInt8 := ⟨urlQueryHead, urlQueryStop⟩

variable {s pre x : Bytes}

theorem urlQueryValueSpan_finds (s : Bytes) :
    Finds ⟨fun _ j => j = [ascii '='], urlQueryStop⟩ s (urlQueryValueSpan s) := by
  intro pre x hs vs ve
  have hspan : ∀ {v r : Bytes}, x = ascii '=' :: (v ++ r) → Run (fun c => !urlQueryStop c) v →
      StopsAt (fun c => !urlQueryStop c) r →
        advance (fun c => !urlQueryStop c) s (pre.length + 1) = pre.length + 1 + v.length := by
    intro v r hx hv hr
    have hsplit : s = (pre ++ [ascii '=']) ++ (v ++ r) := by
      rw [hs, hx, List.append_assoc]
      rfl
    have hrun := advance_run hsplit hv hr
    simp only [List.length_append, List.length_singleton] at hrun
    exact hrun
  unfold urlQueryValueSpan
  rw [getElem?_length hs]
  dsimp only
  constructor
  · intro h
    split at h
    next => cases h
    next hmark =>
      obtain ⟨y, hy⟩ : ∃ y, x = ascii '=' :: y :=
        List.head?_eq_some_iff.mp (Decidable.not_not.mp hmark)
      obtain ⟨v, r, hvr, hv, hr⟩ := exists_run (fun c => !urlQueryStop c) y
      rw [hvr] at hy
      rw [hspan hy hv hr] at h
      split at h
      next hlen =>
        rw [Option.some.injEq, Prod.mk.injEq] at h
        refine ⟨_, v, r, ⟨hy, rfl, fun hnil => ?_, run_not.mp hv, stopsAt_not.mp hr⟩, h.1.symm, ?_⟩
        · rw [hnil, List.length_nil] at hlen
          omega
        · rw [← h.2, ← h.1]
      next => cases h
  · intro ⟨j, v, r, ⟨hx, hj, hne, hv, hr⟩, hvs, hve⟩
    have hj : j = [ascii '='] := hj
    rw [hj, List.cons_append, List.nil_append] at hx
    rw [hj, List.length_singleton] at hvs
    have hpos := List.length_pos_iff.mpr hne
    rw [hspan hx (run_not.mpr hv) (stopsAt_not.mpr hr), if_neg (by rw [hx]; exact fun hnot => hnot rfl),
      if_pos (by omega), hve, hvs]

/-- No key holds the sign that ends it. -/
theorem urlQuery_key {key : Bytes} (h : key.map asciiLower ∈ urlQuerySecretKeys) :
    Run (fun c => c != ascii '=') key ∧ ascii '*' ∉ key := by
  have hall : (urlQuerySecretKeys.all fun k =>
      !k.contains (ascii '=') && !k.contains (ascii '*')) = true := by decide
  have hkey := List.all_eq_true.mp hall _ h
  simp only [Bool.and_eq_true, Bool.not_eq_true', List.contains_eq_mem, decide_eq_false_iff_not]
    at hkey
  constructor
  · intro c hc
    rw [bne_iff_ne]
    rintro rfl
    exact hkey.1 (List.mem_map_of_mem (f := asciiLower) hc)
  · intro hc
    exact hkey.2 (List.mem_map_of_mem (f := asciiLower) hc)

/-- **The scanner finds the matches of the pattern.** -/
theorem urlQueryAt_finds (s : Bytes) : Finds urlQueryPattern s (urlQueryAt s) := by
  intro pre x hs vs ve
  have hstop : ∀ j y : Bytes, j = [ascii '='] → StopsAt (fun c => c != ascii '=') (j ++ y) := by
    rintro _ y rfl
    exact stopsAt_cons (by decide) y
  have hkeys := keysAt_finds (urlQueryValueSpan_finds s) (fun _ h => (urlQuery_key h).1) hstop
  have hone : ∀ mark : UInt8, pre.length + 1 = (pre ++ [mark]).length := fun mark => by simp
  have hmarked : ∀ {mark : UInt8} {y : Bytes}, x = mark :: y → s = (pre ++ [mark]) ++ y := by
    intro mark y hx
    rw [hs, hx, List.append_assoc]
    rfl
  unfold urlQueryAt
  rw [getElem?_length hs]
  constructor
  · intro h
    split at h
    next => cases h
    next mark hmark =>
      obtain ⟨y, rfl⟩ := List.head?_eq_some_iff.mp hmark
      split at h
      next => cases h
      next hq =>
        rw [hone mark] at h
        obtain ⟨_, v, r, hm, hvs, hve⟩ := (hkeys _ _ (hmarked rfl) vs ve).mp h
        obtain ⟨key, _, rfl, hkey, rfl⟩ := hm.head
        refine ⟨mark :: (key ++ [ascii '=']), v, r, { hm with
          text := congrArg (mark :: ·) hm.text
          head := ⟨mark, key, rfl, ?_, hkey⟩ }, ?_, hve⟩
        · by_contra hnot
          exact hq (not_or.mp hnot)
        · rw [hvs, ← hone, List.length_cons, Nat.add_right_comm]
          rfl
  · intro ⟨h, v, r, hm, hvs, hve⟩
    obtain ⟨mark, key, rfl, hmark, hkey⟩ := hm.head
    have hx := hm.text
    rw [List.cons_append] at hx
    rw [show x.head? = some mark by rw [hx]; rfl]
    dsimp only
    rw [if_neg (fun hnot => hmark.elim hnot.1 hnot.2), hone mark]
    refine (hkeys _ _ (hmarked hx) vs ve).mpr
      ⟨_, v, r, { hm with text := rfl, head := ⟨key, _, rfl, hkey, rfl⟩ }, ?_, hve⟩
    rw [hvs, ← hone, List.length_cons, Nat.add_right_comm]
    rfl

theorem urlQueryPattern_maskable : urlQueryPattern.Maskable maskText where
  head_ne := by
    intro prev h hh
    obtain ⟨mark, key, rfl, _⟩ := hh
    exact List.cons_ne_nil _ _
  mask_ne := by decide
  mask_inside := by
    intro c hc
    rw [eq_star_of_mem hc]
    decide
  mask_head := by
    intro prev h hh c hc hmem
    rw [eq_star_of_mem hc] at hmem
    obtain ⟨mark, key, rfl, hmark, hkey⟩ := hh
    simp only [List.mem_append, List.mem_cons, List.not_mem_nil, or_false] at hmem
    rcases hmem with hin | hin | hin
    · rcases hmark with rfl | rfl
      · exact absurd hin (by decide)
      · exact absurd hin (by decide)
    · exact (urlQuery_key hkey).2 hin
    · exact absurd hin (by decide)
  head_prev := fun hh _ => hh

end URLQuery

/-! ## The scanners mask the values of their patterns -/

/-- What a scanner has to do with a text: it puts the mask for the value of every leftmost match
and changes nothing else, counts the values that were not masked, and finds nothing more to do in
what it returns. -/
def MasksValues (P : ValuePattern UInt8) (scan : Bytes → Bytes × Nat) (s : Bytes) : Prop :=
  (∃ parts tail, P.Leftmost none s parts tail) ∧
    (∀ parts tail, P.Leftmost none s parts tail →
      s = ValuePattern.original parts tail ∧
        scan s = (ValuePattern.render maskText parts tail, unmasked parts)) ∧
    scan (scan s).1 = ((scan s).1, 0)

theorem render_masked (mask : Bytes) : ∀ (parts : List (Bytes × Bytes)) (tail : Bytes),
    ValuePattern.render mask (parts.map fun part => (part.1, mask)) tail =
      ValuePattern.render mask parts tail := by
  intro parts tail
  induction parts with
  | nil => rfl
  | cons part parts ih => rw [List.map_cons, ValuePattern.render, ValuePattern.render, ih]

theorem unmasked_masked (parts : List (Bytes × Bytes)) :
    unmasked (parts.map fun part => (part.1, maskText)) = 0 := by
  unfold unmasked
  rw [List.countP_map, List.countP_eq_zero]
  intro part _
  simp

/-- A loop over a test that finds the matches of a pattern masks their values. -/
theorem masksValues {P : ValuePattern UInt8} (hP : P.Maskable maskText)
    {find : Bytes → Nat → Option (Nat × Nat)} (hfind : ∀ s, Finds P s (find s)) (s : Bytes) :
    MasksValues P (fun s => scanLoop s (find s) (s.length + 1) 0 0 0 []) s := by
  have hscan : ∀ {s : Bytes} {parts tail}, P.Leftmost none s parts tail →
      scanLoop s (find s) (s.length + 1) 0 0 0 [] =
        (ValuePattern.render maskText parts tail, unmasked parts) := by
    intro s parts tail hl
    have hloop := scanLoop_leftmost (hfind s) hl [] [] (s.length + 1) 0 0 rfl rfl (Nat.le_refl 0)
      (Nat.lt_succ_self _) (fun _ => ⟨rfl, rfl⟩)
    rw [Nat.zero_add] at hloop
    exact hloop
  obtain ⟨parts, tail, hl⟩ := P.exists_leftmost s.length none s (Nat.le_refl _)
  refine ⟨⟨parts, tail, hl⟩, fun parts tail hl => ⟨hl.text.symm, hscan hl⟩, ?_⟩
  dsimp only
  rw [hscan hl]
  rw [hscan (hl.masked hP), render_masked, unmasked_masked]

/-- **The parameter scanners mask the values of their patterns**, each once. -/
theorem scanners_mask_values (s : Bytes) :
    MasksValues credentialPattern scanCredentialParam s ∧
      MasksValues urlQueryPattern scanURLQuerySecret s :=
  ⟨masksValues credentialPattern_maskable credentialAt_finds s,
    masksValues urlQueryPattern_maskable urlQueryAt_finds s⟩

example : scanCredentialParam (asciiText "mytoken=1 Token: \"abc\" pwd=***") =
    (asciiText "mytoken=1 Token: \"***\" pwd=***", 1) := by decide

end SenhubAgent.AgentState

import Mathlib.Data.List.Infix
import SenhubAgent.Lib.Delimited

/-!
# PEM armour lines

The two patterns of `log_redact_pem.go`, `-----BEGIN [A-Z0-9 ]*PRIVATE KEY-----` and
its `END`, as scanners on characters. The label between the word and `PRIVATE KEY`
is greedy over a class without `-`, so what follows the word can match in one way
only: the longest run of class characters, which has to end in `PRIVATE KEY` and be
followed by five dashes. `armourAt_iff` says that this is the pattern; `findArmour`
takes its leftmost match, and `findArmour_eq` says how that cuts the text.
-/

namespace SenhubAgent.AgentState

open SenhubAgent.Lib

/-- `[A-Z0-9 ]`. -/
def armourChar (c : Char) : Bool := c.isUpper || c.isDigit || c == ' '

def dashes : List Char := "-----".toList

def privateKeyText : List Char := "PRIVATE KEY".toList

/-- `BEGIN` or `END`. -/
inductive ArmourWord where
  | begins | ends
  deriving DecidableEq, Repr

def ArmourWord.text : ArmourWord → List Char
  | .begins => "BEGIN ".toList
  | .ends => "END ".toList

/-- An armour line, as the pattern describes it. -/
def IsArmour (w : ArmourWord) (m : List Char) : Prop :=
  ∃ label, (∀ c ∈ label, armourChar c = true) ∧
    m = dashes ++ w.text ++ (label ++ privateKeyText) ++ dashes

/-- `s` without the text `p` it starts with. -/
def dropPrefix (p s : List Char) : Option (List Char) :=
  if p <+: s then some (s.drop p.length) else none

variable {s rest m : List Char} {w : ArmourWord} {c : Char}

theorem dropPrefix_eq_some {p : List Char} : dropPrefix p s = some rest ↔ s = p ++ rest := by
  unfold dropPrefix
  constructor
  · intro h
    split at h
    next hp =>
      obtain ⟨t, rfl⟩ := hp
      rw [List.drop_left, Option.some.injEq] at h
      rw [h]
    next => cases h
  · rintro rfl
    rw [if_pos (List.prefix_append p rest), List.drop_left]

/-- The armour line `s` starts with, and what follows it. -/
def armourAt (w : ArmourWord) (s : List Char) : Option (List Char × List Char) :=
  match dropPrefix (dashes ++ w.text) s with
  | none => none
  | some s' =>
    -- the class has no `-`: the run ends where the closing dashes start
    let run := s'.takeWhile armourChar
    if privateKeyText <:+ run then
      (dropPrefix dashes (s'.dropWhile armourChar)).map fun rest =>
        (dashes ++ w.text ++ run ++ dashes, rest)
    else none

theorem privateKeyText_class : ∀ c ∈ privateKeyText, armourChar c = true := by
  have hall : privateKeyText.all armourChar = true := by decide
  exact List.all_eq_true.mp hall

/-- The class does not reach into the closing dashes. -/
theorem dashes_stop (rest : List Char) : StopsAt armourChar (dashes ++ rest) :=
  stopsAt_cons (by decide) _

/-- The scanner is the pattern. -/
theorem armourAt_iff : armourAt w s = some (m, rest) ↔ IsArmour w m ∧ s = m ++ rest := by
  unfold armourAt
  constructor
  · intro h
    split at h
    next => cases h
    next s' hs' =>
      rw [dropPrefix_eq_some] at hs'
      dsimp only at h
      split at h
      next hsuffix =>
        obtain ⟨rest', hrest', heq⟩ := Option.map_eq_some_iff.mp h
        obtain ⟨label, hlabel⟩ := hsuffix
        rw [dropPrefix_eq_some] at hrest'
        rw [Prod.mk.injEq] at heq
        obtain ⟨rfl, rfl⟩ := heq
        refine ⟨⟨label, fun c hc => ?_, by rw [hlabel]⟩, ?_⟩
        · have hin : c ∈ s'.takeWhile armourChar := by
            rw [← hlabel]
            exact List.mem_append_left _ hc
          exact List.mem_takeWhile_imp hin
        · have hjoin := List.takeWhile_append_dropWhile (p := armourChar) (l := s')
          rw [hrest'] at hjoin
          rw [hs']
          simp only [List.append_assoc]
          rw [hjoin]
      next => cases h
  · -- the label and `PRIVATE KEY` are one run of the class, so the scanner takes both
    rintro ⟨⟨label, hlabel, rfl⟩, rfl⟩
    have hclass : ∀ c ∈ label ++ privateKeyText, armourChar c = true := by
      intro c hc
      rcases List.mem_append.mp hc with hc | hc
      · exact hlabel c hc
      · exact privateKeyText_class c hc
    have hdrop : dropPrefix (dashes ++ w.text)
        (dashes ++ w.text ++ (label ++ privateKeyText) ++ dashes ++ rest)
        = some ((label ++ privateKeyText) ++ (dashes ++ rest)) := by
      rw [dropPrefix_eq_some]
      simp only [List.append_assoc]
    obtain ⟨htake, hrest⟩ := takeWhile_of_stopsAt hclass (dashes_stop rest)
    rw [hdrop]
    dsimp only
    rw [htake, hrest, if_pos (List.suffix_append label privateKeyText), dropPrefix_eq_some.mpr rfl]
    rfl

/-! ## Searching -/

/-- The leftmost armour line: what precedes it, the line, what follows. -/
def findArmour (w : ArmourWord) : List Char → Option (List Char × List Char × List Char)
  | [] => none
  | c :: cs =>
    match armourAt w (c :: cs) with
    | some (m, rest) => some ([], m, rest)
    | none => (findArmour w cs).map fun found => (c :: found.1, found.2)

theorem findArmour_eq :
    ∀ {s before m rest : List Char}, findArmour w s = some (before, m, rest) →
      IsArmour w m ∧ s = before ++ m ++ rest := by
  intro s
  induction s with
  | nil => intro before m rest h; cases h
  | cons c cs ih =>
    intro before m rest h
    unfold findArmour at h
    split at h
    next m' rest' hat =>
      rw [Option.some.injEq, Prod.mk.injEq, Prod.mk.injEq] at h
      obtain ⟨rfl, rfl, rfl⟩ := h
      exact armourAt_iff.mp hat
    next =>
      obtain ⟨found, hfound, heq⟩ := Option.map_eq_some_iff.mp h
      rw [Prod.mk.injEq] at heq
      obtain ⟨rfl, hrest⟩ := heq
      obtain ⟨harmour, hcs⟩ := ih (hfound.trans (by rw [← hrest]))
      exact ⟨harmour, by rw [hcs]; rfl⟩

/-- What follows each `BEGIN` line, the lines taken left to right and apart; `skip`
characters belong to the one just taken. -/
def beginTails : Nat → List Char → List (List Char)
  | _, [] => []
  | skip + 1, _ :: cs => beginTails skip cs
  | 0, c :: cs =>
    match armourAt .begins (c :: cs) with
    | some (m, rest) => rest :: beginTails (m.length - 1) cs
    | none => beginTails 0 cs

def hasUnclosedPEMBegin (body : List Char) : Bool :=
  (beginTails 0 body).any fun tail => (findArmour .ends tail).isNone

/-- The `private_key` rule: each block keeps its armour lines; one that is not closed
is masked to the end. -/
def maskPrivateKeys : Nat → List Char → List Char
  | _, [] => []
  | skip + 1, _ :: cs => maskPrivateKeys skip cs
  | 0, c :: cs =>
    match armourAt .begins (c :: cs) with
    | none => c :: maskPrivateKeys 0 cs
    | some (m, rest) =>
      match findArmour .ends rest with
      | none => m ++ "***".toList
      | some (key, m', _) =>
        m ++ "***".toList ++ m' ++ maskPrivateKeys (m.length + key.length + m'.length - 1) cs

/-! ## Text in lines

No armour line reaches over a character that none of them has, so the scanners go through a text
line by line. -/

theorem armour_chars (h : IsArmour w m) (hc : c ∈ m) : c = '-' ∨ armourChar c = true := by
  obtain ⟨label, hlabel, rfl⟩ := h
  have hall : (dashes ++ w.text).all (fun c => c == '-' || armourChar c) = true := by
    cases w <;> rfl
  have htext : ∀ c ∈ dashes ++ w.text, c = '-' ∨ armourChar c = true := by
    intro c hc
    simpa only [Bool.or_eq_true, beq_iff_eq] using List.all_eq_true.mp hall c hc
  rcases List.mem_append.mp hc with hc | hc
  · rcases List.mem_append.mp hc with hc | hc
    · exact htext c hc
    · rcases List.mem_append.mp hc with hc | hc
      · exact .inr (hlabel c hc)
      · exact .inr (privateKeyText_class c hc)
  · exact htext c (List.mem_append_left _ hc)

theorem IsArmour.dash_mem (h : IsArmour w m) : '-' ∈ m := by
  obtain ⟨label, -, rfl⟩ := h
  have hdashes : '-' ∈ dashes := List.mem_cons_self
  exact List.mem_append_right _ hdashes

theorem IsArmour.ne_nil (h : IsArmour w m) : m ≠ [] :=
  List.ne_nil_of_mem h.dash_mem

/-- A character no armour line has. -/
def Breaks (c : Char) : Prop := c ≠ '-' ∧ armourChar c = false

theorem Breaks.not_mem (hc : Breaks c) (h : IsArmour w m) : c ∉ m := by
  intro hmem
  rcases armour_chars h hmem with hdash | hclass
  · exact hc.1 hdash
  · rw [hc.2] at hclass
    cases hclass

theorem armourAt_break (hc : Breaks c) (w : ArmourWord) (l rest : List Char) :
    armourAt w (l ++ c :: rest) = (armourAt w l).map fun f => (f.1, f.2 ++ c :: rest) := by
  cases hl : armourAt w l with
  | some f =>
    obtain ⟨harmour, rfl⟩ := armourAt_iff.mp hl
    exact armourAt_iff.mpr ⟨harmour, List.append_assoc _ _ _⟩
  | none =>
    rw [Option.map_none, Option.eq_none_iff_forall_ne_some]
    rintro ⟨m, r⟩ hwhole
    obtain ⟨harmour, heq⟩ := armourAt_iff.mp hwhole
    rcases List.append_eq_append_iff.mp heq with ⟨t, hm, ht⟩ | ⟨t, hl', -⟩
    · cases t with
      | nil =>
        have hat : armourAt w l = some (m, []) :=
          armourAt_iff.mpr ⟨harmour, by rw [hm, List.append_nil, List.append_nil]⟩
        cases hl.symm.trans hat
      | cons c' t =>
        have hcc : c = c' := (List.cons.inj ht).1
        exact hc.not_mem harmour (by rw [hm, hcc]; simp)
    · cases hl.symm.trans (armourAt_iff.mpr ⟨harmour, hl'⟩)

theorem armourAt_nil (w : ArmourWord) : armourAt w [] = none := by
  cases w <;> rfl

theorem findArmour_break (hc : Breaks c) (w : ArmourWord) (l rest : List Char) :
    findArmour w (l ++ c :: rest) = none ↔ findArmour w l = none ∧ findArmour w rest = none := by
  induction l with
  | nil =>
    have hat : armourAt w (c :: rest) = none := by
      have h := armourAt_break hc w [] rest
      rwa [armourAt_nil] at h
    simp [findArmour, hat]
  | cons a l ih =>
    have hat : armourAt w (a :: (l ++ c :: rest)) = _ := armourAt_break hc w (a :: l) rest
    rw [List.cons_append, findArmour, hat, findArmour]
    cases armourAt w (a :: l) with
    | some f => simp
    | none =>
      simp only [Option.map_none, Option.map_eq_none_iff]
      exact ih

theorem beginTails_drop (skip : Nat) (s : List Char) : beginTails skip s = beginTails 0 (s.drop skip) := by
  induction skip generalizing s with
  | zero => rfl
  | succ skip ih =>
    cases s with
    | nil => rfl
    | cons c s => exact ih s

theorem beginTails_of_armourAt (h : armourAt .begins s = some (m, rest)) :
    beginTails 0 s = rest :: beginTails 0 rest := by
  cases s with
  | nil => cases (armourAt_nil _).symm.trans h
  | cons c s =>
    have hs := (armourAt_iff.mp h).2
    cases m with
    | nil => exact absurd rfl (armourAt_iff.mp h).1.ne_nil
    | cons c' m =>
      have hdrop : s.drop ((c' :: m).length - 1) = rest := by
        rw [(List.cons.inj hs).2]
        simp
      rw [beginTails, h]
      dsimp only
      rw [beginTails_drop, hdrop]

theorem beginTails_break (hc : Breaks c) (l rest : List Char) :
    beginTails 0 (l ++ c :: rest)
      = (beginTails 0 l).map (· ++ c :: rest) ++ beginTails 0 rest := by
  -- a match takes more than one character, so the induction is on the length
  induction hn : l.length using Nat.strong_induction_on generalizing l with
  | _ n ih =>
    cases l with
    | nil =>
      have hat : armourAt .begins (c :: rest) = none := by
        have h := armourAt_break hc .begins [] rest
        rwa [armourAt_nil] at h
      simp [beginTails, hat]
    | cons a l =>
      have hat : armourAt .begins (a :: (l ++ c :: rest)) = _ :=
        armourAt_break hc .begins (a :: l) rest
      cases hl : armourAt .begins (a :: l) with
      | some f =>
        obtain ⟨m, r⟩ := f
        rw [hl] at hat
        have hshorter : r.length < n := by
          obtain ⟨harmour, hs⟩ := armourAt_iff.mp hl
          have hpos : 0 < m.length := List.length_pos_iff.mpr harmour.ne_nil
          rw [← hn, hs, List.length_append]
          omega
        rw [List.cons_append, beginTails_of_armourAt hat, beginTails_of_armourAt hl,
          ih _ hshorter r rfl]
        rfl
      | none =>
        rw [hl] at hat
        rw [List.cons_append, beginTails, hat, beginTails, hl]
        exact ih l.length (by rw [← hn]; exact Nat.lt_succ_self _) l rfl

/-- A `BEGIN` before the line end stays unclosed when what follows has no `END`. -/
theorem hasUnclosedPEMBegin_break (hc : Breaks c) (l rest : List Char) :
    hasUnclosedPEMBegin (l ++ c :: rest) = true
      ↔ hasUnclosedPEMBegin rest = true
        ∨ hasUnclosedPEMBegin l = true ∧ findArmour .ends rest = none := by
  unfold hasUnclosedPEMBegin
  rw [beginTails_break hc, List.any_append, Bool.or_eq_true, or_comm, List.any_map]
  refine or_congr_right ?_
  simp only [List.any_eq_true, Function.comp, Option.isNone_iff_eq_none, findArmour_break hc]
  constructor
  · rintro ⟨tail, htail, hnone, hrest⟩
    exact ⟨⟨tail, htail, hnone⟩, hrest⟩
  · rintro ⟨⟨tail, htail, hnone⟩, hrest⟩
    exact ⟨tail, htail, hnone, hrest⟩

end SenhubAgent.AgentState

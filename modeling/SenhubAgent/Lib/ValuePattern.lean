import Mathlib.Data.List.TakeWhile

/-!
# Values behind a head

A text rule that hides values looks for a *head* (a name, a separator) and takes what follows it,
up to the first symbol that ends a value. `ValuePattern` is such a pattern: which texts are heads,
given the symbol before them, and which symbols end a value. A match is a head and a value that is
not empty and cannot go on.

`Leftmost` is how a text falls into matches taken from the left, none overlapping the one before:
what stands before each value, the values, and what is left. `original` puts them together again,
`render` with a mask for every value.

The rule at the end is about masking a text twice. If no head holds the first symbol of the mask,
the mask is a value, and a head that starts with an end of a value does not look at what precedes
it, then the masked text falls into the same matches, with the mask for values
(`Leftmost.masked`).
-/

namespace SenhubAgent.Lib

variable {β : Type}

structure ValuePattern (β : Type) where
  /-- what may stand before a value, after the given symbol -/
  head : Option β → List β → Prop
  /-- what ends a value -/
  stop : β → Bool

/-- The symbol before what follows `l`. -/
def lastOr (prev : Option β) (l : List β) : Option β := l.getLast?.or prev

theorem lastOr_append (prev : Option β) (l l' : List β) :
    lastOr prev (l ++ l') = lastOr (lastOr prev l) l' := by
  unfold lastOr
  rw [List.getLast?_append, Option.or_assoc]

theorem lastOr_of_ne (prev prev' : Option β) {l : List β} (h : l ≠ []) :
    lastOr prev l = lastOr prev' l := by
  unfold lastOr
  rw [List.getLast?_eq_some_getLast h]
  rfl

namespace ValuePattern

variable (P : ValuePattern β)

/-- `x` is a head, a value and a rest that does not go on with the value. -/
structure Match (prev : Option β) (x h v r : List β) : Prop where
  text : x = h ++ (v ++ r)
  head : P.head prev h
  value : v ≠ []
  inside : ∀ c ∈ v, P.stop c = false
  ends : ∀ c, r.head? = some c → P.stop c = true

/-- The text as matches from the left: each time what stands before the value, and the value;
then the rest. -/
inductive Leftmost : Option β → List β → List (List β × List β) → List β → Prop where
  | done {prev : Option β} {x : List β}
    (hnone : ∀ a b, x = a ++ b → ∀ h v r, ¬ P.Match (lastOr prev a) b h v r) :
    Leftmost prev x [] x
  | next {prev : Option β} (gap : List β) {x h v r : List β} {parts : List (List β × List β)}
    {tail : List β}
    (hgap : ∀ a b, gap = a ++ b → b ≠ [] → ∀ h v r, ¬ P.Match (lastOr prev a) (b ++ x) h v r)
    (hmatch : P.Match (lastOr prev gap) x h v r)
    (hrest : Leftmost (lastOr prev (gap ++ (h ++ v))) r parts tail) :
    Leftmost prev (gap ++ x) ((gap ++ h, v) :: parts) tail

/-- A mask for every value. -/
def render (mask : List β) : List (List β × List β) → List β → List β
  | [], tail => tail
  | (before, _) :: parts, tail => before ++ (mask ++ render mask parts tail)

/-- The text itself. -/
def original : List (List β × List β) → List β → List β
  | [], tail => tail
  | (before, v) :: parts, tail => before ++ (v ++ original parts tail)

variable {P} {prev : Option β} {x h v r tail : List β} {parts : List (List β × List β)}

/-- The matches and what is between them are the text. -/
theorem Leftmost.text (hl : P.Leftmost prev x parts tail) : original parts tail = x := by
  induction hl with
  | done => rfl
  | next gap _ hmatch _ ih => rw [original, ih, hmatch.text, List.append_assoc]

/-- A head before a symbol of a value is the head of a match. -/
theorem exists_match (hhead : P.head prev h) {c : β} (hc : P.stop c = false) (rest : List β) :
    ∃ v r, P.Match prev (h ++ c :: rest) h v r := by
  refine ⟨(c :: rest).takeWhile (fun d => !P.stop d), (c :: rest).dropWhile (fun d => !P.stop d),
    ?_, hhead, ?_, ?_, ?_⟩
  · rw [List.takeWhile_append_dropWhile]
  · rw [List.takeWhile_cons_of_pos (by rw [hc]; rfl)]
    exact List.cons_ne_nil _ _
  · intro d hd
    have hnot := List.mem_takeWhile_imp hd
    rwa [Bool.not_eq_true'] at hnot
  · intro d hd
    have hnot := List.head?_dropWhile_not (fun d => !P.stop d) (c :: rest)
    rw [hd] at hnot
    simpa using hnot

/-- A symbol no match starts at. -/
theorem Leftmost.skip {c : β} (hno : ∀ h v r, ¬ P.Match prev (c :: x) h v r)
    (hl : P.Leftmost (lastOr prev [c]) x parts tail) :
    ∃ parts tail, P.Leftmost prev (c :: x) parts tail := by
  -- a position behind the symbol sees the symbol, not what precedes it
  have hlast : ∀ a, lastOr prev (c :: a) = lastOr (lastOr prev [c]) a :=
    fun a => lastOr_append prev [c] a
  cases hl with
  | done hnone =>
    refine ⟨[], c :: x, .done fun a b hab => ?_⟩
    cases a with
    | nil => rw [← show c :: x = b from hab]; exact hno
    | cons d a =>
      obtain ⟨rfl, hx⟩ := List.cons.inj hab
      rw [hlast]
      exact hnone a b hx
  | @next _ gap x h v r parts tail hgap hmatch hrest =>
    rw [← hlast] at hmatch hrest
    refine ⟨(c :: gap ++ h, v) :: parts, tail, .next (c :: gap) ?_ hmatch hrest⟩
    intro a b hab hb
    cases a with
    | nil => rw [← show c :: gap = b from hab]; exact hno
    | cons d a =>
      obtain ⟨rfl, hx⟩ := List.cons.inj hab
      rw [hlast]
      exact hgap a b hx hb

/-- Every text falls into matches. -/
theorem exists_leftmost (P : ValuePattern β) : ∀ (n : Nat) (prev : Option β) (x : List β),
    x.length ≤ n → ∃ parts tail, P.Leftmost prev x parts tail := by
  have hempty : ∀ prev, P.Leftmost prev [] [] [] := by
    refine fun prev => .done fun a b hab h v r hm => hm.value ?_
    have htext := hm.text
    rw [(List.append_eq_nil_iff.mp hab.symm).2] at htext
    exact (List.append_eq_nil_iff.mp (List.append_eq_nil_iff.mp htext.symm).2).1
  intro n
  induction n with
  | zero =>
    intro prev x hlen
    rw [List.length_eq_zero_iff.mp (Nat.le_zero.mp hlen)]
    exact ⟨[], [], hempty prev⟩
  | succ n ih =>
    intro prev x hlen
    cases x with
    | nil => exact ⟨[], [], hempty prev⟩
    | cons c x =>
      rw [List.length_cons] at hlen
      by_cases hm : ∃ h v r, P.Match prev (c :: x) h v r
      · obtain ⟨h, v, r, hm⟩ := hm
        have hshort : r.length ≤ n := by
          have htext := congrArg List.length hm.text
          have hpos := List.length_pos_iff.mpr hm.value
          rw [List.length_append, List.length_append, List.length_cons] at htext
          omega
        obtain ⟨parts, tail, hrest⟩ := ih (lastOr prev ([] ++ (h ++ v))) r hshort
        refine ⟨([] ++ h, v) :: parts, tail, .next [] ?_ hm hrest⟩
        intro a b hab hb
        exact absurd (List.append_eq_nil_iff.mp hab.symm).2 hb
      · obtain ⟨parts, tail, hrest⟩ := ih (lastOr prev [c]) x (by omega)
        exact hrest.skip fun h v r h' => hm ⟨h, v, r, h'⟩

/-! ## Masking twice -/

/-- What makes a mask stable. -/
structure Maskable (P : ValuePattern β) (mask : List β) : Prop where
  head_ne : ∀ {prev h}, P.head prev h → h ≠ []
  mask_ne : mask ≠ []
  mask_inside : ∀ c ∈ mask, P.stop c = false
  mask_head : ∀ {prev h}, P.head prev h → ∀ c ∈ mask, c ∉ h
  head_prev : ∀ {prev prev' c h}, P.head prev (c :: h) → P.stop c = true → P.head prev' (c :: h)

variable {mask : List β}

/-- Masking changes no first symbol. -/
theorem Leftmost.head_render (hP : P.Maskable mask) (hl : P.Leftmost prev x parts tail) :
    (render mask parts tail).head? = x.head? := by
  cases hl with
  | done => rfl
  | @next _ gap x h v r parts tail hgap hmatch hrest =>
    have hne : gap ++ h ≠ [] := fun hnil =>
      hP.head_ne hmatch.head (List.append_eq_nil_iff.mp hnil).2
    obtain ⟨c, rest, hcons⟩ := List.exists_cons_of_ne_nil hne
    rw [hmatch.text, render, ← List.append_assoc, ← List.append_assoc, hcons]
    rfl

/-- Where a value has just ended, what precedes does not matter. -/
theorem Match.change_prev (hP : P.Maskable mask) (hm : P.Match prev x h v r)
    (hstop : ∀ c, x.head? = some c → P.stop c = true) (prev' : Option β) :
    P.Match prev' x h v r := by
  obtain ⟨c, h', rfl⟩ := List.exists_cons_of_ne_nil (hP.head_ne hm.head)
  have hc : P.stop c = true := hstop c (by rw [hm.text]; rfl)
  exact { hm with head := hP.head_prev hm.head hc }

theorem Leftmost.change_prev (hP : P.Maskable mask) (hl : P.Leftmost prev x parts tail)
    (hstop : ∀ c, x.head? = some c → P.stop c = true) (prev' : Option β) :
    P.Leftmost prev' x parts tail := by
  cases hl with
  | done hnone =>
    refine .done fun a b hab h v r hm => ?_
    by_cases ha : a = []
    · subst ha
      rw [show x = b from hab] at hstop
      exact hnone [] b hab h v r (hm.change_prev hP hstop prev)
    · rw [lastOr_of_ne prev' prev ha] at hm
      exact hnone a b hab h v r hm
  | @next _ gap x h v r parts tail hgap hmatch hrest =>
    refine .next (r := r) gap ?_ ?_ ?_
    · intro a b hab hb h v r hm
      by_cases ha : a = []
      · subst ha
        rw [show gap = b from hab] at hstop
        exact hgap [] b hab hb h v r (hm.change_prev hP hstop prev)
      · rw [lastOr_of_ne prev' prev ha] at hm
        exact hgap a b hab hb h v r hm
    · by_cases hnil : gap = []
      · subst hnil
        exact hmatch.change_prev hP hstop prev'
      · rw [lastOr_of_ne prev' prev hnil]
        exact hmatch
    · have hne : gap ++ (h ++ v) ≠ [] := fun hnil =>
        hmatch.value (List.append_eq_nil_iff.mp (List.append_eq_nil_iff.mp hnil).2).2
      rw [lastOr_of_ne prev' prev hne]
      exact hrest

/-- **The masked text falls into the same matches.** -/
theorem Leftmost.masked (hP : P.Maskable mask) (hl : P.Leftmost prev x parts tail) :
    P.Leftmost prev (render mask parts tail) (parts.map fun part => (part.1, mask)) tail := by
  induction hl with
  | done hnone => exact .done hnone
  | @next prev gap x h v r parts tail hgap hmatch hrest ih =>
    have hstart := hrest.head_render hP
    have hends : ∀ c, (render mask parts tail).head? = some c → P.stop c = true := by
      rw [hstart]
      exact hmatch.ends
    rw [render, List.append_assoc]
    refine .next gap ?_ ⟨rfl, hmatch.head, hP.mask_ne, hP.mask_inside, hends⟩
      (ih.change_prev hP hends _)
    intro a b hab hb h' v' r' hm
    -- a head before a symbol of a value starts no match where there was none
    have hnot : ∀ {c rest}, P.head (lastOr prev a) h' → P.stop c = false →
        b ++ x ≠ h' ++ c :: rest := by
      intro c rest hhead hc heq
      obtain ⟨v'', r'', hm'⟩ := exists_match hhead hc rest
      rw [← heq] at hm'
      exact hgap a b hab hb h' v'' r'' hm'
    have hbefore : b ++ x = (b ++ h) ++ (v ++ r) := by rw [hmatch.text, List.append_assoc]
    obtain ⟨c, v₁, hv⟩ := List.exists_cons_of_ne_nil hmatch.value
    have hc : P.stop c = false := hmatch.inside c (by rw [hv]; exact List.mem_cons_self ..)
    have htext : (b ++ h) ++ (mask ++ render mask parts tail) = h' ++ (v' ++ r') := by
      rw [← hm.text, List.append_assoc]
    rcases List.append_eq_append_iff.mp htext with ⟨d, hd, hmask⟩ | ⟨d, hd, hvalue⟩
    · cases d with
      | nil =>
        rw [List.append_nil] at hd
        exact hnot hm.head hc (by rw [hbefore, hd, hv]; rfl)
      | cons e d =>
        -- the head would reach into the mask
        obtain ⟨m, mask', hcons⟩ := List.exists_cons_of_ne_nil hP.mask_ne
        rw [hcons] at hmask
        obtain ⟨rfl, _⟩ := List.cons.inj hmask
        refine hP.mask_head hm.head m (by rw [hcons]; exact List.mem_cons_self ..) ?_
        rw [hd]
        exact List.mem_append_right _ (List.mem_cons_self ..)
    · cases d with
      | nil =>
        rw [List.append_nil] at hd
        exact hnot hm.head hc (by rw [hbefore, hd, hv]; rfl)
      | cons e d =>
        obtain ⟨e', v₂, hv'⟩ := List.exists_cons_of_ne_nil hm.value
        rw [hv'] at hvalue
        obtain ⟨rfl, _⟩ := List.cons.inj hvalue
        have he : P.stop e' = false := hm.inside e' (by rw [hv']; exact List.mem_cons_self ..)
        exact hnot hm.head he (by rw [hbefore, hd, List.append_assoc]; rfl)

end ValuePattern

end SenhubAgent.Lib

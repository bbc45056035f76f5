import SenhubAgent.Entities.Observation
import SenhubAgent.Lib.Contest
import Mathlib.Data.List.Perm.Basic

/-!
# Does the order of the sources show in a merged entity?

`mergeDuplicates` sorts the copies of a key by scope, stably, and goes through their attributes:
the value kept is from the copies whose scope sorts first of those that have the attribute
(`rivals`), and among these a value replaces the kept one when it prints less. Scope, time and
cadence do not depend on the order. An attribute's value does not either, exactly when one rival
prints less than every other and is equal to none of them (`Settled`): a string and a number that
print alike are told apart by their order only.
-/

namespace SenhubAgent.Entities

open SenhubAgent.Lib

variable (formatFloat : Float → String)

/-- `v` replaces `kept`. -/
def outranks (v kept : Scalar) : Bool :=
  !kept.deepEqual v && decide (scalarString formatFloat v < scalarString formatFloat kept)

/-- What the copies have under an attribute, each with its scope. -/
def bids (x : String) (copies : List Observed) : List (String × Scalar) :=
  copies.filterMap fun c => (c.attributes.get? x).map fun v => (c.scope, v)

/-- The merge of one attribute. -/
def takeBid : Option (Scalar × String) → String × Scalar → Option (Scalar × String)
  | none, bid => some (bid.2, bid.1)
  | some (kept, scope), bid =>
    some (if bid.1 = scope then keep (outranks formatFloat) kept bid.2 else kept, scope)

def firstScope (x : String) (copies : List Observed) : Option String :=
  ((bids x copies).map Prod.fst).min?

/-- The values of an attribute among the copies of the first scope that has it. -/
def rivals (x : String) (copies : List Observed) : List Scalar :=
  (copies.filter fun c => firstScope x copies = some c.scope).filterMap (·.attributes.get? x)

/-- One value prints less than every other and equals none of them. -/
def Settled (vs : List Scalar) : Prop :=
  vs = [] ∨ ∃ w ∈ vs, ∀ v ∈ vs, v ≠ w →
    v.deepEqual w = false ∧ scalarString formatFloat w < scalarString formatFloat v

variable {formatFloat}

theorem outranks_iff {v kept : Scalar} : outranks formatFloat v kept = true ↔
    kept.deepEqual v = false ∧ scalarString formatFloat v < scalarString formatFloat kept := by
  unfold outranks
  rw [Bool.and_eq_true, Bool.not_eq_true', decide_eq_true_eq]

theorem settled_iff (vs : List Scalar) :
    Settled formatFloat vs ↔ vs = [] ∨ ∃ w, IsChampion (outranks formatFloat) vs w := by
  apply or_congr_right
  apply exists_congr
  intro w
  refine and_congr_right fun _ => forall₃_congr fun v _ _ => ?_
  rw [outranks_iff]
  refine ⟨fun h => ⟨h, ?_⟩, fun h => h.1⟩
  rw [← Bool.not_eq_true, outranks_iff]
  exact fun hless => h.2.asymm hless.2

/-! ## One attribute of the merge -/

theorem get?_mergeAttribute (x scope : String) (out : Gathered) (attr : String × Scalar) :
    SortedMap.get? x (mergeAttribute formatFloat scope out attr) =
      if attr.1 = x then takeBid formatFloat (SortedMap.get? x out) (scope, attr.2)
      else SortedMap.get? x out := by
  unfold mergeAttribute
  by_cases hx : attr.1 = x
  · rw [if_pos hx, hx]
    cases hkept : SortedMap.get? x out with
    | none => exact SortedMap.get?_insert_self ..
    | some p =>
      obtain ⟨kept, keptScope⟩ := p
      dsimp only [takeBid]
      by_cases hscope : scope = keptScope
      · rw [if_pos hscope]
        by_cases hout : outranks formatFloat attr.2 kept = true
        · obtain ⟨hne, hless⟩ := outranks_iff.mp hout
          rw [if_neg (by simp [hne]), if_pos ⟨hscope, hless⟩, SortedMap.get?_insert_self, keep,
            if_pos hout]
        · rw [keep, if_neg hout]
          split
          next => exact hkept
          next hne =>
            rw [if_neg (fun h => hout (outranks_iff.mpr ⟨by simpa using hne, h.2⟩)), hkept]
      · rw [if_neg hscope]
        split
        next => exact hkept
        next => rw [if_neg (fun h => hscope h.1), hkept]
  · rw [if_neg hx]
    split
    next => exact SortedMap.get?_insert_ne hx ..
    next =>
      split
      next => rfl
      next =>
        split
        next => exact SortedMap.get?_insert_ne hx ..
        next => rfl

/-- One copy bids once, as its attributes have each name once. -/
theorem get?_mergeCopy (x scope : String) {pairs : List (String × Scalar)}
    (h : SortedMap.Keyed pairs) : ∀ out : Gathered,
      SortedMap.get? x (pairs.foldl (mergeAttribute formatFloat scope) out) =
        match SortedMap.get? x pairs with
        | none => SortedMap.get? x out
        | some v => takeBid formatFloat (SortedMap.get? x out) (scope, v) := by
  induction pairs with
  | nil =>
    intro out
    rfl
  | cons p pairs ih =>
    intro out
    obtain ⟨hlt, hpairs⟩ := SortedMap.keyed_cons.mp h
    rw [List.foldl_cons, ih hpairs, get?_mergeAttribute, SortedMap.get?]
    by_cases hx : p.1 = x
    · have hnone : SortedMap.get? x pairs = none :=
        SortedMap.get?_eq_none fun e he => hx ▸ (hlt e he).ne'
      rw [if_pos hx, if_pos hx, hnone]
    · rw [if_neg hx, if_neg hx]

theorem bids_cons (x : String) (c : Observed) (copies : List Observed) :
    bids x (c :: copies) =
      ((c.attributes.get? x).map fun v => (c.scope, v)).toList ++ bids x copies := by
  cases hget : c.attributes.get? x with
  | none => exact List.filterMap_cons_none (by rw [hget]; rfl)
  | some v => exact List.filterMap_cons_some (by rw [hget]; rfl)

theorem get?_mergeAttributes (x : String) (copies : List Observed) :
    SortedMap.get? x (mergeAttributes formatFloat copies) =
      (bids x copies).foldl (takeBid formatFloat) none := by
  have hfold : ∀ (copies : List Observed) (out : Gathered),
      SortedMap.get? x (copies.foldl (fun out c => c.attributes.pairs.foldl
        (mergeAttribute formatFloat c.scope) out) out) =
        (bids x copies).foldl (takeBid formatFloat) (SortedMap.get? x out) := by
    intro copies
    induction copies with
    | nil =>
      intro out
      rfl
    | cons c copies ih =>
      intro out
      rw [List.foldl_cons, ih, get?_mergeCopy x c.scope (keyed_iff_ordered.mpr c.attributes.ordered),
        bids_cons, List.foldl_append]
      unfold AttrMap.get?
      cases SortedMap.get? x c.attributes.pairs with
      | none => rfl
      | some v => rfl
  exact hfold copies []

/-- The bids of the first scope met decide. -/
theorem foldl_takeBid (bs : List (String × Scalar)) :
    ∀ (kept : Scalar) (scope : String), bs.foldl (takeBid formatFloat) (some (kept, scope)) =
      some (((bs.filter fun b => b.1 = scope).map Prod.snd).foldl
        (keep (outranks formatFloat)) kept, scope) := by
  induction bs with
  | nil =>
    intro kept scope
    rfl
  | cons b bs ih =>
    intro kept scope
    rw [List.foldl_cons, takeBid, ih]
    by_cases hb : b.1 = scope
    · rw [if_pos hb, List.filter_cons_of_pos (by simpa using hb)]
      rfl
    · rw [if_neg hb, List.filter_cons_of_neg (by simpa using hb)]

theorem values_bids (x scope : String) (copies : List Observed) :
    ((bids x copies).filter fun b => b.1 = scope).map Prod.snd =
      (copies.filter fun c => c.scope = scope).filterMap (·.attributes.get? x) := by
  induction copies with
  | nil => rfl
  | cons c copies ih =>
    rw [bids_cons, List.filter_append, List.map_append, ih]
    by_cases hc : c.scope = scope
    · rw [List.filter_cons_of_pos (by simpa using hc)]
      cases hget : c.attributes.get? x with
      | none =>
        rw [List.filterMap_cons, hget]
        rfl
      | some v =>
        rw [List.filterMap_cons, hget]
        simp [hc]
    · rw [List.filter_cons_of_neg (by simpa using hc)]
      cases hget : c.attributes.get? x with
      | none => rfl
      | some v => simp [hc]

/-! ## Sorting by scope -/

theorem byScope_perm (copies : List Observed) : (byScope copies).Perm copies :=
  List.perm_insertionSort _ copies

instance : Std.Total fun a b : Observed => a.scope ≤ b.scope := ⟨fun _ _ => le_total _ _⟩

instance : IsTrans Observed fun a b => a.scope ≤ b.scope := ⟨fun _ _ _ => le_trans⟩

theorem byScope_sorted (copies : List Observed) :
    (byScope copies).Pairwise fun a b => a.scope ≤ b.scope := List.pairwise_insertionSort _ copies

/-- The sort is stable. -/
theorem filter_byScope (scope : String) (copies : List Observed) :
    (byScope copies).filter (fun c => c.scope = scope) =
      copies.filter fun c => c.scope = scope := by
  have hequal : (copies.filter fun c => c.scope = scope).Pairwise fun a b => a.scope ≤ b.scope := by
    refine List.pairwise_of_forall_mem_list fun a ha b hb => ?_
    rw [of_decide_eq_true (List.mem_filter.mp ha).2, of_decide_eq_true (List.mem_filter.mp hb).2]
  have hsub : (copies.filter fun c => c.scope = scope).Sublist (byScope copies) :=
    List.sublist_insertionSort hequal List.filter_sublist
  have hboth := hsub.filter fun c => decide (c.scope = scope)
  rw [List.filter_filter] at hboth
  simp only [Bool.and_self] at hboth
  exact (hboth.eq_of_length ((byScope_perm copies).filter _).length_eq.symm).symm

theorem firstScope_byScope (x : String) (copies : List Observed) :
    firstScope x copies = (bids x (byScope copies)).head?.map Prod.fst := by
  have hperm : ((bids x (byScope copies)).map Prod.fst).Perm ((bids x copies).map Prod.fst) :=
    ((byScope_perm copies).filterMap _).map _
  have hsorted : ((bids x (byScope copies)).map Prod.fst).Pairwise (· ≤ ·) := by
    refine List.pairwise_map.mpr ((byScope_sorted copies).filterMap _ ?_)
    intro a a' hle b hb b' hb'
    obtain ⟨v, -, rfl⟩ := Option.map_eq_some_iff.mp hb
    obtain ⟨v', -, rfl⟩ := Option.map_eq_some_iff.mp hb'
    exact hle
  unfold firstScope
  cases hbids : bids x (byScope copies) with
  | nil =>
    rw [hbids] at hperm
    rw [List.perm_nil.mp hperm.symm]
    rfl
  | cons b bs =>
    rw [hbids, List.map_cons] at hperm hsorted
    refine List.min?_eq_some_iff.mpr ⟨hperm.mem_iff.mp (List.mem_cons_self ..), fun s hs => ?_⟩
    rcases List.mem_cons.mp (hperm.mem_iff.mpr hs) with hs | hs
    · exact hs.ge
    · exact List.rel_of_pairwise_cons hsorted hs

/-- The value of an attribute is what is left of its rivals. -/
theorem get?_mergeAttributes_byScope (x : String) (copies : List Observed) :
    (SortedMap.get? x (mergeAttributes formatFloat (byScope copies))).map Prod.fst =
      champion (outranks formatFloat) (rivals x copies) := by
  rw [get?_mergeAttributes]
  unfold rivals
  rw [firstScope_byScope]
  cases hbids : bids x (byScope copies) with
  | nil =>
    have hnone : (copies.filter fun c => decide
        ((([] : List (String × Scalar)).head?.map Prod.fst) = some c.scope)) = [] :=
      List.filter_eq_nil_iff.mpr fun c _ => by simp
    rw [hnone]
    rfl
  | cons b bs =>
    have hvalues := values_bids x b.1 (byScope copies)
    rw [filter_byScope, hbids, List.filter_cons_of_pos (by simp), List.map_cons] at hvalues
    have hscope : (copies.filter fun c => decide
        (((b :: bs).head?.map Prod.fst) = some c.scope)) = copies.filter fun c => c.scope = b.1 :=
      List.filter_congr fun c _ => by simp [eq_comm]
    rw [hscope, ← hvalues, List.foldl_cons]
    show Option.map _ (bs.foldl (takeBid formatFloat) (some (b.2, b.1))) = _
    rw [foldl_takeBid]
    rfl

/-! ## What does not depend on the order -/

/-- Two stamps, neither of them zero, can be taken in either order. -/
theorem later_comm {zero a b : Int} (ha : a ≠ zero) (hb : b ≠ zero) (z : Int) :
    (if (if z = zero ∨ z < a then a else z) = zero ∨ (if z = zero ∨ z < a then a else z) < b then b
      else (if z = zero ∨ z < a then a else z)) =
    (if (if z = zero ∨ z < b then b else z) = zero ∨ (if z = zero ∨ z < b then b else z) < a then a
      else (if z = zero ∨ z < b then b else z)) := by
  split_ifs <;> omega

theorem larger_comm (a b z : Int) :
    (if (if z < a then a else z) < b then b else (if z < a then a else z)) =
      (if (if z < b then b else z) < a then a else (if z < b then b else z)) := by
  split_ifs <;> omega

variable {copies copies' es es' : List Observed} {k x : String} {α : Type}

theorem newestObservedAt_perm (h : copies'.Perm copies) :
    newestObservedAt copies' = newestObservedAt copies := by
  unfold newestObservedAt
  have hany : (copies'.any fun c => decide (c.observedAt = zeroTime)) =
      copies.any fun c => decide (c.observedAt = zeroTime) := h.any_eq
  rw [hany]
  split
  next => rfl
  next hnone =>
    refine List.Perm.foldl_eq' h (fun a ha b hb z => ?_) zeroTime
    have hset : ∀ c ∈ copies', c.observedAt ≠ zeroTime := by
      intro c hc hzero
      rw [← hany] at hnone
      exact hnone (List.any_eq_true.mpr ⟨c, hc, decide_eq_true hzero⟩)
    exact later_comm (hset a ha) (hset b hb) z

theorem maxCadence_perm (h : copies'.Perm copies) : maxCadence copies' = maxCadence copies :=
  List.Perm.foldl_eq' h (fun a _ b _ z => larger_comm a.cadence b.cadence z) 0

theorem head_byScope_perm (h : copies'.Perm copies) :
    (byScope copies').head?.map (·.scope) = (byScope copies).head?.map (·.scope) := by
  have hperm : (byScope copies').Perm (byScope copies) :=
    (byScope_perm copies').trans (h.trans (byScope_perm copies).symm)
  have hsorted := byScope_sorted copies
  have hsorted' := byScope_sorted copies'
  cases hl : byScope copies with
  | nil =>
    rw [hl] at hperm
    rw [hperm.eq_nil]
  | cons c cs =>
    cases hl' : byScope copies' with
    | nil =>
      rw [hl, hl'] at hperm
      cases hperm.symm.eq_nil
    | cons c' cs' =>
      rw [hl] at hsorted hperm
      rw [hl'] at hsorted' hperm
      have hle : ∀ {a : Observed} {l : List Observed} {d : Observed},
          (a :: l).Pairwise (fun a b => a.scope ≤ b.scope) → d ∈ a :: l → a.scope ≤ d.scope := by
        intro a l d hs hd
        rcases List.mem_cons.mp hd with hd | hd
        · rw [hd]
        · exact List.rel_of_pairwise_cons hs hd
      exact congrArg some (le_antisymm (hle hsorted' (hperm.mem_iff.mpr (List.mem_cons_self ..)))
        (hle hsorted (hperm.mem_iff.mp (List.mem_cons_self ..))))

/-! ## The copies of one key -/

/-- What the merge makes of a key: attribute values, scope, time and cadence. -/
def Observed.fields (e : Observed) : AttrMap × String × Instant × Duration :=
  (e.attributes, e.scope, e.observedAt, e.cadence)

theorem AttrMap.ext_get? {m m' : AttrMap} (h : ∀ x, m.get? x = m'.get? x) : m = m' := by
  obtain ⟨pairs, hpairs⟩ := m
  obtain ⟨pairs', hpairs'⟩ := m'
  have heq : pairs = pairs' :=
    (keyed_iff_ordered.mpr hpairs).ext (keyed_iff_ordered.mpr hpairs') h
  subst heq
  rfl

theorem get?_map_fst (x : String) (out : Gathered) :
    SortedMap.get? x (out.map fun p => (p.1, p.2.1)) = (SortedMap.get? x out).map Prod.fst := by
  induction out with
  | nil => rfl
  | cons p out ih =>
    rw [List.map_cons, SortedMap.get?, SortedMap.get?, ih]
    split
    next => rfl
    next => rfl

theorem get?_mergeCopies (x : String) (c : Observed) (copies : List Observed) :
    (mergeCopies formatFloat c (byScope copies)).attributes.get? x =
      champion (outranks formatFloat) (rivals x copies) := by
  rw [← get?_mergeAttributes_byScope]
  exact get?_map_fst x _

theorem mergeGroup_of_two (h : 2 ≤ copies.length) :
    mergeGroup formatFloat copies =
      (byScope copies).head?.map fun c => mergeCopies formatFloat c (byScope copies) := by
  unfold mergeGroup
  split
  next => exact absurd h (by simp)
  next => rfl

/-- Only the values of attributes can differ with the order of the copies. -/
theorem mergeGroup_perm_iff (h : copies'.Perm copies) :
    (mergeGroup formatFloat copies').map Observed.fields =
        (mergeGroup formatFloat copies).map Observed.fields ↔
      ∀ x, champion (outranks formatFloat) (rivals x copies') =
        champion (outranks formatFloat) (rivals x copies) := by
  by_cases htwo : 2 ≤ copies.length
  · have htwo' : 2 ≤ copies'.length := h.length_eq ▸ htwo
    have hperm : (byScope copies').Perm (byScope copies) :=
      (byScope_perm copies').trans (h.trans (byScope_perm copies).symm)
    have hscope := head_byScope_perm h
    rw [mergeGroup_of_two htwo, mergeGroup_of_two htwo']
    obtain ⟨c, cs, hl⟩ := List.exists_cons_of_length_pos
      (show 0 < (byScope copies).length by rw [(byScope_perm copies).length_eq]; omega)
    obtain ⟨c', cs', hl'⟩ := List.exists_cons_of_length_pos
      (show 0 < (byScope copies').length by rw [(byScope_perm copies').length_eq]; omega)
    have hhead : (byScope copies).head? = some c := by rw [hl]; rfl
    have hhead' : (byScope copies').head? = some c' := by rw [hl']; rfl
    rw [hhead, hhead', Option.map_some, Option.map_some, Option.some.injEq] at hscope
    rw [hhead, hhead', Option.map_some, Option.map_some, Option.map_some, Option.map_some,
      Option.some.injEq]
    constructor
    · intro hfields x
      have hattrs : (mergeCopies formatFloat c' (byScope copies')).attributes =
          (mergeCopies formatFloat c (byScope copies)).attributes := congrArg Prod.fst hfields
      rw [← get?_mergeCopies x c', ← get?_mergeCopies x c, hattrs]
    · intro hvalues
      have hattrs : (mergeCopies formatFloat c' (byScope copies')).attributes =
          (mergeCopies formatFloat c (byScope copies)).attributes := by
        apply AttrMap.ext_get?
        intro x
        rw [get?_mergeCopies, get?_mergeCopies, hvalues]
      have hnewest := newestObservedAt_perm hperm
      have hcadence := maxCadence_perm hperm
      exact Prod.ext hattrs (Prod.ext hscope (Prod.ext hnewest hcadence))
  · -- at most one copy: there is only one order
    have heq : copies' = copies := by
      cases copies with
      | nil => exact h.eq_nil
      | cons c cs =>
        cases cs with
        | nil => exact List.perm_singleton.mp h
        | cons c' cs => exact absurd (Nat.le_add_left 2 _) htwo
    rw [heq]
    exact iff_of_true rfl fun _ => rfl

/-! ## All entities -/

variable (formatFloat) in
/-- The copies of a key. -/
def copiesOf (k : String) (es : List Observed) : List Observed :=
  es.filter fun e => e.key formatFloat = k

variable (formatFloat) in
/-- What `mergeDuplicates` has under a key. -/
def Observation.mergedAt (o : Observation) (k : String) :
    Option (AttrMap × String × Instant × Duration) :=
  ((o.mergeDuplicates formatFloat).entities.find? fun e => e.key formatFloat = k).map
    Observed.fields

theorem key_of_mergeGroup {e : Observed}
    (h : mergeGroup formatFloat (copiesOf formatFloat k es) = some e) : e.key formatFloat = k := by
  by_cases hne : copiesOf formatFloat k es = []
  · rw [hne] at h
    cases h
  · obtain ⟨e', he', hkey⟩ :=
      mergeGroup_key hne fun c hc => of_decide_eq_true (List.mem_filter.mp hc).2
    rw [h] at he'
    cases he'
    exact hkey

theorem length_eraseDups_le [DecidableEq α] :
    ∀ l : List α, l.eraseDups.length ≤ l.length
  | [] => Nat.le_refl _
  | a :: l => by
    have hfilter := List.length_filter_le (fun b => !b == a) l
    have hrest := length_eraseDups_le (l.filter fun b => !b == a)
    rw [List.eraseDups_cons, List.length_cons, List.length_cons]
    omega
termination_by l => l.length
decreasing_by exact Nat.lt_succ_of_le hfilter

/-- Nothing was dropped, so nothing occurs twice. -/
theorem nodup_of_length_eraseDups [DecidableEq α] {l : List α} (h : l.eraseDups.length = l.length) :
    l.Nodup := by
  induction l with
  | nil => exact List.nodup_nil
  | cons a l ih =>
    rw [List.eraseDups_cons, List.length_cons, List.length_cons] at h
    have hfilter := List.length_filter_le (fun b => !b == a) l
    have hdups := length_eraseDups_le (l.filter fun b => !b == a)
    have hall := List.length_filter_eq_length_iff.mp
      (show (l.filter fun b => !b == a).length = l.length by omega)
    rw [List.filter_eq_self.mpr hall] at h
    refine List.nodup_cons.mpr ⟨fun hmem => ?_, ih (by omega)⟩
    have hself := hall a hmem
    simp at hself

theorem find?_mergeGroups (k : String) (es : List Observed) (order : List String) :
    (order.filterMap fun k' => mergeGroup formatFloat (copiesOf formatFloat k' es)).find?
        (fun e => e.key formatFloat = k) =
      if k ∈ order then mergeGroup formatFloat (copiesOf formatFloat k es) else none := by
  induction order with
  | nil => rfl
  | cons k' order ih =>
    rw [List.filterMap_cons]
    cases hgroup : mergeGroup formatFloat (copiesOf formatFloat k' es) with
    | none =>
      rw [ih]
      by_cases hk : k = k'
      · rw [hk, hgroup, ite_self, ite_self]
      · simp [hk]
    | some e =>
      have hkey := key_of_mergeGroup hgroup
      by_cases hk : k = k'
      · rw [List.find?_cons_of_pos (by simpa [hk] using hkey), hk, hgroup,
          if_pos (List.mem_cons_self ..)]
      · rw [List.find?_cons_of_neg (by simpa [hkey] using Ne.symm hk), ih]
        simp [hk]

theorem find?_of_nodup (k : String) (h : (es.map (Observed.key formatFloat)).Nodup) :
    es.find? (fun e => e.key formatFloat = k) =
      mergeGroup formatFloat (copiesOf formatFloat k es) := by
  induction es with
  | nil => rfl
  | cons e es ih =>
    obtain ⟨hnot, hrest⟩ := List.nodup_cons.mp h
    unfold copiesOf
    by_cases hk : e.key formatFloat = k
    · have hnone : (es.filter fun e => decide (e.key formatFloat = k)) = [] := by
        refine List.filter_eq_nil_iff.mpr fun e' he' hkey => ?_
        rw [decide_eq_true_eq] at hkey
        exact hnot (List.mem_map.mpr ⟨e', he', hkey.trans hk.symm⟩)
      rw [List.find?_cons_of_pos (by simpa using hk), List.filter_cons_of_pos (by simpa using hk),
        hnone]
      rfl
    · rw [List.find?_cons_of_neg (by simpa using hk), List.filter_cons_of_neg (by simpa using hk)]
      exact ih hrest

theorem find?_mergeDuplicates (o : Observation) (k : String) :
    (o.mergeDuplicates formatFloat).entities.find? (fun e => e.key formatFloat = k) =
      mergeGroup formatFloat (copiesOf formatFloat k o.entities) := by
  unfold Observation.mergeDuplicates
  dsimp only
  split
  next hlen =>
    apply find?_of_nodup
    apply nodup_of_length_eraseDups
    rw [List.length_map]
    exact hlen
  next =>
    show (List.filterMap (fun k' => mergeGroup formatFloat (copiesOf formatFloat k' o.entities))
      _).find? _ = _
    rw [find?_mergeGroups]
    split
    next => rfl
    next hno =>
      have hnone : copiesOf formatFloat k o.entities = [] := by
        refine List.filter_eq_nil_iff.mpr fun e he hkey => hno ?_
        rw [decide_eq_true_eq] at hkey
        exact List.mem_eraseDups.mpr (List.mem_map.mpr ⟨e, he, hkey⟩)
      rw [hnone]
      rfl

theorem mergedAt_eq (o : Observation) (k : String) :
    o.mergedAt formatFloat k =
      (mergeGroup formatFloat (copiesOf formatFloat k o.entities)).map Observed.fields := by
  unfold Observation.mergedAt
  rw [find?_mergeDuplicates]

theorem firstScope_perm (x : String) (h : copies'.Perm copies) :
    firstScope x copies' = firstScope x copies := by
  have hperm : ((bids x copies').map Prod.fst).Perm ((bids x copies).map Prod.fst) :=
    (h.filterMap _).map _
  unfold firstScope
  cases hmin : ((bids x copies).map Prod.fst).min? with
  | none =>
    rw [List.min?_eq_none_iff] at hmin ⊢
    rw [hmin] at hperm
    exact hperm.eq_nil
  | some s =>
    obtain ⟨hmem, hle⟩ := List.min?_eq_some_iff.mp hmin
    exact List.min?_eq_some_iff.mpr
      ⟨hperm.mem_iff.mpr hmem, fun t ht => hle t (hperm.mem_iff.mp ht)⟩

theorem rivals_perm (x : String) (h : copies'.Perm copies) :
    (rivals x copies').Perm (rivals x copies) := by
  unfold rivals
  rw [firstScope_perm x h]
  exact (h.filter _).filterMap _

theorem copiesOf_perm (k : String) (h : es'.Perm es) :
    (copiesOf formatFloat k es').Perm (copiesOf formatFloat k es) := h.filter _

variable (formatFloat) in
/-- The entity is a copy of the key, of the first scope with the attribute. -/
def entersFor (k x : String) (es : List Observed) (e : Observed) : Bool :=
  decide (firstScope x (copiesOf formatFloat k es) = some e.scope) && decide (e.key formatFloat = k)

theorem rivals_eq (h : es'.Perm es) :
    rivals x (copiesOf formatFloat k es') =
      (es'.filter (entersFor formatFloat k x es)).filterMap (·.attributes.get? x) := by
  unfold rivals
  rw [firstScope_perm x (copiesOf_perm k h)]
  show List.filterMap _ (List.filter _ (List.filter _ es')) = _
  rw [List.filter_filter]
  rfl

/-- Every order of an attribute's rivals is the order of some list of the entities. -/
theorem exists_perm_rivals {vs : List Scalar} (h : vs.Perm (rivals x (copiesOf formatFloat k es))) :
    ∃ es' : List Observed, es'.Perm es ∧ rivals x (copiesOf formatFloat k es') = vs := by
  rw [rivals_eq (List.Perm.refl es)] at h
  obtain ⟨front, hfront, hvs⟩ := exists_perm_filterMap _ _ h
  have hes' := (hfront.append_right _).trans
    (List.filter_append_perm (entersFor formatFloat k x es) es)
  refine ⟨_, hes', ?_⟩
  have hkept : front.filter (entersFor formatFloat k x es) = front :=
    List.filter_eq_self.mpr fun e he => (List.mem_filter.mp (hfront.mem_iff.mp he)).2
  have hrest : (es.filter fun e => !entersFor formatFloat k x es e).filter
      (entersFor formatFloat k x es) = [] := by
    refine List.filter_eq_nil_iff.mpr fun e he hyes => ?_
    have hno := (List.mem_filter.mp he).2
    rw [hyes] at hno
    cases hno
  rw [rivals_eq hes', List.filter_append, hkept, hrest, List.append_nil, hvs]

/-- **Merging in any order** gives the same entities exactly when, for every key and attribute,
the rivals are settled. -/
theorem mergeDuplicates_perm_iff (formatFloat : Float → String) (o : Observation) :
    (∀ es', es'.Perm o.entities → ∀ k,
      ({ o with entities := es' } : Observation).mergedAt formatFloat k =
        o.mergedAt formatFloat k) ↔
      ∀ k x, Settled formatFloat (rivals x (copiesOf formatFloat k o.entities)) := by
  constructor
  · intro h k x
    rw [settled_iff, ← champion_perm_iff]
    intro vs hvs
    obtain ⟨es', hes', hrivals⟩ := exists_perm_rivals hvs
    have hsame := h es' hes' k
    rw [mergedAt_eq, mergedAt_eq, mergeGroup_perm_iff (copiesOf_perm k hes')] at hsame
    rw [← hrivals]
    exact hsame x
  · intro h es' hes' k
    rw [mergedAt_eq, mergedAt_eq, mergeGroup_perm_iff (copiesOf_perm k hes')]
    intro x
    exact (champion_perm_iff _).mpr ((settled_iff _).mp (h k x)) _
      (rivals_perm x (copiesOf_perm k hes'))

/-- A service one source reports with a port that is `v`. -/
def portCopy (v : Scalar) : Observed where
  type := "service"
  id := .single "name" (.string "web")
  attributes := .single "port" v
  relationships := []
  scope := ""
  observedAt := zeroTime
  cadence := 0

/-- The text `80` and the number 80 print alike, so the copy that comes first is kept. -/
theorem port_depends_on_order :
    ({ entities := [portCopy (.string "80"), portCopy (.int 80)], relations := [] } :
        Observation).mergedAt (fun _ => "") ((portCopy (.int 80)).key fun _ => "") =
      some (.single "port" (.string "80"), "", zeroTime, 0) ∧
    ({ entities := [portCopy (.int 80), portCopy (.string "80")], relations := [] } :
        Observation).mergedAt (fun _ => "") ((portCopy (.int 80)).key fun _ => "") =
      some (.single "port" (.int 80), "", zeroTime, 0) := by
  refine ⟨?_, ?_⟩
  · rw [mergedAt_eq]
    rfl
  · rw [mergedAt_eq]
    rfl

end SenhubAgent.Entities

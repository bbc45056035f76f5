import Mathlib.Algebra.Order.Ring.Rat
import SenhubAgent.Histogram
import SenhubAgent.Lib.AssocMap

/-!
# States as records

A metric definition with an `expand` directive turns a code into one record per state, of which
the state of the code has the value 1. `Resolve` adds a state `unknown` when the code is of no
state, unless the mapping is closed or names such a state itself.

`expansion_shows` says which state the records show for every integer. A value that is none is cut
down to one before it is looked up, so `2.5` is shown as the state of `2`
(`declared_unknown_not_shown`).

Mirroring notes:
- This is `Resolve` from the conversion of the raw value on; the attributes it has gathered before
  that may be anything. The entries of the mapping come in the order the loop ranges over them.
- A finite value is the rational number it stands for. What `int` makes of a value that does not
  fit is up to the platform.
-/

namespace SenhubAgent.OtelMapper

open SenhubAgent.Lib

inductive RawValue where
  | finite (q : ℚ)
  /-- an infinity, or not a number -/
  | special

/-- `int(v)`, where `unfit` is the platform's answer for a value that does not fit. -/
def toInt (unfit : RawValue → Int) : RawValue → Int
  | .finite q =>
    let n := q.num.tdiv q.den
    if -9223372036854775808 ≤ n ∧ n < 9223372036854775808 then n else unfit (.finite q)
  | .special => unfit .special

structure ExpandDirective where
  /-- `Attribute` -/
  attr : String
  mapping : List (String × Int)
  closed : Bool
  names : (mapping.map Prod.fst).Nodup

/-- The parts of a metric definition that go into the records. -/
structure MetricDefinition where
  name : String
  unit : String
  type : String
  description : String
  expand : ExpandDirective

/-- What `otelmapper` hands to an output; `V` is the type of its value. -/
structure OtelRecord (V : Type := Float) where
  name : String
  unit : String
  type : String
  /-- `""` is cumulative -/
  temporality : String
  attributes : AssocMap String String
  value : V
  description : String
  histogram : Option HistogramValue

section Expand

variable (mdef : MetricDefinition) (baseAttrs : AssocMap String String)

/-- The record of a state. -/
def MetricDefinition.record (state : String) (value : ℚ) : OtelRecord ℚ where
  name := mdef.name
  unit := mdef.unit
  type := mdef.type
  temporality := ""
  attributes := baseAttrs.insert mdef.expand.attr state
  value := value
  description := mdef.description
  histogram := none

/-- The loop over the mapping, with `records` and `matched`. -/
def expandLoop (rawCode : Int) :
    List (String × Int) → List (OtelRecord ℚ) → Bool → List (OtelRecord ℚ) × Bool
  | [], records, matched => (records, matched)
  | (stateName, stateCode) :: rest, records, matched =>
    if rawCode = stateCode then
      expandLoop rawCode rest (records ++ [mdef.record baseAttrs stateName 1]) true
    else expandLoop rawCode rest (records ++ [mdef.record baseAttrs stateName 0]) matched

/-- The records of a raw value. -/
def resolveExpand (unfit : RawValue → Int) (raw : RawValue) : List (OtelRecord ℚ) :=
  let (records, matched) :=
    expandLoop mdef baseAttrs (toInt unfit raw) mdef.expand.mapping [] false
  if !matched && !mdef.expand.closed && !(mdef.expand.mapping.any fun e => e.1 == "unknown") then
    records ++ [mdef.record baseAttrs "unknown" 1]
  else records

/-- The records of some entries, for a code. -/
def recordsOf (code : Int) (entries : List (String × Int)) : List (OtelRecord ℚ) :=
  entries.map fun e => mdef.record baseAttrs e.1 (if code = e.2 then 1 else 0)

theorem expandLoop_eq (code : Int) (entries : List (String × Int)) :
    ∀ records matched, expandLoop mdef baseAttrs code entries records matched =
      (records ++ recordsOf mdef baseAttrs code entries,
        matched || entries.any fun e => decide (code = e.2)) := by
  induction entries with
  | nil => intro records matched; simp [expandLoop, recordsOf]
  | cons e entries ih =>
    intro records matched
    rw [expandLoop]
    split
    next h =>
      rw [ih]
      simp [recordsOf, h]
    next h =>
      rw [ih]
      simp [recordsOf, h]

theorem toInt_integer (unfit : RawValue → Int) (n : Int64) :
    toInt unfit (.finite n.toInt) = n.toInt := by
  have hlow := n.le_toInt
  have hhigh := n.toInt_lt
  rw [toInt, Rat.num_intCast, Rat.den_intCast, Nat.cast_one, Int.tdiv_one]
  exact if_pos ⟨hlow, hhigh⟩

/-- An unmatched integer of an open mapping is one more entry, of the state `unknown`. -/
theorem resolveExpand_integer (unfit : RawValue → Int) (n : Int64) :
    resolveExpand mdef baseAttrs unfit (.finite n.toInt) =
      recordsOf mdef baseAttrs n.toInt (if (∀ e ∈ mdef.expand.mapping, e.2 ≠ n.toInt) ∧
          mdef.expand.closed = false ∧ ∀ e ∈ mdef.expand.mapping, e.1 ≠ "unknown" then
        mdef.expand.mapping ++ [("unknown", n.toInt)] else mdef.expand.mapping) := by
  rw [resolveExpand, toInt_integer, expandLoop_eq]
  simp only [List.nil_append, Bool.false_or, Bool.and_eq_true, Bool.not_eq_true',
    List.any_eq_false, decide_eq_true_eq, beq_iff_eq, and_assoc, eq_comm (a := n.toInt)]
  split
  next => simp [recordsOf]
  next => rfl

/-! ## The state shown -/

/-- The records have different states, and `hot` is the one whose value is 1. -/
structure Shows (attr : String) (hot : Option String) (records : List (OtelRecord ℚ)) : Prop where
  distinct : (records.map (·.attributes.lookup attr)).Nodup
  shown : ∀ s, hot = some s → ∃ r ∈ records, r.attributes.lookup attr = some s
  values : ∀ r ∈ records, r.value = if r.attributes.lookup attr = hot then 1 else 0

theorem state_record (state : String) (value : ℚ) :
    (mdef.record baseAttrs state value).attributes.lookup mdef.expand.attr = some state :=
  AList.lookup_insert baseAttrs

variable {entries : List (String × Int)} {code : Int} {hot : Option String}

theorem shows_recordsOf (hnames : (entries.map Prod.fst).Nodup)
    (hhot : ∀ s, hot = some s → ∃ e ∈ entries, e.1 = s)
    (hcode : ∀ e ∈ entries, code = e.2 ↔ some e.1 = hot) :
    Shows mdef.expand.attr hot (recordsOf mdef baseAttrs code entries) where
  distinct := by
    rw [recordsOf, List.map_map]
    have hstates := hnames.map (Option.some_injective String)
    rw [List.map_map] at hstates
    simpa only [Function.comp_def, state_record] using hstates
  shown := by
    intro s hs
    obtain ⟨e, he, rfl⟩ := hhot s hs
    exact ⟨_, List.mem_map_of_mem he, state_record ..⟩
  values := by
    intro r hr
    obtain ⟨e, he, rfl⟩ := List.mem_map.mp hr
    rw [state_record]
    exact if_congr (hcode e he) rfl rfl

theorem shows_entry (hnames : (entries.map Prod.fst).Nodup)
    (hcodes : (entries.map Prod.snd).Nodup) {s : String} (h : (s, code) ∈ entries) :
    Shows mdef.expand.attr (some s) (recordsOf mdef baseAttrs code entries) := by
  refine shows_recordsOf mdef baseAttrs hnames ?_ fun e he => ⟨fun heq => ?_, fun heq => ?_⟩
  · rintro _ ⟨⟩
    exact ⟨_, h, rfl⟩
  · rw [← List.inj_on_of_nodup_map hcodes h he heq]
  · rw [List.inj_on_of_nodup_map hnames he h (Option.some.inj heq)]

theorem nodup_map_concat {α β : Type} {f : α → β} {l : List α} {x : α} (h : (l.map f).Nodup)
    (hx : ∀ e ∈ l, f e ≠ f x) : ((l ++ [x]).map f).Nodup := by
  rw [← List.concat_eq_append, List.map_concat, List.nodup_concat, List.mem_map]
  exact ⟨fun ⟨e, he, heq⟩ => hx e he heq, h⟩

/-- **The state of an integer.** The records show the state of the raw value; a raw value of no
state is shown as `unknown`, or, when the mapping is closed or names that state itself, not at
all. -/
theorem expansion_shows (unfit : RawValue → Int) (n : Int64)
    (hcodes : (mdef.expand.mapping.map Prod.snd).Nodup) :
    (∀ s, (s, n.toInt) ∈ mdef.expand.mapping → Shows mdef.expand.attr (some s)
      (resolveExpand mdef baseAttrs unfit (.finite n.toInt))) ∧
    ((∀ e ∈ mdef.expand.mapping, e.2 ≠ n.toInt) →
      if mdef.expand.closed = false ∧ ∀ e ∈ mdef.expand.mapping, e.1 ≠ "unknown" then
        Shows mdef.expand.attr (some "unknown")
          (resolveExpand mdef baseAttrs unfit (.finite n.toInt))
      else Shows mdef.expand.attr none
        (resolveExpand mdef baseAttrs unfit (.finite n.toInt))) := by
  rw [resolveExpand_integer]
  constructor
  · intro s hs
    rw [if_neg fun h => h.1 _ hs rfl]
    exact shows_entry mdef baseAttrs mdef.expand.names hcodes hs
  · intro hnone
    split
    next hopen =>
      rw [if_pos ⟨hnone, hopen⟩]
      refine shows_entry mdef baseAttrs ?_ ?_ (List.mem_append_right _ (List.mem_singleton_self _))
      · exact nodup_map_concat mdef.expand.names hopen.2
      · exact nodup_map_concat hcodes hnone
    next hshut =>
      rw [if_neg fun h => hshut h.2]
      refine shows_recordsOf mdef baseAttrs mdef.expand.names nofun fun e he => ?_
      exact iff_of_false (hnone e he).symm nofun

end Expand

/-- A status whose mapping names `unknown` itself. -/
def namedUnknown : MetricDefinition where
  name := "senhub.device.status"
  unit := "1"
  type := "gauge"
  description := "Device status"
  expand := ⟨"state", [("ok", 0), ("warning", 2), ("unknown", 3)], false, by decide⟩

theorem expansion_shows_ok :
    Shows "state" (some "ok")
      (resolveExpand namedUnknown ∅ (fun _ => 0) (.finite (0 : Int64).toInt)) :=
  (expansion_shows namedUnknown ∅ (fun _ => 0) 0 (by decide)).1 "ok" (by decide)

/-- No code is 5 or 2.5, and the mapping is open; `unknown` is at 0 for the one, and for the
other `warning` is at 1. -/
theorem declared_unknown_not_shown :
    ¬ Shows "state" (some "unknown") (resolveExpand namedUnknown ∅ (fun _ => 0) (.finite 5)) ∧
      ¬ Shows "state" (some "unknown")
        (resolveExpand namedUnknown ∅ (fun _ => 0) (.finite ⟨5, 2, by decide, by decide⟩)) := by
  have hzero : (namedUnknown.record ∅ "unknown" 0).value ≠ 1 := by decide
  exact ⟨fun h => hzero (h.values _ (.tail _ (.tail _ (.head _)))),
    fun h => hzero (h.values _ (.tail _ (.tail _ (.head _))))⟩

end SenhubAgent.OtelMapper

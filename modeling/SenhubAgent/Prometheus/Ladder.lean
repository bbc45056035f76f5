import Mathlib.Algebra.Order.Ring.Rat
import Mathlib.Data.Char
import Mathlib.Data.List.Lex
import Mathlib.Data.List.Sort
import SenhubAgent.Histogram
import SenhubAgent.Lib.Text

/-!
# The bucket ladder of an accepted histogram

The OTLP receiver keeps an explicit-bucket histogram only if `histogramDataPointValid` accepts
it: no bucket counts at all, or one more than bounds, with a total that does not exceed the
point's count. `writeHistogramRow` later adds the counts up in a `uint64` and prints one bucket
per bound, the `+Inf` bucket and the count.

The counts are safe: the check refuses an overflow, so the running sum never wraps and never
passes the count (`rungs_mono`). The bounds are not looked at: they are printed as they came, so
the ladder is a valid one exactly when the sender's bounds increase and are finite
(`accepted_ladder_iff`).

The `le` text of a rung is the shortest one that reads as its bound
(`strconv.FormatFloat(bound, 'g', -1, 64)`), so rungs are compared by their bounds.

Mirroring notes:
- A `float64` is modelled by what printing reads of it: its sign, the shortest decimal digits that
  round to it and the place of the decimal point.
- Each `Fprintf` writes whole lines: the model lists their texts. The writer does not fail.
-/

namespace SenhubAgent.Prometheus

open SenhubAgent.Lib

/-! ## Values -/

/-- The shortest decimal digits of a number: none for zero, and no zero at either end. -/
structure Shortest where
  digits : List (Fin 10)
  first : digits.head? ≠ some 0
  last : digits.getLast? ≠ some 0

/-- A `float64`. A finite one is `0.d₁d₂…dₙ` times ten to the power `point`. -/
inductive Float64
  | nan
  | inf (negative : Bool)
  | finite (negative : Bool) (shortest : Shortest) (point : Int)

def digitText (digits : List (Fin 10)) : Text := digits.map fun d : Fin 10 => Nat.digitChar d.val

def natText (n : Nat) : Text := Nat.toDigits 10 n

def signText (negative : Bool) : Text := if negative then ['-'] else []

/-- The digits of an exponent, at least two. -/
def exponentText (n : Nat) : Text := if n < 10 then '0' :: natText n else natText n

/-- `%e` -/
def fmtE (digits : List (Fin 10)) (point : Int) : Text :=
  let mantissa := match digits with
    | [] => ['0']
    | [d] => digitText [d]
    | d :: rest => digitText [d] ++ '.' :: digitText rest
  let exp := if digits = [] then 0 else point - 1
  mantissa ++ 'e' :: (if exp < 0 then '-' else '+') :: exponentText exp.natAbs

/-- `%f`, with as many decimals as there are digits. -/
def fmtF (digits : List (Fin 10)) (point : Int) : Text :=
  let whole := if 0 < point then
      digitText (digits.take point.toNat ++ List.replicate (point.toNat - digits.length) 0)
    else ['0']
  if digits.length ≤ point then whole
  else whole ++ '.' :: digitText (List.replicate (-point).toNat 0 ++ digits.drop point.toNat)

/-- `strconv.FormatFloat(v, 'g', -1, 64)` -/
def formatFloat : Float64 → Text
  | .nan => "NaN".toList
  | .inf negative => if negative then "-Inf".toList else "+Inf".toList
  | .finite negative shortest point =>
    signText negative ++ if point - 1 < -4 ∨ 6 ≤ point - 1 then fmtE shortest.digits point
      else fmtF shortest.digits point

/-- Whether the number is an integer whose magnitude is below 10^15. -/
def smallInteger (shortest : Shortest) (point : Int) : Bool :=
  shortest.digits.length ≤ point && point ≤ 15

def formatValue : Float64 → Text
  | .finite negative shortest point =>
    if shortest.digits = [] then ['0']
    else if smallInteger shortest point then
      -- `strconv.FormatInt(int64(v), 10)`
      signText negative ++
        digitText (shortest.digits ++ List.replicate (point.toNat - shortest.digits.length) 0)
    else formatFloat (.finite negative shortest point)
  | v => formatFloat v

def Digits (t : Text) : Prop := t ≠ [] ∧ ∀ c ∈ t, c.isDigit = true

theorem digits_natText (n : Nat) : Digits (natText n) :=
  ⟨Nat.toDigits_ne_nil, fun _ hc => Nat.isDigit_of_mem_toDigits (by decide) (by decide) hc⟩

theorem digits_digitText {digits : List (Fin 10)} (h : digits ≠ []) : Digits (digitText digits) := by
  refine ⟨by simpa [digitText] using h, ?_⟩
  intro c hc
  obtain ⟨d, _, hd⟩ := List.mem_map.mp hc
  rw [← hd, Nat.isDigit_digitChar]
  simp

theorem digits_zero : Digits ['0'] := digits_natText 0

/-- A digit is none of the characters that a state tells apart from a digit. -/
theorem isDigit_plain {c : Char} (h : c.isDigit = true) :
    c ≠ '-' ∧ c ≠ '+' ∧ c ≠ '.' ∧ c ≠ 'e' := by
  refine ⟨?_, ?_, ?_, ?_⟩ <;> intro hc <;> subst hc <;> exact absurd h (by decide)

/-- The mantissa of a number: digits, and a point with more digits or none. -/
inductive Mantissa : Text → Prop
  | whole {t : Text} (h : Digits t) : Mantissa t
  | decimals {t u : Text} (h : Digits t) (h' : Digits u) : Mantissa (t ++ '.' :: u)

theorem fmtF_mantissa (digits : List (Fin 10)) (point : Int) : Mantissa (fmtF digits point) := by
  have hwhole : Digits (if 0 < point then
      digitText (digits.take point.toNat ++ List.replicate (point.toNat - digits.length) 0)
      else ['0']) := by
    split
    next hpos =>
      refine digits_digitText (List.ne_nil_of_length_pos ?_)
      simp only [List.length_append, List.length_take, List.length_replicate]
      omega
    next => exact digits_zero
  unfold fmtF
  dsimp only
  split
  next => exact .whole hwhole
  next hlong =>
    refine .decimals hwhole (digits_digitText (List.ne_nil_of_length_pos ?_))
    simp only [List.length_append, List.length_drop, List.length_replicate]
    omega

/-! ## Escapes and labels -/

/-- `strings.ReplaceAll(s, old, new)` for one character. -/
def replaceAll (old : Char) (new : Text) (s : Text) : Text :=
  s.flatMap fun c => if c = old then new else [c]

def labelValueString (v : Text) : Text :=
  replaceAll '\n' ['\\', 'n'] (replaceAll '"' ['\\', '"'] (replaceAll '\\' ['\\', '\\'] v))

abbrev Label := Text × Text

/-- `k="v"` with the value escaped. -/
def labelText (label : Label) : Text :=
  label.1 ++ '=' :: '"' :: labelValueString label.2 ++ ['"']

/-- `FormatLabels`, over the labels in the order of the keys: an empty value is skipped. -/
def formatLabels (labels : List Label) : Text :=
  let written := labels.filter fun label => label.2 ≠ []
  if written = [] then []
  else '{' :: [','].intercalate (written.map labelText) ++ ['}']

def sortLabels (labels : List Label) : List Label :=
  labels.insertionSort fun a b => a.1 ≤ b.1

/-! ## Lines -/

def sampleText (name : Text) (labels : List Label) (value : Text) : Text :=
  name ++ formatLabels labels ++ ' ' :: value

def leKey : Text := "le".toList

/-- The labels of a histogram's own samples: `le` is reserved for the buckets. -/
def baseLabels (labels : List Label) : List Label := labels.filter fun label => label.1 ≠ leKey

def bucketLabels (labels : List Label) (le : Text) : List Label :=
  sortLabels (baseLabels labels ++ [(leKey, le)])

def bucketName (name : Text) : Text := name ++ "_bucket".toList

def sumName (name : Text) : Text := name ++ "_sum".toList

def countName (name : Text) : Text := name ++ "_count".toList

/-- The bucket lines of the explicit bounds; a bound without a count adds none. -/
def boundLines (name : Text) (labels : List Label) :
    List Float64 → List UInt64 → UInt64 → List Text
  | [], _, _ => []
  | bound :: bounds, counts, cumulative =>
    let cumulative := cumulative + counts.headD 0
    sampleText (bucketName name) (bucketLabels labels (formatFloat bound))
        (natText cumulative.toNat)
      :: boundLines name labels bounds counts.tail cumulative

def writeHistogramRow (name : Text) (labels : List Label) (h : HistogramValue Float64) : List Text :=
  boundLines name labels h.explicitBounds h.bucketCounts 0
    ++ [sampleText (bucketName name) (bucketLabels labels "+Inf".toList) (natText h.count.toNat)]
    ++ (match h.sum with
        | some sum => [sampleText (sumName name) (baseLabels labels) (formatValue sum)]
        | none => [])
    ++ [sampleText (countName name) (baseLabels labels) (natText h.count.toNat)]

/-! ## Comparing bounds -/

def Float64.isFinite : Float64 → Bool
  | .finite _ _ _ => true
  | _ => false

/-- The number that sign, digits and point stand for. -/
def decimalValue (negative : Bool) (shortest : Shortest) (point : Int) : ℚ :=
  let magnitude : Nat := shortest.digits.foldl (fun n d => 10 * n + d.val) 0
  (if negative then -1 else 1) * (magnitude : ℚ) * 10 ^ (point - shortest.digits.length)

/-- `<` of `float64`: NaN compares with nothing. -/
def Float64.lt : Float64 → Float64 → Prop
  | .finite n s p, .finite n' s' p' => decimalValue n s p < decimalValue n' s' p'
  | .finite _ _ _, .inf negative => negative = false
  | .inf negative, .finite _ _ _ => negative = true
  | .inf negative, .inf negative' => negative = true ∧ negative' = false
  | _, _ => False

/-! ## The check at ingestion -/

/-- The loop over the bucket counts; `none` where the sum overflows. -/
def bucketTotal : UInt64 → List UInt64 → Option UInt64
  | sum, [] => some sum
  | sum, c :: counts => if sum + c < sum then none else bucketTotal (sum + c) counts

/-- The check reads the counts, how many bounds there are, and the point's count. -/
def bucketLayoutValid (counts : List UInt64) (bounds : Nat) (count : UInt64) : Bool :=
  if counts.length = 0 then true
  else if counts.length ≠ bounds + 1 then false
  else
    match bucketTotal 0 counts with
    | none => false
    | some sum => sum ≤ count

def histogramDataPointValid (h : HistogramValue Float64) : Bool :=
  bucketLayoutValid h.bucketCounts h.explicitBounds.length h.count

theorem exists_bucketTotal {h : HistogramValue Float64} (hvalid : histogramDataPointValid h = true) :
    ∃ sum, bucketTotal 0 h.bucketCounts = some sum ∧ sum ≤ h.count := by
  unfold histogramDataPointValid bucketLayoutValid at hvalid
  split at hvalid
  next hempty =>
    rw [List.length_eq_zero_iff.mp hempty]
    exact ⟨0, rfl, UInt64.zero_le⟩
  next =>
    split at hvalid
    next => cases hvalid
    next =>
      split at hvalid
      next => cases hvalid
      next sum hsum => exact ⟨sum, hsum, of_decide_eq_true hvalid⟩

theorem le_bucketTotal : ∀ {counts : List UInt64} {sum total : UInt64},
    bucketTotal sum counts = some total → sum ≤ total := by
  intro counts
  induction counts with
  | nil =>
    intro sum total h
    cases h
    exact UInt64.le_refl _
  | cons c counts ih =>
    intro sum total h
    unfold bucketTotal at h
    split at h
    next => cases h
    next hkeeps => exact UInt64.le_trans (UInt64.not_lt.mp hkeeps) (ih h)

/-! ## The rungs that are written -/

/-- The bounds with the running sums that are printed beside them. -/
def rungs : List Float64 → List UInt64 → UInt64 → List (Float64 × UInt64)
  | [], _, _ => []
  | bound :: bounds, counts, cumulative =>
    let cumulative := cumulative + counts.headD 0
    (bound, cumulative) :: rungs bounds counts.tail cumulative

def rungText (name : Text) (labels : List Label) (rung : Float64 × UInt64) : Text :=
  sampleText (bucketName name) (bucketLabels labels (formatFloat rung.1)) (natText rung.2.toNat)

/-- A ladder, printed: its rungs, the `+Inf` bucket, the sum and the count. -/
def ladderTexts (name : Text) (labels : List Label) (ladder : List (Float64 × UInt64))
    (sum : Option Float64) (count : UInt64) : List Text :=
  ladder.map (rungText name labels)
    ++ [sampleText (bucketName name) (bucketLabels labels "+Inf".toList) (natText count.toNat)]
    ++ (sum.map fun sum => sampleText (sumName name) (baseLabels labels) (formatValue sum)).toList
    ++ [sampleText (countName name) (baseLabels labels) (natText count.toNat)]

/-- Finite bounds that increase, one `+Inf` bucket, and counts that never decrease up to the
last, which is the count. -/
structure ValidLadder (ladder : List (Float64 × UInt64)) (count : UInt64) : Prop where
  increasing : (ladder.map Prod.fst).Pairwise Float64.lt
  finite : ∀ rung ∈ ladder, rung.1.isFinite = true
  oneInf : (ladder.map (fun rung => formatFloat rung.1) ++ ["+Inf".toList]).count "+Inf".toList = 1
  monotone : (ladder.map Prod.snd ++ [count]).Pairwise (· ≤ ·)

theorem rungs_bounds : ∀ (bounds : List Float64) (counts : List UInt64) (cumulative : UInt64),
    (rungs bounds counts cumulative).map Prod.fst = bounds := by
  intro bounds
  induction bounds with
  | nil => intro counts cumulative; rfl
  | cons bound bounds ih => intro counts cumulative; simp [rungs, ih]

theorem boundLines_eq_rungs (name : Text) (labels : List Label) :
    ∀ (bounds : List Float64) (counts : List UInt64) (cumulative : UInt64),
      boundLines name labels bounds counts cumulative
        = (rungs bounds counts cumulative).map (rungText name labels) := by
  intro bounds
  induction bounds with
  | nil => intro counts cumulative; rfl
  | cons bound bounds ih => intro counts cumulative; simp [boundLines, rungs, ih, rungText]

theorem writeHistogramRow_eq_ladder (name : Text) (labels : List Label) (h : HistogramValue Float64) :
    writeHistogramRow name labels h
      = ladderTexts name labels (rungs h.explicitBounds h.bucketCounts 0) h.sum h.count := by
  unfold writeHistogramRow ladderTexts
  rw [boundLines_eq_rungs]
  cases h.sum <;> rfl

/-- One turn of the loop keeps within the total. -/
theorem bucketTotal_step {counts : List UInt64} {cumulative total : UInt64}
    (h : bucketTotal cumulative counts = some total) :
    cumulative ≤ cumulative + counts.headD 0 ∧
      bucketTotal (cumulative + counts.headD 0) counts.tail = some total := by
  cases counts with
  | nil => simpa using h
  | cons c counts =>
    unfold bucketTotal at h
    split at h
    next => cases h
    next hkeeps => exact ⟨UInt64.not_lt.mp hkeeps, h⟩

/-- The running sum never decreases and never passes what the counts add up to. -/
theorem rungs_mono : ∀ (bounds : List Float64) {counts : List UInt64} {cumulative total : UInt64},
    bucketTotal cumulative counts = some total →
    ((rungs bounds counts cumulative).map Prod.snd).Pairwise (· ≤ ·) ∧
      ∀ c ∈ (rungs bounds counts cumulative).map Prod.snd, cumulative ≤ c ∧ c ≤ total := by
  intro bounds
  induction bounds with
  | nil => intro counts cumulative total _; simp [rungs]
  | cons bound bounds ih =>
    intro counts cumulative total htotal
    obtain ⟨hgrows, hrest⟩ := bucketTotal_step htotal
    obtain ⟨hpairs, hbetween⟩ := ih hrest
    simp only [rungs, List.map_cons, List.pairwise_cons]
    refine ⟨⟨fun c hc => (hbetween c hc).1, hpairs⟩, fun c hc => ?_⟩
    rcases List.mem_cons.mp hc with rfl | hc
    · exact ⟨hgrows, le_bucketTotal hrest⟩
    · exact ⟨UInt64.le_trans hgrows (hbetween c hc).1, (hbetween c hc).2⟩

theorem monotone_of_valid {h : HistogramValue Float64} (hvalid : histogramDataPointValid h = true) :
    ((rungs h.explicitBounds h.bucketCounts 0).map Prod.snd ++ [h.count]).Pairwise (· ≤ ·) := by
  obtain ⟨sum, hsum, hle⟩ := exists_bucketTotal hvalid
  obtain ⟨hpairs, hbetween⟩ := rungs_mono h.explicitBounds hsum
  refine List.pairwise_append.mpr ⟨hpairs, List.pairwise_singleton _ _, fun c hc d hd => ?_⟩
  rw [List.mem_singleton.mp hd]
  exact UInt64.le_trans (hbetween c hc).2 hle

/-! ## One `+Inf` bucket -/

theorem Digits.head {t : Text} (h : Digits t) (u : Text) : (t ++ u).head? ≠ some '+' := by
  cases t with
  | nil => exact absurd rfl h.1
  | cons c rest =>
    have hc := (isDigit_plain (h.2 c List.mem_cons_self)).2.1
    simpa using hc

theorem Mantissa.head {t : Text} (h : Mantissa t) : t.head? ≠ some '+' := by
  cases h with
  | whole h => simpa using h.head []
  | decimals h _ => exact h.head _

theorem fmtE_head (digits : List (Fin 10)) (point : Int) : (fmtE digits point).head? ≠ some '+' := by
  unfold fmtE
  split
  next => exact digits_zero.head _
  next d => exact (digits_digitText (List.cons_ne_nil d [])).head _
  next d rest _ =>
    rw [List.append_assoc]
    exact (digits_digitText (List.cons_ne_nil d [])).head _

/-- The text of a finite number is no `+Inf`. -/
theorem formatFloat_ne_inf {b : Float64} (h : b.isFinite = true) : formatFloat b ≠ "+Inf".toList := by
  cases b with
  | nan => cases h
  | inf negative => cases h
  | finite negative shortest point =>
    intro htext
    have hhead : (formatFloat (.finite negative shortest point)).head? = some '+' := by
      rw [htext]
      rfl
    cases negative with
    | true => exact absurd hhead (by simp [formatFloat, signText])
    | false =>
      simp only [formatFloat, signText, Bool.false_eq_true, if_false, List.nil_append] at hhead
      split at hhead
      next => exact fmtE_head _ _ hhead
      next => exact (fmtF_mantissa _ _).head hhead

/-- **Accepted is not enough for a ladder**: what an accepted histogram is written as is a
ladder whose counts are right whatever the sender does, and a valid one exactly when the
sender's bounds increase and are finite. -/
theorem accepted_ladder_iff (name : Text) (labels : List Label) (h : HistogramValue Float64)
    (hvalid : histogramDataPointValid h = true) :
    ∃ ladder, writeHistogramRow name labels h = ladderTexts name labels ladder h.sum h.count ∧
      ladder.map Prod.fst = h.explicitBounds ∧
      (ValidLadder ladder h.count ↔
        h.explicitBounds.Pairwise Float64.lt ∧ ∀ b ∈ h.explicitBounds, b.isFinite = true) := by
  refine ⟨_, writeHistogramRow_eq_ladder name labels h, rungs_bounds _ _ _, ?_⟩
  have hbounds := rungs_bounds h.explicitBounds h.bucketCounts 0
  constructor
  · intro hladder
    refine ⟨hbounds ▸ hladder.increasing, fun b hb => ?_⟩
    rw [← hbounds] at hb
    obtain ⟨rung, hrung, rfl⟩ := List.mem_map.mp hb
    exact hladder.finite rung hrung
  · rintro ⟨hincreasing, hfinite⟩
    have hrungs : ∀ rung ∈ rungs h.explicitBounds h.bucketCounts 0, rung.1.isFinite = true := by
      intro rung hrung
      apply hfinite
      rw [← hbounds]
      exact List.mem_map_of_mem hrung
    refine ⟨hbounds.symm ▸ hincreasing, hrungs, ?_, monotone_of_valid hvalid⟩
    rw [List.count_append, List.count_singleton_self, List.count_eq_zero_of_not_mem]
    intro hmem
    obtain ⟨rung, hrung, htext⟩ := List.mem_map.mp hmem
    exact formatFloat_ne_inf (hrungs rung hrung) htext

/-- A bound of one digit. -/
def oneDigit (d : Fin 10) (hd : d ≠ 0) : Float64 :=
  .finite false ⟨[d], by simpa using hd, by simpa using hd⟩ 1

def bounded (bounds : List Float64) : HistogramValue Float64 :=
  { count := 4, sum := none, min := none, max := none, bucketCounts := [1, 1, 1], explicitBounds := bounds }

theorem accepted_ladder_increasing :
    ∃ ladder, writeHistogramRow "rtt".toList [] (bounded [oneDigit 1 (by decide), oneDigit 2 (by decide)])
        = ladderTexts "rtt".toList [] ladder none 4 ∧ ValidLadder ladder 4 := by
  obtain ⟨ladder, htexts, -, hiff⟩ := accepted_ladder_iff "rtt".toList []
    (bounded [oneDigit 1 (by decide), oneDigit 2 (by decide)]) (by decide)
  refine ⟨ladder, htexts, hiff.mpr ⟨List.pairwise_pair.mpr ?_, by
    simp [bounded, oneDigit, Float64.isFinite]⟩⟩
  show decimalValue _ _ _ < decimalValue _ _ _
  have hone : decimalValue false ⟨[1], by decide, by decide⟩ 1 = 1 := by simp [decimalValue]
  have htwo : decimalValue false ⟨[2], by decide, by decide⟩ 1 = 2 := by simp [decimalValue]
  rw [hone, htwo]
  exact one_lt_two

/-- Two bounds the wrong way round are accepted, and written the way they came. -/
theorem falling_bounds_accepted :
    histogramDataPointValid (bounded [oneDigit 2 (by decide), oneDigit 1 (by decide)]) = true ∧
    writeHistogramRow "rtt".toList [] (bounded [oneDigit 2 (by decide), oneDigit 1 (by decide)])
      = ["rtt_bucket\x7ble=\"2\"\x7d 1".toList, "rtt_bucket\x7ble=\"1\"\x7d 2".toList,
        "rtt_bucket\x7ble=\"+Inf\"\x7d 4".toList, "rtt_count 4".toList] := by
  refine ⟨by decide, ?_⟩
  decide +kernel

end SenhubAgent.Prometheus

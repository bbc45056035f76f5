import Mathlib.Algebra.Order.Ring.Rat
import Mathlib.Tactic.Linarith
import SenhubAgent.Lib.Text
import SenhubAgent.Time

/-!
# The guard in front of the OTLP receiver

`ingressGuard.allow` looks at a request's bearer token, then at the address it comes from, and
only then takes a token from the bucket. A bucket earns `rate` tokens a second up to its size,
lazily: `take` adds what the time since the last one has earned.

In any window the guard lets through at most a full bucket and what the window earns: once a
request of the window has been served, the tokens left and those still to be earned before the
window ends pay for the rest (`admitted_le`). A request refused for its token or address
never reaches the bucket, so a run without such requests has the same answers (`guard_limits`).

Mirroring notes:
- The numbers of a bucket are rationals, so its arithmetic is exact.
- A request carries the instant `b.now()` gives when it holds the bucket's lock; a run lists the
  requests in the order they get it.
- `net.SplitHostPort` and `net.ParseIP` are parameters, and a CIDR is the addresses it contains.
-/

namespace SenhubAgent.OtlpReceiver

open SenhubAgent.Lib

/-! ## The bucket -/

structure TokenBucket where
  tokens : ℚ
  max : ℚ
  /-- tokens a second -/
  rate : ℚ
  last : Instant

def newTokenBucket (rate burst : ℚ) : TokenBucket :=
  let burst := if burst < 1 then 1 else burst
  ⟨burst, burst, rate, zeroTime⟩

/-- `d.Seconds()` -/
def seconds (d : Duration) : ℚ := d / 1000000000

/-- What `take` finds in the bucket. -/
def TokenBucket.refill (b : TokenBucket) (now : Instant) : ℚ :=
  if b.last = zeroTime then b.tokens
  else
    let tokens := b.tokens + seconds (timeSub now b.last) * b.rate
    if b.max < tokens then b.max else tokens

def TokenBucket.take (b : TokenBucket) (now : Instant) : Bool × TokenBucket :=
  let tokens := b.refill now
  if tokens < 1 then (false, { b with tokens, last := now })
  else (true, { b with tokens := tokens - 1, last := now })

theorem seconds_mono {d d' : Duration} (h : d ≤ d') : seconds d ≤ seconds d' :=
  div_le_div_of_nonneg_right (Int.cast_le.mpr h) (by norm_num)

theorem seconds_nonneg {d : Duration} (h : 0 ≤ d) : 0 ≤ seconds d := by
  simpa [seconds] using seconds_mono h

theorem seconds_split (t u v : Instant) : seconds (t - v) = seconds (t - u) + seconds (u - v) := by
  unfold seconds
  rw [← add_div, Int.cast_sub, Int.cast_sub, Int.cast_sub, sub_add_sub_cancel]

/-- A bucket that holds between nothing and its size, and does not leak. -/
structure TokenBucket.Sound (b : TokenBucket) : Prop where
  rate : 0 ≤ b.rate
  nonneg : 0 ≤ b.tokens
  full : b.tokens ≤ b.max

/-- Nothing is taken away by a refill, and no more added than the time has earned. -/
theorem refill_bounds {b : TokenBucket} (hb : b.Sound) {now : Instant}
    (hlast : b.last = zeroTime ∨ b.last ≤ now) :
    b.tokens ≤ b.refill now ∧ b.refill now ≤ b.max ∧
      (b.last ≤ now → b.refill now ≤ b.tokens + b.rate * seconds (now - b.last)) := by
  obtain ⟨hrate, -, hfull⟩ := hb
  unfold TokenBucket.refill
  by_cases hzero : b.last = zeroTime
  · rw [if_pos hzero]
    exact ⟨le_refl _, hfull, fun h => le_add_of_nonneg_right
      (mul_nonneg hrate (seconds_nonneg (Int.sub_nonneg.mpr h)))⟩
  · rw [if_neg hzero]
    have h := hlast.resolve_left hzero
    -- `Sub` saturates, so it may find less time than has passed, but never less than none
    have hpast : (0 : Int) ≤ now - b.last := Int.sub_nonneg.mpr h
    have hsome : 0 ≤ timeSub now b.last := le_max_of_le_right (le_min (by decide) hpast)
    have hmost : timeSub now b.last ≤ now - b.last :=
      max_le (Int.le_trans (by decide) hpast) (min_le_right _ _)
    have hless := mul_nonneg (seconds_nonneg hsome) hrate
    have hmore := mul_le_mul_of_nonneg_right (seconds_mono hmost) hrate
    rw [mul_comm (seconds (now - b.last))] at hmore
    dsimp only
    split
    next hover => exact ⟨hfull, le_refl _, fun _ => by linarith⟩
    next hunder => exact ⟨by linarith, by linarith, fun _ => by linarith⟩

/-! ## The guard -/

/-- `errUnauthorized`, `errForbidden` and `errRateLimited`. -/
inductive Refusal where
  | unauthorized
  | forbidden
  | rateLimited
deriving DecidableEq

structure ReceiverConfig (Ip : Type) where
  bearerToken : String
  allowedCIDRs : List (Ip → Bool)
  rateLimitRPS : ℚ
  rateLimitBurst : Int

structure IngressGuard (Ip : Type) where
  token : String
  cidrs : List (Ip → Bool)
  bucket : Option TokenBucket

variable {Ip : Type}

def newIngressGuard (cfg : ReceiverConfig Ip) : Option (IngressGuard Ip) :=
  if cfg.bearerToken = "" ∧ cfg.allowedCIDRs = [] ∧ cfg.rateLimitRPS ≤ 0 then none
  else some
    { token := cfg.bearerToken
      cidrs := cfg.allowedCIDRs
      bucket :=
        if 0 < cfg.rateLimitRPS then some (newTokenBucket cfg.rateLimitRPS cfg.rateLimitBurst)
        else none }

structure Request where
  remoteAddr : String
  authHeader : String
  now : Instant

/-- The functions of the `net` package. -/
structure Net (Ip : Type) where
  splitHostPort : String → Option String
  parseIP : String → Option Ip

/-- The checks of `allow` that come before the bucket. -/
def IngressGuard.stranger (net : Net Ip) (g : IngressGuard Ip) (r : Request) : Option Refusal :=
  if g.token ≠ "" ∧ ¬ (startsWith "Bearer " r.authHeader = true ∧
      r.authHeader.toList.drop "Bearer ".length = g.token.toList) then some .unauthorized
  else if g.cidrs = [] then none
  else match net.parseIP ((net.splitHostPort r.remoteAddr).getD r.remoteAddr) with
    | none => some .forbidden
    | some ip => if g.cidrs.any (· ip) then none else some .forbidden

def allow (net : Net Ip) :
    Option (IngressGuard Ip) → Request → Option Refusal × Option (IngressGuard Ip)
  | none, _ => (none, none)
  | some g, r =>
    match g.stranger net r, g.bucket with
    | some refusal, _ => (some refusal, some g)
    | none, none => (none, some g)
    | none, some b =>
      (if (b.take r.now).1 then none else some .rateLimited,
        some { g with bucket := some (b.take r.now).2 })

/-- What every request of a run is answered. -/
def answers (net : Net Ip) : Option (IngressGuard Ip) → List Request → List (Request × Option Refusal)
  | _, [] => []
  | g, r :: rs => (r, (allow net g r).1) :: answers net (allow net g r).2 rs

/-- The requests let through from `start` to `stop`. -/
def admitted (answers : List (Request × Option Refusal)) (start stop : Instant) : Nat :=
  answers.countP fun p => decide (p.2 = none ∧ start ≤ p.1.now ∧ p.1.now ≤ stop)

/-! ## The window -/

variable {net : Net Ip} {start stop : Instant}

theorem admitted_cons (p : Request × Option Refusal) (ps : List (Request × Option Refusal)) :
    admitted (p :: ps) start stop = admitted ps start stop +
      if p.2 = none ∧ start ≤ p.1.now ∧ p.1.now ≤ stop then 1 else 0 := by
  simp [admitted, List.countP_cons]

theorem admitted_late (rs : List Request) :
    ∀ g, (∀ r ∈ rs, stop < r.now) → admitted (answers net g rs) start stop = 0 := by
  induction rs with
  | nil => intro g _; rfl
  | cons r rs ih =>
    intro g hlate
    rw [answers, admitted_cons, ih _ fun x hx => hlate x (.tail _ hx),
      if_neg fun h => absurd h.2.2 (Int.not_le.mpr (hlate r (.head _)))]

/-- What a guard with a bucket does with a request: it is refused and nothing changes, or it
takes from the bucket, which pays for it if it is let through. -/
theorem allow_cases (net : Net Ip) (g : IngressGuard Ip) (r : Request) {b : TokenBucket}
    (hg : g.bucket = some b) (hb : b.Sound) (hlast : b.last = zeroTime ∨ b.last ≤ r.now) :
    (∃ refusal, allow net (some g) r = (some refusal, some g)) ∨
      ∃ answer b', allow net (some g) r = (answer, some { g with bucket := some b' }) ∧ b'.Sound ∧
        b'.rate = b.rate ∧ b'.max = b.max ∧ b'.last = r.now ∧
        b'.tokens + (if answer = none then 1 else 0) = b.refill r.now := by
  cases hcheck : g.stranger net r with
  | some refusal => exact .inl ⟨refusal, by simp only [allow, hcheck]⟩
  | none =>
    obtain ⟨hkeeps, hcap, -⟩ := refill_bounds hb hlast
    have hsome := hb.nonneg.trans hkeeps
    refine .inr ⟨if (b.take r.now).1 then none else some .rateLimited, (b.take r.now).2,
      by simp only [allow, hcheck, hg], ?_⟩
    unfold TokenBucket.take
    by_cases hpoor : b.refill r.now < 1
    · rw [if_pos hpoor]
      exact ⟨⟨hb.rate, hsome, hcap⟩, rfl, rfl, rfl, by simp⟩
    · rw [if_neg hpoor]
      exact ⟨⟨hb.rate, by linarith, by linarith⟩, rfl, rfl, rfl, by simp⟩

/-- A request that is counted has been paid for. -/
theorem count_le_paid (answer : Option Refusal) (P : Prop) [Decidable P] :
    ((if answer = none ∧ P then 1 else 0 : Nat) : ℚ) ≤ if answer = none then 1 else 0 := by
  by_cases hnone : answer = none
  · by_cases hP : P
    · simp [hnone, hP]
    · simp [hnone, hP]
  · simp [hnone]

/-- The induction goes over the requests: a window that has not begun sees at most a full bucket
and what it earns, and one that has begun the tokens left and what is still to be earned. -/
theorem admitted_le (net : Net Ip) (hwindow : start ≤ stop) (rs : List Request) :
    ∀ (g : IngressGuard Ip) (b : TokenBucket) (x : ℚ), g.bucket = some b → b.Sound →
      (∀ r ∈ rs, b.last = zeroTime ∨ b.last ≤ r.now) → rs.Pairwise (·.now ≤ ·.now) →
      (x = b.max + b.rate * seconds (stop - start) ∨
        start ≤ b.last ∧ b.last ≤ stop ∧ (∀ r ∈ rs, b.last ≤ r.now) ∧
          x = b.tokens + b.rate * seconds (stop - b.last)) →
      (admitted (answers net (some g) rs) start stop : ℚ) ≤ x := by
  have hpos : ∀ {b : TokenBucket} {x : ℚ}, b.Sound → (x = b.max + b.rate * seconds (stop - start) ∨
      b.last ≤ stop ∧ x = b.tokens + b.rate * seconds (stop - b.last)) → 0 ≤ x := by
    rintro b x hb (rfl | ⟨hlast, rfl⟩)
    · exact add_nonneg (hb.nonneg.trans hb.full)
        (mul_nonneg hb.rate (seconds_nonneg (Int.sub_nonneg.mpr hwindow)))
    · exact add_nonneg hb.nonneg (mul_nonneg hb.rate (seconds_nonneg (Int.sub_nonneg.mpr hlast)))
  induction rs with
  | nil => exact fun g b x _ hb _ _ hx => hpos hb (hx.imp_right fun h => ⟨h.2.1, h.2.2.2⟩)
  | cons r rs ih =>
    intro g b x hg hb hlast hclock hx
    obtain ⟨hnext, hclock'⟩ := List.pairwise_cons.mp hclock
    rw [answers, admitted_cons]
    rcases allow_cases net g r hg hb (hlast r (.head _)) with
      ⟨refusal, hno⟩ | ⟨answer, b', hyes, hb', hrate, hmax, hnow, hpaid⟩
    · rw [hno, if_neg (by simp), Nat.add_zero]
      exact ih g b x hg hb (fun y hy => hlast y (.tail _ hy)) hclock'
        (hx.imp_right fun h => ⟨h.1, h.2.1, fun y hy => h.2.2.1 y (.tail _ hy), h.2.2.2⟩)
    · rw [hyes]
      have hlast' : ∀ y ∈ rs, b'.last ≤ y.now := fun y hy => hnow ▸ hnext y hy
      have hrest := fun x => ih { g with bucket := some b' } b' x rfl hb'
        (fun y hy => .inr (hlast' y hy)) hclock'
      by_cases hin : start ≤ r.now ∧ r.now ≤ stop
      · have hlater := hrest _ (.inr ⟨hnow ▸ hin.1, hnow ▸ hin.2, hlast', rfl⟩)
        have hcounted := count_le_paid answer (start ≤ r.now ∧ r.now ≤ stop)
        obtain ⟨-, hcap, hearn⟩ := refill_bounds hb (hlast r (.head _))
        have hbefore := mul_nonneg hb.rate (seconds_nonneg (Int.sub_nonneg.mpr hin.1))
        rw [hrate, hnow] at hlater
        rw [Nat.cast_add]
        rcases hx with rfl | ⟨-, -, hafter, rfl⟩
        · rw [seconds_split stop r.now start, mul_add]
          linarith
        · have hearn := hearn (hafter r (.head _))
          rw [seconds_split stop r.now b.last, mul_add]
          linarith
      · rw [if_neg fun h => hin h.2, Nat.add_zero]
        rcases Int.lt_or_le stop r.now with hlate | hintime
        · rw [admitted_late rs _ fun y hy => Int.lt_of_lt_of_le hlate (hnext y hy)]
          exact hpos hb (hx.imp_right fun h => ⟨h.2.1, h.2.2.2⟩)
        · -- before the window
          rcases hx with rfl | ⟨hbegun, -, hafter, -⟩
          · exact hrest _ (.inl (by rw [hmax, hrate]))
          · exact absurd ⟨Int.le_trans hbegun (hafter r (.head _)), hintime⟩ hin

/-! ## The requests of strangers -/

/-- The answer is for the token or the address. -/
def Refusal.stranger : Option Refusal → Bool
  | some .unauthorized => true
  | some .forbidden => true
  | _ => false

theorem allow_of_stranger (g : Option (IngressGuard Ip)) (r : Request)
    (h : Refusal.stranger (allow net g r).1 = true) : (allow net g r).2 = g := by
  revert h
  fun_cases allow net g r with
  | case1 | case2 | case3 => exact fun _ => rfl
  | case4 =>
    intro h
    dsimp only at h
    split at h
    · cases h
    · cases h

/-- The answers to the others are those of a run without the strangers. -/
theorem answers_without_strangers (rs : List Request) :
    ∀ g, answers net g (((answers net g rs).filter fun p => !Refusal.stranger p.2).map Prod.fst) =
      (answers net g rs).filter fun p => !Refusal.stranger p.2 := by
  induction rs with
  | nil => intro g; rfl
  | cons r rs ih =>
    intro g
    rw [answers]
    cases hstranger : Refusal.stranger (allow net g r).1 with
    | true =>
      rw [List.filter_cons_of_neg (by simp [hstranger]), allow_of_stranger g r hstranger]
      exact ih g
    | false =>
      rw [List.filter_cons_of_pos (by simp [hstranger]), List.map_cons, answers, ih]

/-- **The rate limit holds and strangers cannot drain it.** For every configuration and every run
under a clock that does not go back: where a rate is configured, no window sees more requests
let through than a full bucket and what the window earns; and the requests that were not refused
for their token or address are answered the same in a run without those that were. -/
theorem guard_limits (net : Net Ip) (cfg : ReceiverConfig Ip) (run : List Request)
    (hclock : run.Pairwise (·.now ≤ ·.now)) :
    (0 < cfg.rateLimitRPS → ∀ start stop, start ≤ stop →
      (admitted (answers net (newIngressGuard cfg) run) start stop : ℚ) ≤
        max (cfg.rateLimitBurst : ℚ) 1 + cfg.rateLimitRPS * seconds (stop - start)) ∧
    answers net (newIngressGuard cfg)
        (((answers net (newIngressGuard cfg) run).filter fun p => !Refusal.stranger p.2).map Prod.fst) =
      (answers net (newIngressGuard cfg) run).filter fun p => !Refusal.stranger p.2 := by
  refine ⟨fun hrate start stop hwindow => ?_, answers_without_strangers run _⟩
  have hsize : (newTokenBucket cfg.rateLimitRPS cfg.rateLimitBurst).max =
      max (cfg.rateLimitBurst : ℚ) 1 := by
    unfold newTokenBucket
    split
    next h => exact (max_eq_right (le_of_lt h)).symm
    next h => exact (max_eq_left (not_lt.mp h)).symm
  have hsound : (newTokenBucket cfg.rateLimitRPS cfg.rateLimitBurst).Sound :=
    ⟨le_of_lt hrate, le_of_le_of_eq (zero_le_one.trans (le_max_right _ _)) hsize.symm, le_refl _⟩
  unfold newIngressGuard
  rw [if_neg fun h => absurd hrate (not_lt.mpr h.2.2), if_pos hrate, ← hsize]
  exact admitted_le net hwindow run _ _ _ rfl hsound (fun _ _ => .inl rfl) hclock (.inl rfl)

/-- Two requests a nanosecond apart, a burst of none and two tokens a second. -/
theorem guard_limits_pair :
    (admitted (answers ⟨fun _ => none, fun _ => some ()⟩ (newIngressGuard ⟨"", [], 2, 0⟩)
        [⟨"peer", "", 5⟩, ⟨"peer", "", 6⟩]) 0 10 : ℚ) ≤ 1 + 2 * seconds 10 := by
  have hpair := (guard_limits ⟨fun _ => none, fun _ => some ()⟩ ⟨"", [], 2, 0⟩
    [⟨"peer", "", 5⟩, ⟨"peer", "", 6⟩] (by decide)).1 (by norm_num) 0 10 (by decide)
  simpa using hpair

end SenhubAgent.OtlpReceiver

import SenhubAgent.Lib.AssocMap
import SenhubAgent.Lib.Distribute
import SenhubAgent.Lib.Schedule
import Mathlib.Data.List.Forall2

/-!
# The bounded push backlog

`pushqueue.Bounded` is the backlog a push sink keeps between a collection cycle and
a delivery. `Append` adds at the tail, `Sync` takes the whole backlog, `AbortSync`
puts an undelivered batch back in front of what arrived meanwhile; after each of the
two that add, `trimToCap` cuts the oldest items past the cap and counts them.

A sink is the queue, the batch it has out and, as ghosts, what was ever appended and
what was ever delivered. The account gives every appended *position* one fate. What
carries it over a run is a layout (`Laid`): in production order the appended items are

    settled ++ batch ++ lost ++ queued

where `lost` was cut off the queue while the batch was out. It can only be non-empty
beside a non-empty batch when the queue is exactly full, which is why the batch is
then cut off whole when it comes back, and no older item is kept in place of a newer.

Mirroring notes:
- The mutex makes each call atomic, so a run is a list of calls.
- `items` is a value; the sharing of backing arrays between slices is not modelled.
- The `uint64` drop counters are natural numbers.
-/

namespace SenhubAgent.DataStore

open SenhubAgent.Lib

/-- `agentstate.pushBufferDropped`: dropped items per strategy. -/
abbrev DropCounters := AssocMap String Nat

def incrementPushBufferDropped (c : DropCounters) (strategy : String) (n : Int) : DropCounters :=
  if n ≤ 0 then c else c.insert strategy (readCount c strategy + n.toNat)

structure Bounded (T : Type) where
  strategy : String
  maxItems : Int
  items : List T

namespace Bounded

variable {T : Type}

def new (T : Type) (strategy : String) (maxItems : Int) : Bounded T := ⟨strategy, maxItems, []⟩

/-- Drop the oldest items past the cap and record the loss. -/
def trimToCap (b : Bounded T) (c : DropCounters) : Bounded T × DropCounters :=
  if b.maxItems ≤ 0 ∨ (b.items.length : Int) ≤ b.maxItems then (b, c)
  else
    let dropped := (b.items.length : Int) - b.maxItems
    ({ b with items := b.items.drop dropped.toNat },
      incrementPushBufferDropped c b.strategy dropped)

def append (b : Bounded T) (newItems : List T) (c : DropCounters) : Bounded T × DropCounters :=
  trimToCap { b with items := b.items ++ newItems } c

/-- The batch the caller now owns, and the emptied queue. -/
def sync (b : Bounded T) : List T × Bounded T := (b.items, { b with items := [] })

def abortSync (b : Bounded T) (failed : List T) (c : DropCounters) : Bounded T × DropCounters :=
  trimToCap { b with items := failed ++ b.items } c

/-- The cap is exceeded by `n` items. A cap of zero or less is no cap. -/
def Exceeded (b : Bounded T) (n : Nat) : Prop := 0 < b.maxItems ∧ b.maxItems < (n : Int)

theorem readCount_incrementPushBufferDropped (c : DropCounters) (strategy k : String) (n : Nat) :
    readCount (incrementPushBufferDropped c strategy n) k
      = readCount c k + if k = strategy then n else 0 := by
  unfold incrementPushBufferDropped
  split
  next h =>
    have hn : n = 0 := by omega
    simp [hn]
  next =>
    rw [readCount_insert]
    split
    next hk => rw [hk]; rfl
    next => rfl

/-- What trimming a queue to its cap does: `shed` goes off the front, `kept` stays. -/
structure Trims (b : Bounded T) (c : DropCounters) (shed kept : List T) : Prop where
  items : b.items = shed ++ kept
  queue : (b.trimToCap c).1 = { b with items := kept }
  counted : ∀ k, readCount (b.trimToCap c).2 k
    = readCount c k + if k = b.strategy then shed.length else 0
  capped : 0 < b.maxItems → (kept.length : Int) ≤ b.maxItems
  full : shed ≠ [] → b.Exceeded b.items.length ∧ (kept.length : Int) = b.maxItems

theorem trimToCap_trims (b : Bounded T) (c : DropCounters) : ∃ shed kept, Trims b c shed kept := by
  by_cases h : b.maxItems ≤ 0 ∨ (b.items.length : Int) ≤ b.maxItems
  · have htrim : b.trimToCap c = (b, c) := by unfold trimToCap; rw [if_pos h]
    refine ⟨[], b.items, ⟨rfl, by rw [htrim], fun k => ?_, fun hpos => ?_, fun hne => absurd rfl hne⟩⟩
    · rw [htrim]
      simp
    · omega
  · -- the cut leaves exactly `maxItems` items
    obtain ⟨n, hn⟩ : ∃ n : Nat, (b.items.length : Int) - b.maxItems = n :=
      ⟨((b.items.length : Int) - b.maxItems).toNat, by omega⟩
    have htrim : b.trimToCap c = ({ b with items := b.items.drop n },
        incrementPushBufferDropped c b.strategy n) := by
      unfold trimToCap
      rw [if_neg h, hn]
      rfl
    have htake : (b.items.take n).length = n := by
      rw [List.length_take]
      omega
    have hdrop : ((b.items.drop n).length : Int) = b.maxItems := by
      rw [List.length_drop]
      omega
    refine ⟨b.items.take n, b.items.drop n,
      ⟨(List.take_append_drop n b.items).symm, by rw [htrim], fun k => ?_, fun _ => by omega,
        fun _ => ⟨⟨by omega, by omega⟩, hdrop⟩⟩⟩
    rw [htrim, htake]
    exact readCount_incrementPushBufferDropped c b.strategy k n

end Bounded

/-! ## Runs of a sink -/

/-- A push sink: its queue, the drop counters and the batch it took and has neither
delivered nor given back. `produced` and `delivered` are ghosts. -/
structure Sink (T : Type) where
  queue : Bounded T
  counters : DropCounters
  batch : Option (List T)
  produced : List T
  delivered : List T

inductive Call (T : Type) where
  | append (newItems : List T)
  | sync
  /-- the batch went out -/
  | deliver
  | abortSync

namespace Sink

variable {T : Type}

/-- A sink that has just built its queue; the counters may hold anything. -/
def start (strategy : String) (maxItems : Int) (counters : DropCounters) : Sink T :=
  ⟨Bounded.new T strategy maxItems, counters, none, [], []⟩

def step (s : Sink T) : Call T → Option (Sink T)
  | .append newItems =>
    let r := s.queue.append newItems s.counters
    some { s with queue := r.1, counters := r.2, produced := s.produced ++ newItems }
  | .sync =>
    match s.batch with
    | some _ => none
    | none => some { s with queue := s.queue.sync.2, batch := some s.queue.sync.1 }
  | .deliver =>
    match s.batch with
    | none => none
    | some batch => some { s with batch := none, delivered := s.delivered ++ batch }
  | .abortSync =>
    match s.batch with
    | none => none
    | some batch =>
      let r := s.queue.abortSync batch s.counters
      some { s with queue := r.1, counters := r.2, batch := none }

/-- The items of the batch that is out, if one is. -/
def out (s : Sink T) : List T := s.batch.getD []

/-- What the queue holds in a call just before the cap is applied. -/
def offered (s : Sink T) : Call T → List T
  | .append newItems => s.queue.items ++ newItems
  | .abortSync => s.out ++ s.queue.items
  | _ => s.queue.items

end Sink

/-- What a call appends. -/
def Call.arrivals {T : Type} : Call T → List T
  | .append newItems => newItems
  | _ => []

/-! ## The account -/

/-- Where an appended item is. -/
inductive Fate where
  | queued
  | outstanding
  | delivered
  | dropped
deriving DecidableEq

/-- How a call may change the fate of an item. An item goes only when the cap is
exceeded. -/
inductive Becomes {T : Type} (s : Sink T) : Call T → Fate → Fate → Prop where
  | stays (a : Call T) (f : Fate) : Becomes s a f f
  | taken : Becomes s .sync .queued .outstanding
  | delivers : Becomes s .deliver .outstanding .delivered
  | back : Becomes s .abortSync .outstanding .queued
  | shed (a : Call T) : s.queue.Exceeded (s.offered a).length → Becomes s a .queued .dropped
  | shedBatch : s.queue.Exceeded (s.offered .abortSync).length →
      Becomes s .abortSync .outstanding .dropped

/-- A call moves the fates on; what it appends arrives queued. -/
def Moves {T : Type} (s : Sink T) (a : Call T) (fates fates' : List Fate) : Prop :=
  List.Forall₂ (Becomes s a) (fates ++ List.replicate a.arrivals.length .queued) fates'

/-- `fates` gives every item appended so far its one fate, and it is the right one:
queue, batch and deliveries are the items of that fate in production order, the
reported losses are the dropped ones, and no item is kept in the queue in place of a
newer one that was dropped. -/
structure Account {T : Type} (c₀ : DropCounters) (s : Sink T) (fates : List Fate) : Prop where
  length : fates.length = s.produced.length
  queued : s.queue.items = pick .queued fates s.produced
  outstanding : s.out = pick .outstanding fates s.produced
  delivered : s.delivered = pick .delivered fates s.produced
  reported : ∀ k, readCount s.counters k
    = readCount c₀ k + if k = s.queue.strategy then fates.count .dropped else 0
  capped : 0 < s.queue.maxItems → (s.queue.items.length : Int) ≤ s.queue.maxItems
  oldestFirst : fates.Pairwise fun older newer => newer = .dropped → older ≠ .queued

/-- One fate for a whole block. -/
def block {T : Type} (f : Fate) (xs : List T) : List Fate := List.replicate xs.length f

section Layout

variable {T : Type}

@[simp] theorem block_nil (f : Fate) : block f ([] : List T) = [] := rfl

@[simp] theorem block_append (f : Fate) (xs ys : List T) :
    block f (xs ++ ys) = block f xs ++ block f ys := by
  unfold block
  rw [List.length_append, List.replicate_add]

@[simp] theorem block_length (f : Fate) (xs : List T) : (block f xs).length = xs.length := by
  unfold block
  rw [List.length_replicate]

theorem pick_block (l f : Fate) (xs : List T) :
    pick l (block f xs) xs = if f = l then xs else [] := by
  unfold block
  split
  next h => rw [h, pick_replicate_self]
  next h => rw [pick_replicate_ne h]

theorem count_block (l f : Fate) (xs : List T) :
    (block f xs).count l = if f = l then xs.length else 0 := by
  unfold block
  rw [List.count_replicate]
  simp

variable {f g : Fate} {R : Fate → Fate → Prop} {s' : Sink T} {shed kept : List T}

theorem mem_block {xs : List T} (h : g ∈ block f xs) : g = f :=
  List.eq_of_mem_replicate h

theorem forall₂_block (h : R f g) (xs : List T) : List.Forall₂ R (block f xs) (block g xs) := by
  induction xs with
  | nil => exact .nil
  | cons x xs ih => exact .cons h ih

theorem forall₂_of_mem {fs gs : List Fate} (hlen : fs.length = gs.length)
    (h : ∀ f ∈ fs, ∀ g ∈ gs, R f g) : List.Forall₂ R fs gs := by
  refine List.forall₂_iff_zip.mpr ⟨hlen, fun hfg => ?_⟩
  obtain ⟨hf, hg⟩ := List.of_mem_zip hfg
  exact h _ hf _ hg

theorem Becomes.same {s : Sink T} (a : Call T) (fates : List Fate) :
    List.Forall₂ (Becomes s a) fates fates :=
  List.forall₂_same.mpr fun f _ => .stays a f

/-- No label, no item. -/
theorem pick_eq_nil {l : Fate} :
    ∀ {fates : List Fate} (xs : List T), l ∉ fates → pick l fates xs = [] := by
  intro fates
  induction fates with
  | nil => intro xs _; rfl
  | cons f fates ih =>
    intro xs h
    cases xs with
    | nil => rfl
    | cons x xs =>
      have hf : l ≠ f := fun heq => h (heq ▸ List.mem_cons_self ..)
      have hfates : l ∉ fates := fun hm => h (List.mem_cons_of_mem f hm)
      unfold pick
      rw [if_neg (fun heq => hf heq.symm), ih xs hfates]

/-- The layout of the appended items, oldest first. -/
structure Laid (c₀ : DropCounters) (s : Sink T) (fates : List Fate) (old : List T)
    (settled : List Fate) (lost : List T) : Prop where
  produced : s.produced = old ++ s.out ++ lost ++ s.queue.items
  fates_eq : fates = settled ++ block .outstanding s.out ++ block .dropped lost
    ++ block .queued s.queue.items
  length : settled.length = old.length
  decided : ∀ f ∈ settled, f = .delivered ∨ f = .dropped
  delivered : s.delivered = pick .delivered settled old
  reported : ∀ k, readCount s.counters k
    = readCount c₀ k + if k = s.queue.strategy then settled.count .dropped + lost.length else 0
  capped : 0 < s.queue.maxItems → (s.queue.items.length : Int) ≤ s.queue.maxItems
  full : s.out ≠ [] → lost ≠ [] →
    0 < s.queue.maxItems ∧ (s.queue.items.length : Int) = s.queue.maxItems

variable {c₀ : DropCounters} {s : Sink T} {fates : List Fate} {old : List T}
  {settled : List Fate} {lost : List T}

theorem Laid.pick (h : Laid c₀ s fates old settled lost) (l : Fate) :
    pick l fates s.produced = pick l settled old ++ (if Fate.outstanding = l then s.out else [])
      ++ (if Fate.dropped = l then lost else [])
      ++ (if Fate.queued = l then s.queue.items else []) := by
  rw [h.fates_eq, h.produced, pick_append _ _ _ _ _ (by simp [h.length]),
    pick_append _ _ _ _ _ (by simp [h.length]), pick_append _ _ _ _ _ h.length,
    pick_block, pick_block, pick_block]

theorem Laid.account (h : Laid c₀ s fates old settled lost) : Account c₀ s fates where
  length := by simp [h.fates_eq, h.produced, h.length]
  queued := by
    have hsettled : Fate.queued ∉ settled := fun hm => by simpa using h.decided _ hm
    rw [h.pick, pick_eq_nil old hsettled]
    simp
  outstanding := by
    have hsettled : Fate.outstanding ∉ settled := fun hm => by simpa using h.decided _ hm
    rw [h.pick, pick_eq_nil old hsettled]
    simp
  delivered := by
    rw [h.pick, h.delivered]
    simp
  reported := by
    intro k
    rw [h.reported, h.fates_eq]
    simp [count_block]
  capped := h.capped
  oldestFirst := by
    -- queued items stand last, so none of them is older than a dropped one
    rw [h.fates_eq]
    refine List.pairwise_append.mpr ⟨?_, ?_, ?_⟩
    · refine List.pairwise_of_forall_mem_list fun older holder newer _ _ hqueued => ?_
      subst hqueued
      rcases List.mem_append.mp holder with hm | hm
      · rcases List.mem_append.mp hm with hm | hm
        · simpa using h.decided _ hm
        · cases mem_block hm
      · cases mem_block hm
    · refine List.pairwise_of_forall_mem_list fun older _ newer hnewer hdropped => ?_
      subst hdropped
      cases mem_block hnewer
    · intro older _ newer hnewer hdropped
      subst hdropped
      cases mem_block hnewer

theorem Laid.start (strategy : String) (maxItems : Int) (c₀ : DropCounters) :
    Laid c₀ (Sink.start strategy maxItems c₀ : Sink T) [] [] [] [] where
  produced := rfl
  fates_eq := rfl
  length := rfl
  decided := by simp
  delivered := rfl
  reported := by
    intro k
    split
    · rfl
    · rfl
  capped := fun hpos => Int.le_of_lt hpos
  full := fun hout => absurd rfl hout

/-- The layout a call leads to, with the moves of the fates. -/
def Relaid (c₀ : DropCounters) (s : Sink T) (a : Call T) (fates : List Fate) (s' : Sink T) : Prop :=
  ∃ fates' old' settled' lost', Moves s a fates fates' ∧ Laid c₀ s' fates' old' settled' lost'

variable (h : Laid c₀ s fates old settled lost)

include h

/-- What `Append` cuts off the queue joins the lost items. -/
theorem Laid.append (newItems : List T) (hstep : s.step (.append newItems) = some s') :
    Relaid c₀ s (.append newItems) fates s' := by
  obtain ⟨shed, kept, htrim⟩ :=
    Bounded.trimToCap_trims { s.queue with items := s.queue.items ++ newItems } s.counters
  have hs' : s' = { s with
      queue := { s.queue with items := kept }
      counters := (s.queue.append newItems s.counters).2
      produced := s.produced ++ newItems } := by
    simp only [Sink.step, Option.some.injEq] at hstep
    rw [← hstep]
    simp only [Bounded.append, htrim.queue]
  have hitems : s.queue.items ++ newItems = shed ++ kept := htrim.items
  refine ⟨settled ++ block .outstanding s.out ++ block .dropped (lost ++ shed)
    ++ block .queued kept, old, settled, lost ++ shed, ?_, ?_⟩
  · -- the items cut off were queued, the rest keeps its fate
    have hfates : fates ++ List.replicate newItems.length .queued
        = settled ++ block .outstanding s.out ++ (block .dropped lost ++ block .queued shed)
          ++ block .queued kept := by
      have hblock := congrArg (block Fate.queued) hitems
      rw [block_append, block_append] at hblock
      rw [h.fates_eq]
      show _ ++ block .queued newItems = _
      simp only [List.append_assoc] at hblock ⊢
      rw [hblock]
    show List.Forall₂ _ (fates ++ List.replicate newItems.length .queued) _
    rw [hfates, block_append]
    refine List.rel_append (List.rel_append (Becomes.same _ _)
      (List.rel_append (Becomes.same _ _) ?_)) (Becomes.same _ _)
    by_cases hshed : shed = []
    · subst hshed
      exact .nil
    · exact forall₂_block (.shed _ (htrim.full hshed).1) shed
  · rw [hs']
    refine ⟨?_, rfl, h.length, h.decided, h.delivered, fun k => ?_, htrim.capped, fun hout hlost => ?_⟩
    · show s.produced ++ newItems = old ++ s.out ++ (lost ++ shed) ++ kept
      rw [h.produced]
      simp only [List.append_assoc]
      rw [hitems]
    · show readCount (s.queue.append newItems s.counters).2 k = _
      have hcounted := htrim.counted k
      have hreported := h.reported k
      unfold Bounded.append
      rw [hcounted, hreported, List.length_append]
      show _ + _ + (if k = s.queue.strategy then _ else _)
        = _ + if k = s.queue.strategy then _ else _
      split
      · omega
      · rfl
    · -- a queue that was full stays full
      show 0 < s.queue.maxItems ∧ (kept.length : Int) = s.queue.maxItems
      by_cases hshed : shed = []
      · subst hshed
        rw [List.append_nil] at hlost
        obtain ⟨hpos, hfull⟩ := h.full hout hlost
        have hcapped : (kept.length : Int) ≤ s.queue.maxItems := htrim.capped hpos
        have hlen := congrArg List.length hitems
        simp only [List.length_append, List.length_nil] at hlen
        exact ⟨hpos, by omega⟩
      · obtain ⟨⟨hpos, _⟩, hfull⟩ := htrim.full hshed
        exact ⟨hpos, hfull⟩

theorem Laid.sync (hstep : s.step .sync = some s') : Relaid c₀ s .sync fates s' := by
  simp only [Sink.step] at hstep
  split at hstep
  next => cases hstep
  next hbatch =>
    have hout : s.out = [] := by unfold Sink.out; rw [hbatch]; rfl
    have hproduced := h.produced
    have hfates := h.fates_eq
    simp only [hout, List.append_nil, block_nil] at hproduced hfates
    simp only [Option.some.injEq] at hstep
    refine ⟨settled ++ block .dropped lost ++ block .outstanding s.queue.items, old ++ lost,
      settled ++ block .dropped lost, [], ?_, ?_⟩
    · unfold Moves
      show List.Forall₂ _ (fates ++ []) _
      rw [List.append_nil, hfates]
      exact List.rel_append (Becomes.same _ _) (forall₂_block .taken _)
    · rw [← hstep]
      refine ⟨?_, ?_, by simp [h.length], fun f hf => ?_, ?_, fun k => ?_, fun hpos => ?_,
        fun _ hnil => absurd rfl hnil⟩
      · show s.produced = old ++ lost ++ s.queue.items ++ [] ++ []
        rw [hproduced]
        simp
      · show _ = _ ++ block .outstanding s.queue.items ++ [] ++ []
        simp
      · rcases List.mem_append.mp hf with hf | hf
        · exact h.decided f hf
        · exact .inr (mem_block hf)
      · show s.delivered = _
        rw [pick_append _ _ _ _ _ h.length, pick_block, h.delivered]
        simp
      · show readCount s.counters k = _
        rw [h.reported k, List.count_append, count_block]
        rfl
      · show ((0 : Nat) : Int) ≤ s.queue.maxItems
        exact Int.le_of_lt hpos

theorem Laid.deliver (hstep : s.step .deliver = some s') : Relaid c₀ s .deliver fates s' := by
  simp only [Sink.step] at hstep
  split at hstep
  next => cases hstep
  next batch hbatch =>
    have hout : s.out = batch := by unfold Sink.out; rw [hbatch]; rfl
    have hproduced := h.produced
    have hfates := h.fates_eq
    rw [hout] at hproduced hfates
    simp only [Option.some.injEq] at hstep
    refine ⟨settled ++ block .delivered batch ++ block .dropped lost
      ++ block .queued s.queue.items, old ++ batch, settled ++ block .delivered batch, lost, ?_, ?_⟩
    · unfold Moves
      show List.Forall₂ _ (fates ++ []) _
      rw [List.append_nil, hfates]
      exact List.rel_append (List.rel_append (List.rel_append (Becomes.same _ _)
        (forall₂_block .delivers _)) (Becomes.same _ _)) (Becomes.same _ _)
    · rw [← hstep]
      refine ⟨?_, ?_, by simp [h.length], fun f hf => ?_, ?_, fun k => ?_, h.capped,
        fun hnil => absurd rfl hnil⟩
      · show s.produced = old ++ batch ++ [] ++ lost ++ s.queue.items
        rw [hproduced, List.append_nil]
      · show _ = settled ++ block .delivered batch ++ [] ++ block .dropped lost
          ++ block .queued s.queue.items
        rw [List.append_nil]
      · rcases List.mem_append.mp hf with hf | hf
        · exact h.decided f hf
        · exact .inl (mem_block hf)
      · show s.delivered ++ batch = _
        rw [pick_append _ _ _ _ _ h.length, pick_block, h.delivered]
        simp
      · show readCount s.counters k = _
        rw [h.reported k, List.count_append, count_block]
        rfl

/-- A batch that comes back meets no lost item, or is cut off whole. -/
theorem Laid.returns
    (htrim : Bounded.Trims { s.queue with items := s.out ++ s.queue.items } s.counters shed kept) :
    lost = [] ∨ (shed = s.out ∧ kept = s.queue.items) := by
  by_cases hlost : lost = []
  · exact .inl hlost
  · refine .inr (List.append_inj htrim.items ?_ |>.imp Eq.symm Eq.symm)
    have hlen := congrArg List.length htrim.items
    simp only [List.length_append] at hlen
    by_cases hout : s.out = []
    · -- nothing came back: the queue fits as it is
      by_cases hshed : shed = []
      · rw [hout, hshed]
      · obtain ⟨⟨hpos, hover⟩, _⟩ := htrim.full hshed
        have hcapped := h.capped hpos
        simp only [hout, List.nil_append] at hover
        omega
    · obtain ⟨hpos, hfull⟩ := h.full hout hlost
      have hcapped : (kept.length : Int) ≤ s.queue.maxItems := htrim.capped hpos
      have hshed : shed ≠ [] := by
        intro hshed
        have hne := List.length_pos_of_ne_nil hout
        rw [hshed, List.length_nil] at hlen
        omega
      have hkept : (kept.length : Int) = s.queue.maxItems := (htrim.full hshed).2
      omega

theorem Laid.abortSync_moves
    (htrim : Bounded.Trims { s.queue with items := s.out ++ s.queue.items } s.counters shed kept) :
    Moves s .abortSync fates
      (settled ++ block .dropped (shed ++ lost) ++ block .queued kept) := by
  show List.Forall₂ _ (fates ++ []) _
  rw [List.append_nil, h.fates_eq]
  rcases h.returns htrim with hlost | ⟨hshed, hkept⟩
  · subst hlost
    simp only [List.append_nil, block_nil, List.append_assoc]
    refine List.rel_append (Becomes.same _ _) (forall₂_of_mem ?_ ?_)
    · have hlen := congrArg List.length htrim.items
      simpa using hlen
    · intro f hf g hg
      rcases List.mem_append.mp hg with hg | hg
      · have hne : shed ≠ [] := fun hnil => by simp [hnil] at hg
        rw [mem_block hg]
        rcases List.mem_append.mp hf with hf | hf
        · rw [mem_block hf]
          exact .shedBatch (htrim.full hne).1
        · rw [mem_block hf]
          exact .shed _ (htrim.full hne).1
      · rw [mem_block hg]
        rcases List.mem_append.mp hf with hf | hf
        · rw [mem_block hf]
          exact .back
        · rw [mem_block hf]
          exact .stays _ _
  · rw [block_append, hshed, hkept]
    simp only [List.append_assoc]
    refine List.rel_append (Becomes.same _ _) (List.rel_append ?_ (Becomes.same _ _))
    by_cases hne : shed = []
    · rw [← hshed, hne]
      exact .nil
    · exact forall₂_block (.shedBatch (htrim.full hne).1) _

theorem Laid.abortSync (hstep : s.step .abortSync = some s') : Relaid c₀ s .abortSync fates s' := by
  simp only [Sink.step] at hstep
  split at hstep
  next => cases hstep
  next batch hbatch =>
    have hout : s.out = batch := by unfold Sink.out; rw [hbatch]; rfl
    obtain ⟨shed, kept, htrim⟩ :=
      Bounded.trimToCap_trims { s.queue with items := s.out ++ s.queue.items } s.counters
    have hs' : s' = { s with
        queue := { s.queue with items := kept }
        counters := (s.queue.abortSync batch s.counters).2
        batch := none } := by
      simp only [Option.some.injEq] at hstep
      rw [← hstep]
      simp only [Bounded.abortSync, ← hout, htrim.queue]
    have hitems : s.out ++ s.queue.items = shed ++ kept := htrim.items
    have hreported : ∀ k, readCount (s.queue.abortSync batch s.counters).2 k = readCount c₀ k
        + if k = s.queue.strategy then settled.count .dropped + (shed ++ lost).length else 0 := by
      intro k
      unfold Bounded.abortSync
      rw [← hout, htrim.counted k, h.reported k, List.length_append]
      show _ + _ + (if k = s.queue.strategy then _ else _)
        = _ + if k = s.queue.strategy then _ else _
      split
      · omega
      · rfl
    -- either way the layout is `shed`, then what was lost, then what is kept
    have hproduced : s.produced = old ++ (shed ++ lost) ++ kept := by
      rw [h.produced]
      rcases h.returns htrim with hlost | ⟨hshed, hkept⟩
      · subst hlost
        simp only [List.append_nil, List.append_assoc]
        rw [hitems]
      · rw [hshed, hkept]
        simp only [List.append_assoc]
    refine ⟨_, old, settled, shed ++ lost, h.abortSync_moves htrim, ?_⟩
    rw [hs']
    refine ⟨?_, ?_, h.length, h.decided, h.delivered, hreported, htrim.capped,
      fun hnil => absurd rfl hnil⟩
    · show s.produced = old ++ [] ++ (shed ++ lost) ++ kept
      rw [hproduced, List.append_nil]
    · show _ = settled ++ [] ++ block .dropped (shed ++ lost) ++ block .queued kept
      rw [List.append_nil]

end Layout

/-- **The account of the push queue.** In every run in which a batch taken by `Sync` is
delivered or given back before the next `Sync`, with appends anywhere, every appended
item has one fate at every point: queue, batch and deliveries are the items of their
fate in production order, the queue respects its cap, the losses reported under the
queue's strategy are the dropped items and nothing else is counted, an item is dropped
only by a call that exceeds the cap, and never while an older one is kept. -/
theorem pushQueue_accounts {T : Type} (strategy : String) (maxItems : Int) (c₀ : DropCounters)
    (calls : List (Call T)) :
    Traced Sink.step (Account c₀) Moves (Sink.start strategy maxItems c₀) [] calls := by
  refine Traced.of_step
    (J := fun s fates => ∃ old settled lost, Laid c₀ s fates old settled lost) ?_ ?_ calls _ _ ?_
  · rintro s fates ⟨old, settled, lost, h⟩
    exact h.account
  · rintro s a s' fates ⟨old, settled, lost, h⟩ hstep
    have hrelaid : Relaid c₀ s a fates s' := by
      cases a with
      | append newItems => exact h.append newItems hstep
      | sync => exact h.sync hstep
      | deliver => exact h.deliver hstep
      | abortSync => exact h.abortSync hstep
    obtain ⟨fates', old', settled', lost', hmoves, h'⟩ := hrelaid
    exact ⟨fates', hmoves, old', settled', lost', h'⟩
  · exact ⟨[], [], [], Laid.start strategy maxItems c₀⟩

end SenhubAgent.DataStore

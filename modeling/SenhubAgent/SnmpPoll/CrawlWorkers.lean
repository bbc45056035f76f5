import SenhubAgent.SnmpPoll.Crawl

/-!
# The crawl with workers

`crawlWithWorkers` takes the next addresses off the queue in batches, polls a batch at once and
reads the answers in the order of the batch. It marks the whole batch visited before the first
answer is read, so it leaves out neighbours that `crawl` would have queued: those that are polled
later in the same batch. `crawl` skips these when their turn comes, and a queue is as good as
another that differs in visited addresses only (`crawlLoop_congr`). A batch is never larger than
the budget left, so the sequential crawl polls all of it too. Hence the two agree
(`crawlWithWorkers_eq`).

The goroutines of a batch write to places of their own; what a poll returns depends on the
address only, so `polled` has a batch in the order of the queue.
-/

namespace SenhubAgent.SnmpPoll

/-- A batch, the queue behind it and the addresses visited by then. -/
structure Batch where
  items : List Item
  queue : List Item
  visitedIP : List String

/-- The loop that fills a batch of at most `room` items. -/
def takeBatch (room : Nat) (queue : List Item) (visitedIP : List String) : Batch :=
  match room, queue with
  | 0, queue => ⟨[], queue, visitedIP⟩
  | _ + 1, [] => ⟨[], [], visitedIP⟩
  | room + 1, it :: queue =>
    if it.ip ∈ visitedIP then takeBatch (room + 1) queue visitedIP
    else
      let t := takeBatch room queue (visitedIP ++ [it.ip])
      { t with items := it :: t.items }

theorem length_takeBatch (room : Nat) (queue : List Item) (visitedIP : List String) :
    (takeBatch room queue visitedIP).items.length + (takeBatch room queue visitedIP).queue.length
      ≤ queue.length := by
  fun_induction takeBatch room queue visitedIP with
  | case1 => exact Nat.le_of_eq (Nat.zero_add _)
  | case2 => exact Nat.le_refl _
  | case3 _ _ _ _ _ ih => exact Nat.le_succ_of_le ih
  | case4 _ _ _ _ _ t ih =>
    have ih : t.items.length + t.queue.length ≤ _ := ih
    simp only [List.length_cons]
    omega

/-- An empty batch is left only by an empty queue. -/
theorem takeBatch_nil {room : Nat} (hroom : 0 < room) {queue : List Item} {visitedIP : List String}
    (h : (takeBatch room queue visitedIP).items = []) :
    takeBatch room queue visitedIP = ⟨[], [], visitedIP⟩ := by
  fun_induction takeBatch room queue visitedIP with
  | case1 => cases hroom
  | case2 => rfl
  | case3 _ _ _ _ _ ih => exact ih hroom h
  | case4 => cases h

section

variable {net : Addressing} (b : CrawlBounds net) (poll : CrawlPoller)

/-- The answers of a batch, read in its order. -/
def Crawled.answerAll (s : Crawled) : List Item → Crawled × List Item
  | [] => (s, [])
  | it :: batch =>
    let r := s.answer b it (poll it.ip).1 (poll it.ip).2
    let rest := r.1.answerAll batch
    (rest.1, r.2 ++ rest.2)

theorem length_out_answerAll (s : Crawled) (batch : List Item) :
    s.out.length < (s.answerAll b poll batch).1.out.length ∨
      (s.answerAll b poll batch).1 = s ∧ (s.answerAll b poll batch).2 = [] := by
  induction batch generalizing s with
  | nil => exact .inr ⟨rfl, rfl⟩
  | cons it batch ih =>
    have hhead := length_out_answer b s it (poll it.ip).1 (poll it.ip).2
    have hrest := ih (s.answer b it (poll it.ip).1 (poll it.ip).2).1
    unfold Crawled.answerAll
    rcases hhead with hmore | ⟨hsame, hnone⟩
    · rcases hrest with hmore' | ⟨hsame', -⟩
      · exact .inl (Nat.lt_trans hmore hmore')
      · left
        rw [hsame']
        exact hmore
    · rw [hsame] at hrest
      dsimp only
      rw [hsame, hnone, List.nil_append]
      exact hrest

/-- A batch is marked and polled. -/
def Crawled.visitBatch (s : Crawled) (t : Batch) : Crawled :=
  { s with visitedIP := t.visitedIP, polled := s.polled ++ t.items.map Item.ip }

/-- The next batch: no larger than the budget left. -/
def nextBatch (workers : Nat) (queue : List Item) (s : Crawled) : Batch :=
  let remaining := b.maxDevices - s.out.length
  let batchSize := if remaining < workers then remaining else workers
  takeBatch batchSize queue s.visitedIP

/-- The loop of `crawlWithWorkers`. -/
def crawlWithWorkersLoop (workers : Nat) (queue : List Item) (s : Crawled) : Crawled :=
  if queue ≠ [] ∧ s.out.length < b.maxDevices then
    if (nextBatch b workers queue s).items = [] then s
    else
      let t := nextBatch b workers queue s
      let r := (s.visitBatch t).answerAll b poll t.items
      crawlWithWorkersLoop workers (t.queue ++ r.2) r.1
  else s
  termination_by (b.maxDevices - s.out.length, queue.length)
  decreasing_by
    rename_i hloop hbatch
    have hlength : (nextBatch b workers queue s).items.length
        + (nextBatch b workers queue s).queue.length ≤ queue.length := length_takeBatch _ _ _
    have hpos := List.length_pos_iff.mpr hbatch
    rcases length_out_answerAll b poll (s.visitBatch (nextBatch b workers queue s))
      (nextBatch b workers queue s).items with hmore | ⟨hsame, hnone⟩
    · left
      have hout : (s.visitBatch (nextBatch b workers queue s)).out = s.out := rfl
      rw [hout] at hmore
      omega
    · rw [hsame, hnone, List.append_nil]
      right
      omega

def crawlWithWorkers (workers : Int) (seeds : List String) : List DiscoveredDevice × List String :=
  let workers := if workers ≤ 0 then 1 else workers.toNat
  let s := crawlWithWorkersLoop b poll workers (seedItems seeds) .start
  (s.out, s.polled)

/-! ## Queues that differ in visited addresses -/

/-- The items that will be polled when their turn comes, but for what is visited until then. -/
def pending (visitedIP : List String) (queue : List Item) : List Item :=
  queue.filter fun it => it.ip ∉ visitedIP

theorem pending_append (visitedIP : List String) (queue queue' : List Item) :
    pending visitedIP (queue ++ queue') = pending visitedIP queue ++ pending visitedIP queue' :=
  List.filter_append ..

theorem pending_of_subset {visitedIP visitedIP' : List String} (h : visitedIP ⊆ visitedIP')
    (queue : List Item) : pending visitedIP' (pending visitedIP queue) = pending visitedIP' queue := by
  unfold pending
  rw [List.filter_filter]
  refine List.filter_congr fun it _ => ?_
  by_cases hit : it.ip ∈ visitedIP
  · simp [hit, h hit]
  · simp [hit]

theorem visitedIP_answer (s : Crawled) (it : Item) (deviceID : String) (nips : List String) :
    (s.answer b it deviceID nips).1.visitedIP = s.visitedIP := by
  unfold Crawled.answer
  split
  next => rfl
  next => split <;> rfl

variable {s : Crawled} {it : Item}

theorem crawlLoop_full (queue : List Item) (h : b.maxDevices ≤ s.out.length) :
    crawlLoop b poll queue s = s := by
  cases queue with
  | nil => rw [crawlLoop]
  | cons it queue => rw [crawlLoop, if_neg (Nat.not_lt.mpr h)]

theorem crawlLoop_skip (queue : List Item) (h : it.ip ∈ s.visitedIP) :
    crawlLoop b poll (it :: queue) s = crawlLoop b poll queue s := by
  rw [crawlLoop]
  split
  next => rfl
  next hfull => exact (crawlLoop_full b poll queue (Nat.le_of_not_lt hfull)).symm

theorem crawlLoop_poll (queue : List Item) (h : it.ip ∉ s.visitedIP)
    (hroom : s.out.length < b.maxDevices) :
    crawlLoop b poll (it :: queue) s
      = crawlLoop b poll (queue ++ ((s.visit it.ip).answer b it (poll it.ip).1 (poll it.ip).2).2)
        ((s.visit it.ip).answer b it (poll it.ip).1 (poll it.ip).2).1 := by
  rw [crawlLoop, if_pos hroom, if_neg h]

/-- **A crawl depends on the pending items of its queue only.** -/
theorem crawlLoop_pending (queue : List Item) (s : Crawled) :
    crawlLoop b poll queue s = crawlLoop b poll (pending s.visitedIP queue) s := by
  match queue with
  | [] => rfl
  | it :: queue =>
    by_cases hit : it.ip ∈ s.visitedIP
    · have hrest : pending s.visitedIP (it :: queue) = pending s.visitedIP queue :=
        List.filter_cons_of_neg (by simpa using hit)
      rw [crawlLoop_skip b poll queue hit, hrest]
      exact crawlLoop_pending queue s
    · have hrest : pending s.visitedIP (it :: queue) = it :: pending s.visitedIP queue :=
        List.filter_cons_of_pos (by simpa using hit)
      rw [hrest]
      by_cases hroom : s.out.length < b.maxDevices
      · rw [crawlLoop_poll b poll _ hit hroom, crawlLoop_poll b poll _ hit hroom]
        -- both queues have the same pending items once the head is visited
        have hsub : s.visitedIP ⊆
            ((s.visit it.ip).answer b it (poll it.ip).1 (poll it.ip).2).1.visitedIP := by
          rw [visitedIP_answer]
          exact List.subset_append_left _ _
        rw [crawlLoop_pending (queue ++ _), crawlLoop_pending (pending s.visitedIP queue ++ _),
          pending_append, pending_append, pending_of_subset hsub]
      · rw [crawlLoop_full b poll _ (Nat.le_of_not_lt hroom),
          crawlLoop_full b poll _ (Nat.le_of_not_lt hroom)]
  termination_by (b.maxDevices - s.out.length, queue.length)
  decreasing_by
    · right
      exact Nat.lt_succ_self _
    · exact poll_decreases b poll s it (Nat.le_refl _) hroom
    · exact poll_decreases b poll s it (List.length_filter_le _ _) hroom

theorem crawlLoop_congr {queue queue' : List Item}
    (h : pending s.visitedIP queue = pending s.visitedIP queue') :
    crawlLoop b poll queue s = crawlLoop b poll queue' s := by
  rw [crawlLoop_pending, h, ← crawlLoop_pending]

/-! ## A batch in the sequential crawl -/

theorem subset_takeBatch (room : Nat) (queue : List Item) (visitedIP : List String) :
    visitedIP ⊆ (takeBatch room queue visitedIP).visitedIP := by
  fun_induction takeBatch room queue visitedIP with
  | case1 => exact List.Subset.refl _
  | case2 => exact List.Subset.refl _
  | case3 _ _ _ _ _ ih => exact ih
  | case4 =>
    rename_i hrest
    exact fun a ha => hrest (List.mem_append_left _ ha)

theorem visitedIP_answerAll (s : Crawled) (batch : List Item) :
    (s.answerAll b poll batch).1.visitedIP = s.visitedIP := by
  induction batch generalizing s with
  | nil => rfl
  | cons it batch ih =>
    rw [Crawled.answerAll, ih]
    exact visitedIP_answer b s it _ _

theorem length_out_answer_le (s : Crawled) (it : Item) (deviceID : String) (nips : List String) :
    (s.answer b it deviceID nips).1.out.length ≤ s.out.length + 1 := by
  unfold Crawled.answer
  split
  next => exact Nat.le_succ _
  next =>
    split
    next => exact Nat.le_succ _
    next => exact Nat.le_of_eq List.length_append

/-- An answer that is read with the whole batch marked: the state is the same, and the items
are those of them that the batch does not hold. -/
theorem answer_visitBatch (s : Crawled) (it : Item) (deviceID : String) (nips : List String)
    {t : Batch} (h : s.visitedIP ++ [it.ip] ⊆ t.visitedIP) :
    (s.visitBatch { t with items := it :: t.items }).answer b it deviceID nips
      = (((s.visit it.ip).answer b it deviceID nips).1.visitBatch t,
        pending t.visitedIP ((s.visit it.ip).answer b it deviceID nips).2) := by
  have hpolled : s.polled ++ (it :: t.items).map Item.ip
      = s.polled ++ [it.ip] ++ t.items.map Item.ip := by
    rw [List.append_assoc, List.map_cons, List.singleton_append]
  have hbatch : s.visitBatch { t with items := it :: t.items } = (s.visit it.ip).visitBatch t :=
    congrArg (fun polled => { s with visitedIP := t.visitedIP, polled := polled }) hpolled
  rw [hbatch]
  by_cases hid : deviceID = ""
  · rw [Crawled.answer, Crawled.answer, if_pos hid, if_pos hid]
    rfl
  · by_cases hseen : deviceID ∈ (s.visit it.ip).seenDev
    · have hseen' : deviceID ∈ ((s.visit it.ip).visitBatch t).seenDev := hseen
      rw [Crawled.answer, Crawled.answer, if_neg hid, if_neg hid, if_pos hseen, if_pos hseen']
      rfl
    · have hseen' : deviceID ∉ ((s.visit it.ip).visitBatch t).seenDev := hseen
      rw [Crawled.answer, Crawled.answer, if_neg hid, if_neg hid, if_neg hseen, if_neg hseen']
      refine congrArg₂ Prod.mk rfl ?_
      split
      next => rfl
      next =>
        unfold pending
        rw [List.filter_map, List.filter_filter]
        refine congrArg _ (List.filter_congr fun nip _ => ?_)
        by_cases hnip : nip ∈ t.visitedIP
        · simp [Crawled.visitBatch, hnip]
        · have hnot : nip ∉ (s.visit it.ip).visitedIP := fun hmem => hnip (h hmem)
          simp [Crawled.visitBatch, hnip, hnot]

theorem visitBatch_nil (s : Crawled) (queue : List Item) :
    s.visitBatch ⟨[], queue, s.visitedIP⟩ = s := by
  unfold Crawled.visitBatch
  rw [List.map_nil, List.append_nil]

/-- **A batch, one by one.** The sequential crawl polls the items of a batch the budget has room
for, and goes on with a queue that is as good as the workers'. -/
theorem crawlLoop_batch (room : Nat) (queue later : List Item) (s : Crawled)
    (hroom : room ≤ b.maxDevices - s.out.length) :
    let t := takeBatch room queue s.visitedIP
    let r := (s.visitBatch t).answerAll b poll t.items
    crawlLoop b poll (queue ++ later) s = crawlLoop b poll (t.queue ++ later ++ r.2) r.1 := by
  induction queue generalizing room later s with
  | nil =>
    intro t r
    have ht : t = ⟨[], [], s.visitedIP⟩ := by
      show takeBatch room [] _ = _
      cases room <;> rfl
    have hr : r = (s, []) := by
      show (s.visitBatch t).answerAll b poll t.items = _
      rw [ht, visitBatch_nil, Crawled.answerAll]
    rw [hr, ht, List.append_nil]
  | cons it queue ih =>
    cases room with
    | zero =>
      intro t r
      have hr : r = (s, []) := by
        show (s.visitBatch ⟨[], _, s.visitedIP⟩).answerAll b poll [] = _
        rw [visitBatch_nil, Crawled.answerAll]
      rw [hr, List.append_nil]
      rfl
    | succ room =>
      by_cases hit : it.ip ∈ s.visitedIP
      · rw [takeBatch, if_pos hit, List.cons_append, crawlLoop_skip b poll _ hit]
        exact ih (room + 1) later s hroom
      · have hout : s.out.length < b.maxDevices := by omega
        have hle := length_out_answer_le b (s.visit it.ip) it (poll it.ip).1 (poll it.ip).2
        have hvisited : _ = s.visitedIP ++ [it.ip] :=
          visitedIP_answer b (s.visit it.ip) it (poll it.ip).1 (poll it.ip).2
        have hbatch := answer_visitBatch b s it (poll it.ip).1 (poll it.ip).2
          (subset_takeBatch room queue (s.visitedIP ++ [it.ip]))
        rw [takeBatch, if_neg hit, List.cons_append, crawlLoop_poll b poll _ hit hout,
          List.append_assoc]
        generalize (s.visit it.ip).answer b it (poll it.ip).1 (poll it.ip).2 = r at *
        have hroom' : room ≤ b.maxDevices - r.1.out.length := by
          have hle : r.1.out.length ≤ s.out.length + 1 := hle
          omega
        have hstep := ih room (later ++ r.2) r.1 hroom'
        rw [hvisited] at hstep
        dsimp only at hstep ⊢
        rw [Crawled.answerAll, hbatch]
        refine hstep.trans (crawlLoop_congr b poll ?_)
        rw [visitedIP_answerAll]
        generalize takeBatch room queue (s.visitedIP ++ [it.ip]) = t
        show pending t.visitedIP _ = pending t.visitedIP _
        simp only [pending_append, List.append_assoc, pending_of_subset (List.Subset.refl _)]

/-- A batch that is taken off the queue, in the sequential crawl. -/
theorem crawlLoop_nextBatch (workers : Nat) (queue : List Item) (s : Crawled) :
    let t := nextBatch b workers queue s
    let r := (s.visitBatch t).answerAll b poll t.items
    crawlLoop b poll queue s = crawlLoop b poll (t.queue ++ r.2) r.1 := by
  have hsize : (if b.maxDevices - s.out.length < workers then b.maxDevices - s.out.length
      else workers) ≤ b.maxDevices - s.out.length := by
    split <;> omega
  have hstep := crawlLoop_batch b poll _ queue [] s hsize
  rw [List.append_nil] at hstep
  dsimp only at hstep
  rw [List.append_nil] at hstep
  exact hstep

theorem crawlWithWorkersLoop_eq {workers : Nat} (hworkers : 0 < workers) (queue : List Item)
    (s : Crawled) : crawlWithWorkersLoop b poll workers queue s = crawlLoop b poll queue s := by
  fun_induction crawlWithWorkersLoop b poll workers queue s with
  | case1 queue s hloop hbatch =>
    have hsize : 0 < if b.maxDevices - s.out.length < workers then b.maxDevices - s.out.length
        else workers := by
      split <;> omega
    have ht : nextBatch b workers queue s = ⟨[], [], s.visitedIP⟩ := takeBatch_nil hsize hbatch
    rw [crawlLoop_nextBatch, ht, visitBatch_nil, Crawled.answerAll, List.append_nil, crawlLoop]
  | case2 queue s hloop hbatch t r ih => rw [ih, ← crawlLoop_nextBatch]
  | case3 queue s hloop =>
    by_cases hqueue : queue = []
    · rw [hqueue, crawlLoop]
    · exact (crawlLoop_full b poll queue (Nat.le_of_not_lt fun h => hloop ⟨hqueue, h⟩)).symm

/-- **The two crawls agree**: the same devices in the same order, with the same addresses and
hops, and the same polls. -/
theorem crawlWithWorkers_eq (workers : Int) (seeds : List String) :
    crawlWithWorkers b poll workers seeds = crawl b poll seeds := by
  have hworkers : 0 < if workers ≤ 0 then 1 else workers.toNat := by
    split <;> omega
  unfold crawlWithWorkers crawl
  dsimp only
  rw [crawlWithWorkersLoop_eq b poll hworkers]

end

end SenhubAgent.SnmpPoll

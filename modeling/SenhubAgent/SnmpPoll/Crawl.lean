import Mathlib.Order.Bounds.Basic

/-!
# The discovery crawl

`crawl` polls the seeds and follows the neighbours of every device it finds, breadth first. Two
sets cut it off: an address is polled once, and a device that answers at a second address is not
expanded again. `crawl_reaches` is what this comes to: the devices are those within `maxHops` of
the seeds, each with its shortest distance, unless `maxDevices` ends the crawl before.

The order of the queue carries the proof. Its hops never decrease, so whatever is still to be
reached at `n` hops has an item of at most `n` hops in the queue (`Inv.covered`), and the item at
the head is the nearest one.

The bounds are naturals: the configuration refuses values below one. `net.ParseIP` and
`IPNet.Contains` are parameters, of which nothing is assumed.
-/

namespace SenhubAgent.SnmpPoll

structure DiscoveredDevice where
  id : String
  mgmtIP : String
  hop : Nat
  deriving DecidableEq, Repr

/-- What a poll of an address returns: the device's id, empty where nothing answers, and the
addresses of its neighbours. -/
abbrev CrawlPoller := String → String × List String

/-- `net.ParseIP` and `IPNet.Contains`. -/
structure Addressing where
  IP : Type
  IPNet : Type
  parseIP : String → Option IP
  contains : IPNet → IP → Bool

structure CrawlBounds (net : Addressing) where
  maxDevices : Nat
  maxHops : Nat
  allowed : List (Option net.IPNet)

def inAllowedCIDR (net : Addressing) (ip : String) (allowed : List (Option net.IPNet)) : Bool :=
  match net.parseIP ip with
  | none => false
  | some parsed => allowed.any fun n =>
    match n with
    | none => false
    | some n => net.contains n parsed

structure Item where
  ip : String
  hop : Nat
  deriving DecidableEq, Repr

/-- The variables of the loop but for the queue, and the addresses polled so far. -/
structure Crawled where
  visitedIP : List String
  seenDev : List String
  out : List DiscoveredDevice
  polled : List String
  deriving DecidableEq, Repr

def Crawled.start : Crawled := ⟨[], [], [], []⟩

/-- `visitedIP[ip] = true` and the call of `poll`. -/
def Crawled.visit (s : Crawled) (ip : String) : Crawled :=
  { s with visitedIP := s.visitedIP ++ [ip], polled := s.polled ++ [ip] }

section

variable {net : Addressing} (b : CrawlBounds net) (poll : CrawlPoller)

/-- What is done with the answer to a poll: the new state and the items for the queue. -/
def Crawled.answer (s : Crawled) (it : Item) (deviceID : String) (neighborIPs : List String) :
    Crawled × List Item :=
  if deviceID = "" then (s, [])
  else if deviceID ∈ s.seenDev then (s, [])
  else
    ({ s with
        seenDev := s.seenDev ++ [deviceID]
        out := s.out ++ [⟨deviceID, it.ip, it.hop⟩] },
      if it.hop ≥ b.maxHops then []
      else (neighborIPs.filter fun nip =>
        nip ≠ "" && nip ∉ s.visitedIP && inAllowedCIDR net nip b.allowed).map fun nip =>
          ⟨nip, it.hop + 1⟩)

theorem length_out_answer (s : Crawled) (it : Item) (deviceID : String) (nips : List String) :
    s.out.length < (s.answer b it deviceID nips).1.out.length ∨
      (s.answer b it deviceID nips).1 = s ∧ (s.answer b it deviceID nips).2 = [] := by
  unfold Crawled.answer
  split
  next => exact .inr ⟨rfl, rfl⟩
  next =>
    split
    next => exact .inr ⟨rfl, rfl⟩
    next =>
      left
      simp only [List.length_append, List.length_singleton]
      omega

/-- What a poll at the head leaves to do, in the order the loop's measure has it. -/
theorem poll_decreases (s : Crawled) (it : Item) {queue queue' : List Item}
    (hlength : queue'.length ≤ queue.length) (hroom : s.out.length < b.maxDevices) :
    let r := (s.visit it.ip).answer b it (poll it.ip).1 (poll it.ip).2
    Prod.Lex (· < ·) (· < ·) (b.maxDevices - r.1.out.length, (queue' ++ r.2).length)
      (b.maxDevices - s.out.length, (it :: queue).length) := by
  intro r
  rcases length_out_answer b (s.visit it.ip) it (poll it.ip).1 (poll it.ip).2 with
    hmore | ⟨hsame, hnone⟩
  · left
    have hmore : s.out.length < r.1.out.length := hmore
    omega
  · rw [show r.1 = s.visit it.ip from hsame, show r.2 = [] from hnone, List.append_nil]
    right
    exact Nat.lt_succ_of_le hlength

/-- The loop of `crawl`. A poll that finds a device uses up the budget, any other shortens the
queue. -/
def crawlLoop (queue : List Item) (s : Crawled) : Crawled :=
  match queue with
  | [] => s
  | it :: queue =>
    if s.out.length < b.maxDevices then
      if it.ip ∈ s.visitedIP then crawlLoop queue s
      else
        let r := (s.visit it.ip).answer b it (poll it.ip).1 (poll it.ip).2
        crawlLoop (queue ++ r.2) r.1
    else s
  termination_by (b.maxDevices - s.out.length, queue.length)
  decreasing_by
    · right
      exact Nat.lt_succ_self _
    · rename_i hroom _
      exact poll_decreases b poll s it (Nat.le_refl _) hroom

/-- The queue a crawl begins with. -/
def seedItems (seeds : List String) : List Item := seeds.map fun s => ⟨s, 0⟩

/-- The devices, and the addresses polled on the way. -/
def crawl (seeds : List String) : List DiscoveredDevice × List String :=
  let s := crawlLoop b poll (seedItems seeds) .start
  (s.out, s.polled)

/-! ## Distance from the seeds -/

/-- The neighbours of an address that may be followed. -/
def follows (a : String) : List String :=
  (poll a).2.filter fun nip => nip ≠ "" && inAllowedCIDR net nip b.allowed

/-- An address that `n` hops lead to: from a seed, by way of devices that answer. -/
inductive Hops (seeds : List String) : Nat → String → Prop
  | seed {a : String} (h : a ∈ seeds) : Hops seeds 0 a
  | next {n : Nat} {a a' : String} (h : Hops seeds n a) (hanswer : (poll a).1 ≠ "")
      (hmem : a' ∈ follows b poll a) : Hops seeds (n + 1) a'

variable {b poll} in
variable {n : Nat} {a : String}

theorem Hops.allowed {seeds : List String} (h : Hops b poll seeds n a) :
    a ∈ seeds ∨ inAllowedCIDR net a b.allowed = true := by
  cases h with
  | seed ha => exact .inl ha
  | next _ _ hmem => exact .inr (Bool.and_eq_true_iff.mp (List.mem_filter.mp hmem).2).2

/-- The distances at which a device is reached. -/
def distances (seeds : List String) (id : String) : Set Nat :=
  {n | ∃ a, Hops b poll seeds n a ∧ (poll a).1 = id}

/-- The neighbours an address names are those of the device that answers there. -/
def OfDevice : Prop :=
  ∀ a a', (poll a).1 = (poll a').1 → (poll a).1 ≠ "" → (poll a).2 = (poll a').2

variable {poll} in
theorem OfDevice.follows_eq (h : OfDevice poll) {a' : String} (hid : (poll a).1 = (poll a').1)
    (hne : (poll a).1 ≠ "") : follows b poll a = follows b poll a' := by
  unfold follows
  rw [h a a' hid hne]

/-! ## The invariant -/

/-- What holds each time the loop is entered with a queue. -/
structure Inv (seeds : List String) (queue : List Item) (s : Crawled) : Prop where
  sound : ∀ it ∈ queue, Hops b poll seeds it.hop it.ip ∧ it.hop ≤ b.maxHops
  sorted : queue.Pairwise fun it it' => it.hop ≤ it'.hop
  /-- the queue spans two levels -/
  level : ∀ it ∈ queue, ∀ it' ∈ queue, it'.hop ≤ it.hop + 1
  behind : ∀ d ∈ s.out, ∀ it ∈ queue, d.hop ≤ it.hop
  seeded : ∀ a ∈ seeds, a ∈ s.visitedIP ∨ ⟨a, 0⟩ ∈ queue
  expanded : ∀ d ∈ s.out, d.hop < b.maxHops → ∀ a ∈ follows b poll d.mgmtIP,
    a ∈ s.visitedIP ∨ ⟨a, d.hop + 1⟩ ∈ queue
  answered : ∀ a ∈ s.visitedIP, (poll a).1 ≠ "" → ∀ n ≤ b.maxHops, Hops b poll seeds n a →
    ∃ d ∈ s.out, d.id = (poll a).1 ∧ d.hop ≤ n
  device : ∀ d ∈ s.out, d.id = (poll d.mgmtIP).1 ∧ Hops b poll seeds d.hop d.mgmtIP ∧
    d.hop ≤ b.maxHops
  nearest : ∀ d ∈ s.out, ∀ n ∈ distances b poll seeds d.id, d.hop ≤ n
  ids : s.out.map DiscoveredDevice.id = s.seenDev
  nodup : s.seenDev.Nodup
  count : s.out.length ≤ b.maxDevices
  polled : ∀ a ∈ s.polled, a ∈ seeds ∨ inAllowedCIDR net a b.allowed = true

variable {b poll} {seeds : List String} {queue : List Item} {s : Crawled} {it : Item}

theorem Inv.start : Inv b poll seeds (seedItems seeds) .start := by
  have hzero : ∀ it ∈ seedItems seeds, it.hop = 0 ∧ it.ip ∈ seeds := by
    intro it hit
    obtain ⟨a, ha, rfl⟩ := List.mem_map.mp hit
    exact ⟨rfl, ha⟩
  exact
    { sound := fun it hit => by
        rw [(hzero it hit).1]
        exact ⟨.seed (hzero it hit).2, Nat.zero_le _⟩
      sorted := List.pairwise_of_forall_mem_list fun it hit it' _ => by
        rw [(hzero it hit).1]
        exact Nat.zero_le _
      level := fun it _ it' hit' => by
        rw [(hzero it' hit').1]
        exact Nat.zero_le _
      behind := nofun
      seeded := fun a ha => .inr (List.mem_map.mpr ⟨a, ha, rfl⟩)
      expanded := nofun
      answered := nofun
      device := nofun
      nearest := nofun
      ids := rfl
      nodup := List.nodup_nil
      count := Nat.zero_le _
      polled := nofun }

/-- An item whose address is visited is no longer needed. -/
theorem Inv.drop (h : Inv b poll seeds (it :: queue) s) (hit : it.ip ∈ s.visitedIP) :
    Inv b poll seeds queue s := by
  have hkept : ∀ {a n}, a ∈ s.visitedIP ∨ ⟨a, n⟩ ∈ it :: queue → a ∈ s.visitedIP ∨ ⟨a, n⟩ ∈ queue := by
    rintro a n (hvisited | hmem)
    · exact .inl hvisited
    · rcases List.mem_cons.mp hmem with rfl | hmem
      · exact .inl hit
      · exact .inr hmem
  exact
    { h with
      sound := fun it' hit' => h.sound it' (List.mem_cons_of_mem _ hit')
      sorted := (List.pairwise_cons.mp h.sorted).2
      level := fun i hi i' hi' => h.level i (List.mem_cons_of_mem _ hi) i' (List.mem_cons_of_mem _ hi')
      behind := fun d hd i hi => h.behind d hd i (List.mem_cons_of_mem _ hi)
      seeded := fun a ha => hkept (h.seeded a ha)
      expanded := fun d hd hhop a ha => hkept (h.expanded d hd hhop a ha) }

/-- What `n` hops lead to is visited, or something at most as far waits in the queue. -/
theorem Inv.covered (hdev : OfDevice poll) (h : Inv b poll seeds queue s)
    (hops : Hops b poll seeds n a) (hn : n ≤ b.maxHops) :
    a ∈ s.visitedIP ∨ ∃ it ∈ queue, it.hop ≤ n ∧ it.ip ∉ s.visitedIP := by
  have hpending : ∀ {a k}, a ∈ s.visitedIP ∨ ⟨a, k⟩ ∈ queue →
      a ∈ s.visitedIP ∨ ∃ it ∈ queue, it.hop ≤ k ∧ it.ip ∉ s.visitedIP := by
    intro a k hcases
    by_cases hvisited : a ∈ s.visitedIP
    · exact .inl hvisited
    · exact .inr ⟨⟨a, k⟩, hcases.resolve_left hvisited, Nat.le_refl k, hvisited⟩
  -- along the path: the device before was found on the way here, so it was expanded
  induction hops with
  | seed ha => exact hpending (h.seeded _ ha)
  | @next n a a' hops hanswer hmem ih =>
    have hn' : n ≤ b.maxHops := Nat.le_of_succ_le hn
    rcases ih hn' with hvisited | ⟨it, hit, hhop, hnew⟩
    · obtain ⟨d, hd, hid, hdhop⟩ := h.answered a hvisited hanswer n hn' hops
      have hsame : follows b poll a = follows b poll d.mgmtIP :=
        hdev.follows_eq b (hid.symm.trans (h.device d hd).1) hanswer
      have hexpanded := h.expanded d hd (Nat.lt_of_le_of_lt hdhop hn) a' (hsame ▸ hmem)
      rcases hpending hexpanded with hvisited' | ⟨it, hit, hhop, hnew⟩
      · exact .inl hvisited'
      · exact .inr ⟨it, hit, Nat.le_trans hhop (Nat.succ_le_succ hdhop), hnew⟩
    · exact .inr ⟨it, hit, Nat.le_succ_of_le hhop, hnew⟩

/-- The head of the queue is as near as anything that is not visited. -/
theorem Inv.head_le (hdev : OfDevice poll) (h : Inv b poll seeds (it :: queue) s)
    (hops : Hops b poll seeds n a) (hn : n ≤ b.maxHops) (ha : a ∉ s.visitedIP) : it.hop ≤ n := by
  obtain ⟨it', hit', hhop, -⟩ := (h.covered hdev hops hn).resolve_left ha
  rcases List.mem_cons.mp hit' with rfl | hit'
  · exact hhop
  · exact Nat.le_trans ((List.pairwise_cons.mp h.sorted).1 it' hit') hhop

/-- The head's address is polled and says nothing new. -/
theorem Inv.visit (hdev : OfDevice poll) (h : Inv b poll seeds (it :: queue) s)
    (hit : it.ip ∉ s.visitedIP) (hseen : (poll it.ip).1 = "" ∨ (poll it.ip).1 ∈ s.seenDev) :
    Inv b poll seeds (it :: queue) (s.visit it.ip) := by
  have hhead := h.sound it List.mem_cons_self
  exact
    { h with
      seeded := fun a ha => (h.seeded a ha).imp_left (List.mem_append_left _)
      expanded := fun d hd hhop a ha => (h.expanded d hd hhop a ha).imp_left (List.mem_append_left _)
      answered := by
        intro a ha hanswer n hn hops
        rcases List.mem_append.mp ha with ha | ha
        · exact h.answered a ha hanswer n hn hops
        · obtain rfl : a = it.ip := List.mem_singleton.mp ha
          have hmem := hseen.resolve_left hanswer
          rw [← h.ids] at hmem
          obtain ⟨d, hd, hid⟩ := List.mem_map.mp hmem
          exact ⟨d, hd, hid, Nat.le_trans (h.behind d hd it List.mem_cons_self)
            (h.head_le hdev hops hn hit)⟩
      polled := by
        intro a ha
        rcases List.mem_append.mp ha with ha | ha
        · exact h.polled a ha
        · rw [List.mem_singleton.mp ha]
          exact hhead.1.allowed }

/-- The items of a device that is found at the head of the queue. -/
def newItems (b : CrawlBounds net) (poll : CrawlPoller) (s : Crawled) (it : Item) : List Item :=
  if it.hop ≥ b.maxHops then []
  else ((follows b poll it.ip).filter fun nip => nip ∉ (s.visit it.ip).visitedIP).map fun nip =>
    ⟨nip, it.hop + 1⟩

def Crawled.found (s : Crawled) (it : Item) (deviceID : String) : Crawled :=
  { s.visit it.ip with
    seenDev := s.seenDev ++ [deviceID]
    out := s.out ++ [⟨deviceID, it.ip, it.hop⟩] }

theorem answer_known (hseen : (poll it.ip).1 = "" ∨ (poll it.ip).1 ∈ s.seenDev) :
    (s.visit it.ip).answer b it (poll it.ip).1 (poll it.ip).2 = (s.visit it.ip, []) := by
  unfold Crawled.answer
  split
  next => rfl
  next hne => exact if_pos (hseen.resolve_left hne)

theorem answer_found (hne : (poll it.ip).1 ≠ "") (hnew : (poll it.ip).1 ∉ s.seenDev) :
    (s.visit it.ip).answer b it (poll it.ip).1 (poll it.ip).2
      = (s.found it (poll it.ip).1, newItems b poll s it) := by
  have hitems : (poll it.ip).2.filter (fun nip => nip ≠ "" && nip ∉ (s.visit it.ip).visitedIP &&
        inAllowedCIDR net nip b.allowed)
      = (follows b poll it.ip).filter fun nip => nip ∉ (s.visit it.ip).visitedIP := by
    unfold follows
    rw [List.filter_filter]
    refine List.filter_congr fun nip _ => ?_
    rw [Bool.and_right_comm, Bool.and_comm]
  unfold Crawled.answer newItems
  rw [if_neg hne, hitems]
  exact if_neg hnew

theorem mem_newItems {it' : Item} (h : it' ∈ newItems b poll s it) :
    it.hop < b.maxHops ∧ it'.hop = it.hop + 1 ∧ it'.ip ∈ follows b poll it.ip := by
  unfold newItems at h
  split at h
  next => cases h
  next hhop =>
    obtain ⟨nip, hnip, rfl⟩ := List.mem_map.mp h
    exact ⟨Nat.lt_of_not_le hhop, rfl, (List.mem_filter.mp hnip).1⟩

/-- The head's address is polled and a device answers for the first time. -/
theorem Inv.found (hdev : OfDevice poll) (h : Inv b poll seeds (it :: queue) s)
    (hit : it.ip ∉ s.visitedIP) (hroom : s.out.length < b.maxDevices) (hne : (poll it.ip).1 ≠ "")
    (hnew : (poll it.ip).1 ∉ s.seenDev) :
    Inv b poll seeds (it :: queue ++ newItems b poll s it) (s.found it (poll it.ip).1) := by
  obtain ⟨hops, hhop⟩ := h.sound it List.mem_cons_self
  have hfirst : ∀ it' ∈ it :: queue, it.hop ≤ it'.hop := by
    intro it' hit'
    rcases List.mem_cons.mp hit' with rfl | hit'
    · exact Nat.le_refl _
    · exact (List.pairwise_cons.mp h.sorted).1 it' hit'
  have hsecond : ∀ it' ∈ it :: queue, it'.hop ≤ it.hop + 1 := h.level it List.mem_cons_self
  have hmem : ∀ {d}, d ∈ (s.found it (poll it.ip).1).out →
      d ∈ s.out ∨ d = ⟨(poll it.ip).1, it.ip, it.hop⟩ := fun hd =>
    (List.mem_append.mp hd).imp_right List.mem_singleton.mp
  constructor
  case sound =>
    intro it' hit'
    rcases List.mem_append.mp hit' with hit' | hit'
    · exact h.sound it' hit'
    · obtain ⟨hlt, heq, hfollows⟩ := mem_newItems hit'
      rw [heq]
      exact ⟨.next hops hne hfollows, hlt⟩
  case sorted =>
    refine List.pairwise_append.mpr ⟨h.sorted, ?_, ?_⟩
    · refine List.pairwise_of_forall_mem_list fun i hi i' hi' => ?_
      rw [(mem_newItems hi).2.1, (mem_newItems hi').2.1]
    · intro i hi i' hi'
      rw [(mem_newItems hi').2.1]
      exact hsecond i hi
  case level =>
    intro i hi i' hi'
    rcases List.mem_append.mp hi with hi | hi <;> rcases List.mem_append.mp hi' with hi' | hi'
    · exact h.level i hi i' hi'
    · rw [(mem_newItems hi').2.1]
      exact Nat.succ_le_succ (hfirst i hi)
    · rw [(mem_newItems hi).2.1]
      exact Nat.le_succ_of_le (hsecond i' hi')
    · rw [(mem_newItems hi).2.1, (mem_newItems hi').2.1]
      exact Nat.le_succ _
  case behind =>
    have hall : ∀ i ∈ it :: queue ++ newItems b poll s it, it.hop ≤ i.hop := by
      intro i hi
      rcases List.mem_append.mp hi with hi | hi
      · exact hfirst i hi
      · rw [(mem_newItems hi).2.1]
        exact Nat.le_succ _
    intro d hd i hi
    rcases hmem hd with hd | rfl
    · exact Nat.le_trans (h.behind d hd it List.mem_cons_self) (hall i hi)
    · exact hall i hi
  case seeded =>
    intro a ha
    exact (h.seeded a ha).imp (List.mem_append_left _) (List.mem_append_left _)
  case expanded =>
    intro d hd hlt a ha
    rcases hmem hd with hd | rfl
    · exact (h.expanded d hd hlt a ha).imp (List.mem_append_left _) (List.mem_append_left _)
    · by_cases hvisited : a ∈ (s.visit it.ip).visitedIP
      · exact .inl hvisited
      · right
        refine List.mem_append_right _ ?_
        rw [newItems, if_neg (Nat.not_le.mpr hlt)]
        exact List.mem_map.mpr ⟨a, List.mem_filter.mpr ⟨ha, decide_eq_true hvisited⟩, rfl⟩
  case answered =>
    intro a ha hanswer n hn hops'
    rcases List.mem_append.mp ha with ha | ha
    · obtain ⟨d, hd, hid, hdhop⟩ := h.answered a ha hanswer n hn hops'
      exact ⟨d, List.mem_append_left _ hd, hid, hdhop⟩
    · obtain rfl : a = it.ip := List.mem_singleton.mp ha
      exact ⟨_, List.mem_append_right _ List.mem_cons_self, rfl, h.head_le hdev hops' hn hit⟩
  case device =>
    intro d hd
    rcases hmem hd with hd | rfl
    · exact h.device d hd
    · exact ⟨rfl, hops, hhop⟩
  case nearest =>
    intro d hd n hdist
    rcases hmem hd with hd | rfl
    · exact h.nearest d hd n hdist
    · obtain ⟨a, hops', hid⟩ := hdist
      rcases Nat.lt_or_ge b.maxHops n with hlt | hn
      · exact Nat.le_trans hhop (Nat.le_of_lt hlt)
      · refine h.head_le hdev hops' hn fun ha => hnew ?_
        -- a visited address of this device would have shown it before
        obtain ⟨d, hd, hid', -⟩ := h.answered a ha (hid ▸ hne) n hn hops'
        rw [← h.ids]
        exact List.mem_map.mpr ⟨d, hd, hid'.trans hid⟩
  case ids =>
    show List.map _ (s.out ++ _) = s.seenDev ++ _
    rw [List.map_append, h.ids, List.map_singleton]
  case nodup => exact List.nodup_append.mpr ⟨h.nodup, List.pairwise_singleton _ _, fun a ha a' ha' heq =>
      hnew (List.mem_singleton.mp ha' ▸ heq ▸ ha)⟩
  case count =>
    show (s.out ++ _).length ≤ _
    rw [List.length_append]
    exact hroom
  case polled =>
    intro a ha
    rcases List.mem_append.mp ha with ha | ha
    · exact h.polled a ha
    · rw [List.mem_singleton.mp ha]
      exact hops.allowed

/-- The loop ends with the invariant, and with nothing left in the queue or no budget. -/
theorem crawlLoop_inv (hdev : OfDevice poll) (h : Inv b poll seeds queue s) :
    ∃ rest, Inv b poll seeds rest (crawlLoop b poll queue s) ∧
      (rest = [] ∨ b.maxDevices ≤ (crawlLoop b poll queue s).out.length) := by
  fun_induction crawlLoop b poll queue s with
  | case1 s => exact ⟨[], h, .inl rfl⟩
  | case2 s it queue hroom hvisited ih => exact ih (h.drop hvisited)
  | case3 s it queue hroom hvisited r ih =>
    refine ih ?_
    by_cases hseen : (poll it.ip).1 = "" ∨ (poll it.ip).1 ∈ s.seenDev
    · have hr : r = (s.visit it.ip, []) := answer_known hseen
      rw [hr, List.append_nil]
      exact (h.visit hdev hvisited hseen).drop (List.mem_append_right _ List.mem_cons_self)
    · obtain ⟨hne, hnew⟩ := not_or.mp hseen
      have hr : r = (s.found it (poll it.ip).1, newItems b poll s it) := answer_found hne hnew
      rw [hr]
      exact (h.found hdev hvisited hroom hne hnew).drop (List.mem_append_right _ List.mem_cons_self)
  | case4 s it queue hroom => exact ⟨it :: queue, h, .inr (Nat.le_of_not_lt hroom)⟩

/-- **The crawl is sound and complete.** Its devices are distinct and within the budget, it polls
nothing but seeds and allowed addresses, and a device's hop is its shortest distance, of at most
`maxHops`. Where the budget is not used up, no device at such a distance is missing. -/
theorem crawl_reaches (hdev : OfDevice poll) :
    ((crawl b poll seeds).1.map DiscoveredDevice.id).Nodup ∧
      (crawl b poll seeds).1.length ≤ b.maxDevices ∧
      (∀ a ∈ (crawl b poll seeds).2, a ∈ seeds ∨ inAllowedCIDR net a b.allowed = true) ∧
      (∀ d ∈ (crawl b poll seeds).1,
        IsLeast (distances b poll seeds d.id) d.hop ∧ d.hop ≤ b.maxHops) ∧
      ((crawl b poll seeds).1.length < b.maxDevices →
        ∀ id ≠ "", ∀ n ∈ distances b poll seeds id, n ≤ b.maxHops →
          id ∈ (crawl b poll seeds).1.map DiscoveredDevice.id) := by
  have hstart : Inv b poll seeds (seedItems seeds) .start := Inv.start
  obtain ⟨rest, hinv, hend⟩ := crawlLoop_inv hdev hstart
  have hids : ((crawl b poll seeds).1.map DiscoveredDevice.id).Nodup := hinv.ids ▸ hinv.nodup
  refine ⟨hids, hinv.count, hinv.polled, ?_, ?_⟩
  · intro d hd
    obtain ⟨hid, hops, hhop⟩ := hinv.device d hd
    exact ⟨⟨⟨d.mgmtIP, hops, hid.symm⟩, fun n hn => hinv.nearest d hd n hn⟩, hhop⟩
  · rintro hroom id hne n ⟨a, hops, rfl⟩ hn
    obtain rfl : rest = [] := hend.resolve_right (Nat.not_le.mpr hroom)
    have hvisited : a ∈ (crawlLoop b poll (seedItems seeds) .start).visitedIP :=
      (hinv.covered hdev hops hn).resolve_right nofun
    obtain ⟨d, hd, hid, -⟩ := hinv.answered a hvisited hne n hn hops
    exact List.mem_map.mpr ⟨d, hd, hid⟩

end

/-- Every text is an address, and every address is in the one range there is. -/
def openNet : Addressing := ⟨String, Unit, some, fun _ _ => true⟩

/-- Two switches that name each other, one of them also at a second address. -/
def pairPoll : CrawlPoller := fun a =>
  let id :=
    if a = "10.0.0.1" then "core"
    else if a = "10.0.0.2" ∨ a = "10.0.0.3" then "edge" else ""
  (id, if id = "core" then ["10.0.0.2", "10.0.0.3"] else ["10.0.0.1"])

def pairBounds : CrawlBounds openNet := ⟨3, 2, [some ()]⟩

theorem crawl_reaches_pair : IsLeast (distances pairBounds pairPoll ["10.0.0.1"] "edge") 1 := by
  have hdev : OfDevice pairPoll := fun a a' hid _ =>
    congrArg (fun id => if id = "core" then ["10.0.0.2", "10.0.0.3"] else ["10.0.0.1"]) hid
  have hedge : (⟨"edge", "10.0.0.2", 1⟩ : DiscoveredDevice)
      ∈ (crawl pairBounds pairPoll ["10.0.0.1"]).1 := by
    simp [crawl, crawlLoop, seedItems, pairPoll, pairBounds, Crawled.start, Crawled.visit,
      Crawled.answer, inAllowedCIDR, openNet]
  exact ((crawl_reaches (b := pairBounds) hdev).2.2.2.1 _ hedge).1

end SenhubAgent.SnmpPoll

import SenhubAgent.PodLogs.Chunks

/-!
# Reassembly against the whole run

`Add` decides chunk by chunk what is cut. The reference looks at a run as a whole: a run is the
partial chunks of one stream up to the full one, its text their concatenation, and its entry has
the first `max` bytes of that text, the time of the first chunk and `Truncated` when the text is
longer. `Running` is the invariant: the run a stream has open is that of the chunks since its
last full one.
-/

namespace SenhubAgent.PodLogs

open SenhubAgent.Lib (Bytes)

/-- The runs a full chunk has ended, and the chunks of the open one. -/
def runsOf (held : List Entry) : List Entry → List (List Entry) × List Entry
  | [] => ([], held)
  | e :: es =>
    if e.isPartial then runsOf (held ++ [e]) es
    else ((held ++ [e]) :: (runsOf [] es).1, (runsOf [] es).2)

/-- The text of a run. -/
def joined (run : List Entry) : Bytes := run.flatMap (·.message)

/-- The entry of a whole run. -/
def entryOf (max : Int) (isPartial : Bool) (run : List Entry) : Option Entry :=
  run.head?.map fun first =>
    { time := first.time
      stream := first.stream
      isPartial := isPartial
      message := (joined run).take max.toNat
      truncated := decide (max < (joined run).length)
      lines := run.flatMap (·.lines) }

def ofStream (s : Stream) (es : List Entry) : List Entry := es.filter fun e => e.stream = s

namespace Assembler

/-- `Add` for each entry in turn: the complete entries. -/
def addAll (a : Assembler) : List Entry → List Entry × Assembler
  | [] => ([], a)
  | e :: es =>
    let r := a.add e
    let r' := addAll r.2 es
    (r.1.toList ++ r'.1, r'.2)

end Assembler

theorem joined_append (run : List Entry) (e : Entry) :
    joined (run ++ [e]) = joined run ++ e.message := by
  simp [joined]

/-- The run of a stream's chunks. -/
def runOf (max : Int) (held : List Entry) : Option PartialRun :=
  held.head?.map fun first =>
    { firstTime := first.time
      buf := (joined held).take max.toNat
      truncated := decide (max < (joined held).length)
      lines := held.flatMap (·.lines) }

variable {max : Int} {e : Entry} {a : Assembler} {held : Stream → List Entry}

/-- **One chunk**: cutting as the chunks come is cutting the whole. -/
theorem take_run (hmax : 0 < max) (time : Int) (held : List Entry) (e : Entry) :
    PartialRun.take ⟨time, (joined held).take max.toNat, decide (max < (joined held).length),
        held.flatMap (·.lines)⟩ e max =
      ⟨time, (joined (held ++ [e])).take max.toNat, decide (max < (joined (held ++ [e])).length),
        (held ++ [e]).flatMap (·.lines)⟩ := by
  have hlines : held.flatMap (·.lines) ++ e.lines = (held ++ [e]).flatMap (·.lines) := by simp
  have hlen : (joined (held ++ [e])).length = (joined held).length + e.message.length := by
    rw [joined_append, List.length_append]
  unfold PartialRun.take PartialRun.append
  rw [hlen, joined_append, List.take_append]
  by_cases hfull : max.toNat ≤ (joined held).length
  · -- the buffer is full
    have hbuf : ((joined held).take max.toNat).length = max.toNat := by
      rw [List.length_take]
      omega
    have hrest : max.toNat - (joined held).length = 0 := by omega
    rw [if_pos (by rw [hbuf]; omega), hrest, List.take_zero, List.append_nil]
    by_cases hmsg : e.message = []
    · rw [if_neg (fun hne => hne hmsg), hlines, hmsg]
      rfl
    · have hpos : 0 < e.message.length := List.length_pos_iff.mpr hmsg
      have hlong : max < ((joined held).length + e.message.length : Nat) := by omega
      rw [if_pos hmsg, hlines, decide_eq_true hlong]
  · have hbuf : (joined held).take max.toNat = joined held := List.take_of_length_le (by omega)
    have hnot : decide (max < (joined held).length) = false := decide_eq_false (by omega)
    rw [hbuf]
    dsimp only
    rw [if_neg (by omega), hnot]
    by_cases hover : max - (joined held).length < e.message.length
    · have hlong : max < ((joined held).length + e.message.length : Nat) := by omega
      have hroom : (max - (joined held).length).toNat = max.toNat - (joined held).length := by omega
      rw [if_pos hover, hroom, hlines, decide_eq_true hlong]
    · have hshort : decide (max < ((joined held).length + e.message.length : Nat)) = false :=
        decide_eq_false (by omega)
      have hall : e.message.take (max.toNat - (joined held).length) = e.message :=
        List.take_of_length_le (by omega)
      rw [if_neg hover, hlines, hshort, hall]

theorem max_pos (a : Assembler) : 0 < a.max := by
  unfold Assembler.max
  split
  · decide
  · omega

/-- A run's entry is within the cap already. -/
theorem truncateEntry_run (hmax : 0 < max) (t : Bytes) (h : e.message = t.take max.toNat) :
    truncateEntry e max = e := by
  have hlen : (e.message.length : Int) ≤ max := by
    rw [h, List.length_take]
    omega
  exact if_pos hlen

/-! ## Runs of two streams -/

/-- The chunks a stream has open, after one more entry. -/
def heldAfter (held : Stream → List Entry) (e : Entry) (s : Stream) : List Entry :=
  if s = e.stream then if e.isPartial then held s ++ [e] else [] else held s

/-- The open runs are those of the chunks held. -/
structure Running (a : Assembler) (held : Stream → List Entry) : Prop where
  runs : ∀ s, a.runs s = runOf a.max (held s)
  stream : ∀ s, ∀ e ∈ held s, e.stream = s

theorem head?_append_one (held : List Entry) (e : Entry) :
    (held ++ [e]).head? = some (held.head?.getD e) := by
  cases held <;> rfl

/-- The run of a stream with one more chunk. -/
theorem Running.take (h : Running a held) (e : Entry) :
    some (((a.runs e.stream).getD ⟨e.time, [], false, []⟩).take e a.max) =
      runOf a.max (held e.stream ++ [e]) := by
  rw [h.runs e.stream]
  unfold runOf
  rw [head?_append_one]
  cases hheld : held e.stream with
  | nil =>
    have hnew := take_run (max_pos a) e.time [] e
    have hnot : decide (a.max < ([] : Bytes).length) = false :=
      decide_eq_false (by have := max_pos a; simp; omega)
    simp only [joined, List.flatMap_nil, List.take_nil, hnot] at hnew
    simp only [List.head?_nil, Option.map_none, Option.getD_none, Option.map_some]
    rw [hnew]
    rfl
  | cons first rest =>
    have hrun := take_run (max_pos a) first.time (first :: rest) e
    simp only [List.head?_cons, Option.map_some, Option.getD_some]
    rw [hrun]

theorem Running.setRun (h : Running a held) (s : Stream) {r : Option PartialRun} {next : List Entry}
    (hr : r = runOf a.max next) (hstream : ∀ x ∈ next, x.stream = s) :
    Running (a.setRun s r) (fun t => if t = s then next else held t) := by
  refine ⟨fun t => ?_, fun t x hx => ?_⟩
  · show (if t = s then r else a.runs t) = runOf a.max (if t = s then next else held t)
    split
    · exact hr
    · exact h.runs t
  · split at hx
    next ht => rw [ht]; exact hstream x hx
    next => exact h.stream t x hx

/-- The run of a stream is opened by a chunk of that stream. -/
theorem Running.first_stream (h : Running a held) (e : Entry) :
    ((held e.stream).head?.getD e).stream = e.stream := by
  cases hheld : held e.stream with
  | nil => rfl
  | cons first rest => exact h.stream e.stream first (by rw [hheld]; exact List.mem_cons_self ..)

/-- The entry of a run and the run itself have the same contents. -/
theorem entryOf_run (h : Running a held) (e : Entry) {r : PartialRun}
    (hr : some r = runOf a.max (held e.stream ++ [e])) :
    some (truncateEntry ⟨r.firstTime, e.stream, false, r.buf, r.truncated, r.lines⟩ a.max) =
      entryOf a.max false (held e.stream ++ [e]) := by
  unfold runOf at hr
  unfold entryOf
  rw [head?_append_one] at hr ⊢
  cases Option.some.inj hr
  rw [truncateEntry_run (max_pos a) _ rfl, Option.map_some, h.first_stream e]

theorem entryOf_stream (h : Running a held) (e : Entry) {isPartial : Bool} {m : Entry}
    (hm : entryOf a.max isPartial (held e.stream ++ [e]) = some m) : m.stream = e.stream := by
  unfold entryOf at hm
  rw [head?_append_one] at hm
  cases Option.some.inj hm
  exact h.first_stream e

/-- A full chunk with no run open. -/
theorem entryOf_single (a : Assembler) (he : e.truncated = false) (hfull : e.isPartial = false) :
    some (truncateEntry e a.max) = entryOf a.max false [e] := by
  obtain ⟨time, stream, isPartial, message, truncated, lines⟩ := e
  cases he
  cases hfull
  simp only [truncateEntry, entryOf, joined, List.head?_cons, Option.map_some, List.flatMap_cons,
    List.flatMap_nil, List.append_nil]
  split
  next hle =>
    rw [List.take_of_length_le (by omega), decide_eq_false (by omega)]
  next hgt => rw [decide_eq_true (by omega)]

/-- What one entry does to the runs, and what comes out. -/
theorem add_running (h : Running a held) (he : e.truncated = false) :
    Running (a.add e).2 (heldAfter held e) ∧ (a.add e).2.maxBytes = a.maxBytes ∧
      (a.add e).1 = if e.isPartial then none else entryOf a.max false (held e.stream ++ [e]) := by
  have hrun := h.take e
  unfold Assembler.add
  cases hlast : e.isPartial with
  | true =>
    have hafter : heldAfter held e =
        fun t => if t = e.stream then held e.stream ++ [e] else held t := by
      funext t
      unfold heldAfter
      split
      next ht => rw [ht]
      next => rfl
    rw [hafter]
    refine ⟨h.setRun e.stream hrun fun x hx => ?_, rfl, rfl⟩
    rcases List.mem_append.mp hx with hx | hx
    · exact h.stream _ x hx
    · rw [List.mem_singleton.mp hx]
  | false =>
    have hafter : heldAfter held e = fun t => if t = e.stream then [] else held t := by
      funext t
      unfold heldAfter
      rw [hlast]
      rfl
    rw [hafter]
    cases hopen : a.runs e.stream with
    | some r =>
      rw [hopen] at hrun
      exact ⟨h.setRun e.stream rfl nofun, rfl, entryOf_run h e hrun⟩
    | none =>
      have hnil : held e.stream = [] := by
        have hnone := h.runs e.stream
        rw [hopen] at hnone
        exact List.head?_eq_none_iff.mp (Option.map_eq_none_iff.mp hnone.symm)
      refine ⟨⟨fun t => ?_, fun t x hx => ?_⟩, rfl, ?_⟩
      · show a.runs t = runOf a.max (if t = e.stream then [] else held t)
        split
        next ht => rw [ht, hopen]; rfl
        next => exact h.runs t
      · split at hx
        next => cases hx
        next => exact h.stream t x hx
      · rw [hnil]
        exact entryOf_single a he hlast

/-- **Every entry**: by induction on the entries, from any open runs. -/
theorem addAll_running : ∀ (es : List Entry) {a : Assembler} {held : Stream → List Entry},
    Running a held → (∀ e ∈ es, e.truncated = false) → ∀ s,
      ofStream s (a.addAll es).1 =
        (runsOf (held s) (ofStream s es)).1.filterMap (entryOf a.max false) ∧
      (a.addAll es).2.maxBytes = a.maxBytes ∧
      (a.addAll es).2.runs s = runOf a.max (runsOf (held s) (ofStream s es)).2 := by
  intro es
  induction es with
  | nil => intro a held h _ s; exact ⟨rfl, rfl, h.runs s⟩
  | cons e es ih =>
    intro a held h htrunc s
    obtain ⟨hrunning, hmax, hout⟩ := add_running h (htrunc e (List.mem_cons_self ..))
    have hcap : (a.add e).2.max = a.max := by
      unfold Assembler.max
      rw [hmax]
    obtain ⟨hrest, hmax', hruns⟩ :=
      ih hrunning (fun x hx => htrunc x (List.mem_cons_of_mem _ hx)) s
    rw [hcap] at hrest hruns
    have hfirst : ∀ m, (a.add e).1 = some m → m.stream = e.stream := by
      intro m hm
      rw [hout] at hm
      split at hm
      next => cases hm
      next => exact entryOf_stream h e hm
    have hsplit : ofStream s (a.addAll (e :: es)).1 =
        ofStream s (a.add e).1.toList ++ ofStream s ((a.add e).2.addAll es).1 :=
      List.filter_append ..
    rw [hsplit, hrest]
    by_cases hs : e.stream = s
    · -- the entry is one of the stream
      have hcons : ofStream s (e :: es) = e :: ofStream s es :=
        List.filter_cons_of_pos (decide_eq_true hs)
      have hone : ofStream s (a.add e).1.toList = (a.add e).1.toList := by
        apply List.filter_eq_self.mpr
        intro m hm
        exact decide_eq_true ((hfirst m (Option.mem_toList.mp hm)).trans hs)
      have hheld : heldAfter held e s = if e.isPartial then held s ++ [e] else [] := if_pos hs.symm
      refine ⟨?_, hmax'.trans hmax, hruns.trans ?_⟩
      · rw [hcons, hone, hout, hheld, runsOf, hs]
        cases e.isPartial with
        | true => rfl
        | false =>
          simp only [Bool.false_eq_true, if_false, List.filterMap_cons]
          cases entryOf a.max false (held s ++ [e]) <;> rfl
      · rw [hcons, hheld, runsOf]
        cases e.isPartial <;> rfl
    · have hcons : ofStream s (e :: es) = ofStream s es :=
        List.filter_cons_of_neg (by simpa using hs)
      have hnone : ofStream s (a.add e).1.toList = [] := by
        apply List.filter_eq_nil_iff.mpr
        intro m hm hms
        exact hs ((hfirst m (Option.mem_toList.mp hm)).symm.trans (of_decide_eq_true hms))
      have hheld : heldAfter held e s = held s := if_neg (Ne.symm hs)
      rw [hheld] at hruns
      rw [hcons, hnone, hheld]
      exact ⟨rfl, hmax'.trans hmax, hruns⟩

theorem new_running (maxBytes : Int) : Running (Assembler.new maxBytes) fun _ => [] :=
  ⟨fun _ => rfl, nofun⟩

theorem mem_open {x : Entry} :
    ∀ {es held : List Entry}, x ∈ (runsOf held es).2 → x ∈ held ∨ x ∈ es := by
  intro es
  induction es with
  | nil => intro held h; exact .inl h
  | cons e es ih =>
    intro held h
    unfold runsOf at h
    split at h
    next =>
      rcases ih h with hheld | hes
      · rcases List.mem_append.mp hheld with hheld | he
        · exact .inl hheld
        · exact .inr (List.mem_cons.mpr (.inl (List.mem_singleton.mp he)))
      · exact .inr (List.mem_cons_of_mem _ hes)
    next =>
      rcases ih h with hnil | hes
      · cases hnil
      · exact .inr (List.mem_cons_of_mem _ hes)

theorem ofStream_ofStream (s t : Stream) (es : List Entry) :
    ofStream t (ofStream s es) = if t = s then ofStream s es else [] := by
  split
  next h =>
    rw [h]
    exact List.filter_eq_self.mpr fun e he => (List.mem_filter.mp he).2
  next h =>
    apply List.filter_eq_nil_iff.mpr
    intro e he hte
    exact h ((of_decide_eq_true hte).symm.trans (of_decide_eq_true (List.mem_filter.mp he).2))

/-- At most one entry per stream, looked at for one of them. -/
theorem ofStream_each {g : Stream → Option Entry} (hg : ∀ t m, g t = some m → m.stream = t)
    (s : Stream) : ofStream s ([Stream.stderr, Stream.stdout].filterMap g) = (g s).toList := by
  have hone : ∀ t, ofStream s (g t).toList = if t = s then (g t).toList else [] := by
    intro t
    cases hgt : g t with
    | none => split <;> rfl
    | some m =>
      rw [Option.toList_some, ofStream, List.filter_singleton, hg t m hgt]
      by_cases hts : t = s
      · rw [if_pos hts, decide_eq_true hts]
        rfl
      · rw [if_neg hts, decide_eq_false hts]
        rfl
  have hlist : [Stream.stderr, Stream.stdout].filterMap g =
      (g .stderr).toList ++ (g .stdout).toList := by
    cases herr : g .stderr <;> cases hout : g .stdout <;> simp [herr, hout]
  have hboth : ofStream s ((g .stderr).toList ++ (g .stdout).toList) =
      ofStream s (g .stderr).toList ++ ofStream s (g .stdout).toList := List.filter_append ..
  rw [hlist, hboth, hone .stderr, hone .stdout]
  cases s <;> simp

/-- What `Flush` gives for one stream. -/
theorem ofStream_flush {s : Stream} {run : List Entry} (hrun : a.runs s = runOf a.max run)
    (hstream : ∀ e ∈ run, e.stream = s) :
    ofStream s a.flush.1 = (entryOf a.max true run).toList := by
  have hentry : ((a.runs s).map fun r =>
      truncateEntry ⟨r.firstTime, s, true, r.buf, r.truncated, r.lines⟩ a.max) =
      entryOf a.max true run := by
    rw [hrun]
    unfold runOf entryOf
    cases run with
    | nil => rfl
    | cons first rest =>
      simp only [List.head?_cons, Option.map_some]
      rw [truncateEntry_run (max_pos a) _ rfl, hstream first (List.mem_cons_self ..)]
  rw [← hentry]
  refine ofStream_each (g := fun s => (a.runs s).map fun r =>
    truncateEntry ⟨r.firstTime, s, true, r.buf, r.truncated, r.lines⟩ a.max) (fun t m hm => ?_) s
  obtain ⟨r, -, rfl⟩ := Option.map_eq_some_iff.mp hm
  exact truncateEntry_stream _ _

/-- **Reassembly is per stream and exact.** For entries as `ParseLine` gives them, in any
interleaving: the entries that come out for a stream are those of its own runs, as they would be
without the other stream, and a final `Flush` gives the open runs. -/
theorem addAll_reassembles (maxBytes : Int) (es : List Entry)
    (hes : ∀ e ∈ es, e.truncated = false) (s : Stream) :
    ofStream s ((Assembler.new maxBytes).addAll es).1 =
        ((Assembler.new maxBytes).addAll (ofStream s es)).1 ∧
      ofStream s ((Assembler.new maxBytes).addAll es).1 =
        (runsOf [] (ofStream s es)).1.filterMap (entryOf (Assembler.new maxBytes).max false) ∧
      ofStream s ((Assembler.new maxBytes).addAll es).2.flush.1 =
        (entryOf (Assembler.new maxBytes).max true (runsOf [] (ofStream s es)).2).toList := by
  obtain ⟨hout, hmax, hruns⟩ := addAll_running es (new_running maxBytes) hes s
  have hcap : ((Assembler.new maxBytes).addAll es).2.max = (Assembler.new maxBytes).max := by
    unfold Assembler.max
    rw [hmax]
  refine ⟨?_, hout, ?_⟩
  · -- the stream alone gives nothing of the other
    have halone : ∀ t, ofStream t ((Assembler.new maxBytes).addAll (ofStream s es)).1 =
        (runsOf [] (if t = s then ofStream s es else [])).1.filterMap
          (entryOf (Assembler.new maxBytes).max false) := by
      intro t
      rw [← ofStream_ofStream s t es]
      exact (addAll_running (ofStream s es) (new_running maxBytes)
        (fun e he => hes e (List.mem_filter.mp he).1) t).1
    have hself := halone s
    rw [if_pos rfl, ← hout] at hself
    rw [← hself]
    apply List.filter_eq_self.mpr
    intro m hm
    by_contra hne
    have hother := halone m.stream
    rw [if_neg (fun heq => hne (decide_eq_true heq))] at hother
    have hmem : m ∈ ofStream m.stream ((Assembler.new maxBytes).addAll (ofStream s es)).1 :=
      List.mem_filter.mpr ⟨hm, decide_eq_true rfl⟩
    rw [hother] at hmem
    cases hmem
  · have hflush := ofStream_flush (a := ((Assembler.new maxBytes).addAll es).2) (s := s)
      (hcap ▸ hruns) (fun e he => by
        rcases mem_open he with hnil | hmem
        · cases hnil
        · exact of_decide_eq_true (List.mem_filter.mp hmem).2)
    rw [hcap] at hflush
    exact hflush

def chunk (time : Int) (stream : Stream) (isPartial : Bool) (message : Bytes) : Entry :=
  ⟨time, stream, isPartial, message, false, []⟩

/-- Chunks `ab` and `cd` of stdout with a line of stderr between them, under a cap of three. -/
theorem addAll_reassembles_capped :
    ((Assembler.new 3).addAll [chunk 1 .stdout true [97, 98], chunk 2 .stderr false [120],
        chunk 3 .stdout false [99, 100]]).1 =
      [chunk 2 .stderr false [120], { chunk 1 .stdout false [97, 98, 99] with truncated := true }] ∧
    ofStream .stdout ((Assembler.new 3).addAll [chunk 1 .stdout true [97, 98],
        chunk 2 .stderr false [120], chunk 3 .stdout false [99, 100]]).1 =
      ((Assembler.new 3).addAll
        [chunk 1 .stdout true [97, 98], chunk 3 .stdout false [99, 100]]).1 :=
  ⟨rfl, (addAll_reassembles 3 [chunk 1 .stdout true [97, 98], chunk 2 .stderr false [120],
    chunk 3 .stdout false [99, 100]] (by decide) .stdout).1⟩

end SenhubAgent.PodLogs

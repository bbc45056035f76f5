/-!
# Schedules of an interleaved system

A concurrent component is modelled as a partial step function
`step : σ → α → Option σ`: `α` names the atomic actions of all its parties and
`none` says the action is not enabled. A *schedule* is any list of actions, so
a statement over every schedule is a statement over every interleaving.

`runSchedule` executes one. `Admits ok` says that every action of the schedule
meets the side condition `ok` in the state it is taken from; with `ok` always
true this is no condition at all. `runSchedule_inv` is the one induction: what
the initial state satisfies and every admitted action keeps, every reached
state satisfies. `Traced` is the form for an invariant that speaks of a ghost
value with a history of its own (where each item of a log is by now).
-/

namespace SenhubAgent.Lib

variable {σ α : Type}

/-- Execute a schedule; `none` when some action was not enabled. -/
def runSchedule (step : σ → α → Option σ) : σ → List α → Option σ
  | s, [] => some s
  | s, a :: as =>
    match step s a with
    | none => none
    | some s' => runSchedule step s' as

/-- Every action of the schedule meets `ok` in the state it is taken from. -/
def Admits (step : σ → α → Option σ) (ok : σ → α → Prop) : σ → List α → Prop
  | _, [] => True
  | s, a :: as => ok s a ∧
    match step s a with
    | none => True
    | some s' => Admits step ok s' as

/-- A decidable side condition makes a schedule checkable. -/
instance Admits.decidable (step : σ → α → Option σ) (ok : σ → α → Prop)
    [∀ s a, Decidable (ok s a)] : ∀ (s : σ) (as : List α), Decidable (Admits step ok s as)
  | _, [] => isTrue trivial
  | s, a :: as =>
    match hstep : step s a with
    | none => decidable_of_iff (ok s a) (by simp [Admits, hstep])
    | some s' =>
      have := Admits.decidable step ok s' as
      decidable_of_iff (ok s a ∧ Admits step ok s' as) (by simp [Admits, hstep])

theorem runSchedule_cons {step : σ → α → Option σ} {s s' : σ} {a : α} {as : List α}
    (h : runSchedule step s (a :: as) = some s') :
    ∃ t, step s a = some t ∧ runSchedule step t as = some s' := by
  unfold runSchedule at h
  split at h
  next => cases h
  next t ht => exact ⟨t, ht, h⟩

/-- A schedule of actions that are always enabled is a fold. -/
theorem runSchedule_total (f : σ → α → σ) :
    ∀ (as : List α) (s : σ), runSchedule (fun s a => some (f s a)) s as = some (as.foldl f s) := by
  intro as
  induction as with
  | nil => intro s; rfl
  | cons a as ih => intro s; exact ih (f s a)

/-- **The invariant rule.** -/
theorem runSchedule_inv {step : σ → α → Option σ} {ok : σ → α → Prop} {I : σ → Prop}
    (hstep : ∀ s a s', I s → ok s a → step s a = some s' → I s') :
    ∀ (as : List α) {s s' : σ}, I s → Admits step ok s as →
      runSchedule step s as = some s' → I s' := by
  intro as
  induction as with
  | nil =>
    intro s s' hI _ hrun
    simp only [runSchedule, Option.some.injEq] at hrun
    exact hrun ▸ hI
  | cons a as ih =>
    intro s s' hI hok hrun
    obtain ⟨t, ht, hrest⟩ := runSchedule_cons hrun
    obtain ⟨hnow, hlater⟩ := hok
    rw [ht] at hlater
    exact ih (hstep s a t hI hnow ht) hlater hrest

theorem Admits.of_forall {step : σ → α → Option σ} {ok : σ → α → Prop} (h : ∀ s a, ok s a) :
    ∀ (as : List α) (s : σ), Admits step ok s as := by
  intro as
  induction as with
  | nil => intro s; trivial
  | cons a as ih =>
    intro s
    refine ⟨h s a, ?_⟩
    cases step s a with
    | none => trivial
    | some t => exact ih t

/-- The invariant rule without a side condition. -/
theorem runSchedule_keeps {step : σ → α → Option σ} {I : σ → Prop}
    (hstep : ∀ s a s', I s → step s a = some s' → I s') (as : List α) {s s' : σ} (hI : I s)
    (hrun : runSchedule step s as = some s') : I s' := by
  have hok : Admits step (fun _ _ => True) s as := Admits.of_forall (fun _ _ => trivial) as s
  exact runSchedule_inv (fun s a s' hI _ => hstep s a s' hI) as hI hok hrun

/-- **The stain rule**: where a clean state stays clean exactly by an action that meets `ok`,
and nothing cleans a state again, a run ends clean exactly when all its actions meet `ok`. -/
theorem runSchedule_clean_iff {step : σ → α → Option σ} {ok : σ → α → Prop} {I clean : σ → Prop}
    (hstep : ∀ s a s', I s → step s a = some s' → I s' ∧ (clean s' ↔ clean s ∧ ok s a)) :
    ∀ (as : List α) {s s' : σ}, I s → runSchedule step s as = some s' →
      (clean s' ↔ clean s ∧ Admits step ok s as) := by
  intro as
  induction as with
  | nil =>
    intro s s' _ hrun
    simp only [runSchedule, Option.some.injEq] at hrun
    rw [hrun]
    exact ⟨fun h => ⟨h, trivial⟩, fun h => h.1⟩
  | cons a as ih =>
    intro s s' hI hrun
    obtain ⟨t, ht, hrest⟩ := runSchedule_cons hrun
    obtain ⟨hIt, hclean⟩ := hstep s a t hI ht
    rw [ih hIt hrest, hclean, Admits, ht, and_assoc]

/-! ## A ghost value along a run -/

section Ghost

variable {γ : Type} {step : σ → α → Option σ} {I : σ → γ → Prop} {R : σ → α → γ → γ → Prop}

/-- A value the code does not keep, carried along a schedule: `I` relates it to every
state on the way and each action moves it on by `R`. -/
def Traced (step : σ → α → Option σ) (I : σ → γ → Prop) (R : σ → α → γ → γ → Prop) :
    σ → γ → List α → Prop
  | s, g, [] => I s g
  | s, g, a :: as => I s g ∧ ∀ s', step s a = some s' → ∃ g', R s a g g' ∧ Traced step I R s' g' as

/-- **The ghost rule**: a relation `J` under `I` that every action can restore. -/
theorem Traced.of_step {J : σ → γ → Prop} (hJ : ∀ s g, J s g → I s g)
    (hstep : ∀ s a s' g, J s g → step s a = some s' → ∃ g', R s a g g' ∧ J s' g') :
    ∀ (as : List α) (s : σ) (g : γ), J s g → Traced step I R s g as := by
  intro as
  induction as with
  | nil => intro s g h; exact hJ s g h
  | cons a as ih =>
    intro s g h
    refine ⟨hJ s g h, fun s' hs' => ?_⟩
    obtain ⟨g', hR, hJ'⟩ := hstep s a s' g h hs'
    exact ⟨g', hR, ih s' g' hJ'⟩

end Ghost

end SenhubAgent.Lib

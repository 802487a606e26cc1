import Mathlib.Logic.Basic

/-!
# Runs of a labelled transition system

A system is a partial function from a state and an action to the next state; all
choice lies in the actions.  A run is a list of actions.  The rules below carry an
invariant along a run, and a condition on single steps to a property of every state
passed.
-/

namespace PeridotSw.Machine.Transition

variable {σ α : Type}

/-- The state a list of actions leads to, if every one of them can be taken. -/
def run (step : σ → α → Option σ) : σ → List α → Option σ
  | state, [] => some state
  | state, action :: rest =>
      match step state action with
      | none => none
      | some next => run step next rest

/-- Every state passed is good, the first one included. -/
def Always (step : σ → α → Option σ) (good : σ → Prop) : σ → List α → Prop
  | state, [] => good state
  | state, action :: rest =>
      good state ∧ ∀ next, step state action = some next → Always step good next rest

/-- Every step taken is allowed, given the state before it. -/
def Each (step : σ → α → Option σ) (allowed : σ → α → Prop) : σ → List α → Prop
  | _, [] => True
  | state, action :: rest =>
      ∀ next, step state action = some next → allowed state action ∧ Each step allowed next rest

variable {step : σ → α → Option σ} {good invariant : σ → Prop} {allowed : σ → α → Prop}

instance Each.decidable [∀ state action, Decidable (allowed state action)] (state : σ) :
    (actions : List α) → Decidable (Each step allowed state actions)
  | [] => isTrue trivial
  | action :: rest =>
      match taken : step state action with
      | none => isTrue fun next taken' => by
          rw [taken] at taken'
          cases taken'
      | some next =>
          letI := Each.decidable next rest
          decidable_of_iff (allowed state action ∧ Each step allowed next rest) (by simp [Each, taken])

/-- What follows a run goes on from the state it has reached. -/
theorem run_append {front : List α} {state reached : σ} (arrives : run step state front = some reached)
    (back : List α) : run step state (front ++ back) = run step reached back := by
  induction front generalizing state with
  | nil =>
      cases arrives
      rfl
  | cons action rest ih =>
      rw [run] at arrives
      rw [List.cons_append, run]
      cases taken : step state action with
      | none =>
          rw [taken] at arrives
          cases arrives
      | some next =>
          rw [taken] at arrives
          exact ih arrives

/-- The states passed are those the beginnings of the run lead to. -/
theorem always_iff (state : σ) (actions : List α) :
    Always step good state actions ↔
      ∀ front, front <+: actions → ∀ reached, run step state front = some reached →
        good reached := by
  induction actions generalizing state with
  | nil =>
      constructor
      · intro here front start reached arrives
        cases List.prefix_nil.mp start
        cases arrives
        exact here
      · intro all
        exact all [] (List.prefix_refl []) state rfl
  | cons action rest ih =>
      constructor
      · rintro ⟨here, later⟩ front start reached arrives
        cases front with
        | nil =>
            cases arrives
            exact here
        | cons first front =>
            obtain ⟨rfl, shorter⟩ := List.cons_prefix_cons.mp start
            rw [run] at arrives
            cases taken : step state first with
            | none =>
                rw [taken] at arrives
                cases arrives
            | some next =>
                rw [taken] at arrives
                exact (ih next).mp (later next taken) front shorter reached arrives
      · intro all
        refine ⟨all [] List.nil_prefix state rfl, fun next taken => (ih next).mpr ?_⟩
        intro front start reached arrives
        refine all (action :: front) (List.cons_prefix_cons.mpr ⟨rfl, start⟩) reached ?_
        rw [run, taken]
        exact arrives

theorem Always.here {state : σ} {actions : List α} (always : Always step good state actions) :
    good state := by
  cases actions with
  | nil => exact always
  | cons action rest => exact always.1

theorem Always.mono {better : σ → Prop} (implies : ∀ state, good state → better state)
    {state : σ} {actions : List α} (always : Always step good state actions) :
    Always step better state actions := by
  induction actions generalizing state with
  | nil => exact implies state always
  | cons action rest ih => exact ⟨implies state always.1, fun next taken => ih (always.2 next taken)⟩

/-- In a run that passes good states only, the steps are those good states allow. -/
theorem Always.each
    (allows : ∀ state action next, good state → step state action = some next →
      allowed state action)
    {state : σ} {actions : List α} (always : Always step good state actions) :
    Each step allowed state actions := by
  induction actions generalizing state with
  | nil => exact trivial
  | cons action rest ih =>
      exact fun next taken => ⟨allows state action next always.1 taken, ih (always.2 next taken)⟩

/-- An invariant that allowed steps keep holds throughout a run of allowed steps. -/
theorem always_of_each
    (kept : ∀ state action next, invariant state → allowed state action →
      step state action = some next → invariant next)
    {state : σ} (holds : invariant state) {actions : List α}
    (each : Each step allowed state actions) : Always step invariant state actions := by
  induction actions generalizing state with
  | nil => exact holds
  | cons action rest ih =>
      refine ⟨holds, fun next taken => ?_⟩
      obtain ⟨here, later⟩ := each next taken
      exact ih (kept state action next holds here taken) later

/-- An invariant of every step holds throughout every run. -/
theorem always_of_kept
    (kept : ∀ state action next, invariant state → step state action = some next →
      invariant next)
    {state : σ} (holds : invariant state) (actions : List α) :
    Always step invariant state actions := by
  induction actions generalizing state with
  | nil => exact holds
  | cons action rest ih =>
      exact ⟨holds, fun next taken => ih (kept state action next holds taken)⟩

/-- If a step that is not allowed leads to a state that is not good, a run passes good
states only exactly when all its steps are allowed. -/
theorem always_iff_each
    (kept : ∀ state action next, invariant state → allowed state action →
      step state action = some next → invariant next)
    (sound : ∀ state, invariant state → good state)
    (exact : ∀ state action next, invariant state → ¬allowed state action →
      step state action = some next → ¬good next)
    {state : σ} (holds : invariant state) (actions : List α) :
    Always step good state actions ↔ Each step allowed state actions := by
  induction actions generalizing state with
  | nil => exact iff_of_true (sound state holds) trivial
  | cons action rest ih =>
      constructor
      · rintro ⟨-, later⟩ next taken
        by_cases here : allowed state action
        · exact ⟨here, (ih (kept state action next holds here taken)).mp (later next taken)⟩
        · exact absurd (later next taken).here (exact state action next holds here taken)
      · intro each
        refine ⟨sound state holds, fun next taken => ?_⟩
        obtain ⟨here, later⟩ := each next taken
        exact (ih (kept state action next holds here taken)).mpr later

/-! ## Simulation -/

variable {τ β : Type} {abstractStep : τ → β → Option τ} {related : σ → τ → Prop}

/-- If every allowed step can be matched by steps of another system, so can every run of allowed
steps. -/
theorem always_simulated
    (matched : ∀ state action next other, related state other → allowed state action →
      step state action = some next →
        ∃ moves later, run abstractStep other moves = some later ∧ related next later)
    {state : σ} {start : τ} (holds : related state start) {actions : List α}
    (each : Each step allowed state actions) :
    Always step (fun reached => ∃ moves last, run abstractStep start moves = some last ∧
      related reached last) state actions := by
  refine always_of_each (fun before action next simulated here taken => ?_) ⟨[], start, rfl, holds⟩
    each
  obtain ⟨moves, last, arrives, relates⟩ := simulated
  obtain ⟨more, later, goes, relates'⟩ := matched before action next last relates here taken
  exact ⟨moves ++ more, later, (run_append arrives more).trans goes, relates'⟩

end PeridotSw.Machine.Transition

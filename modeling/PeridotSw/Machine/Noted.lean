import Mathlib.Data.List.Basic

/-!
# Computations that note what they do

A result together with a list of notes, which grows as computations follow one another.
-/

namespace PeridotSw.Machine.Noted

/-- A value and the notes made on the way to it. -/
structure Noting (ε α : Type) where
  notes : List ε
  value : α

namespace Noting

variable {ε α β : Type} {good : ε → Prop}

instance : Monad (Noting ε) where
  pure value := ⟨[], value⟩
  bind first rest := ⟨first.notes ++ (rest first.value).notes, (rest first.value).value⟩

@[simp] theorem notes_pure (value : α) : (pure value : Noting ε α).notes = [] := rfl

@[simp] theorem value_pure (value : α) : (pure value : Noting ε α).value = value := rfl

@[simp] theorem notes_bind (first : Noting ε α) (rest : α → Noting ε β) :
    (first >>= rest).notes = first.notes ++ (rest first.value).notes := rfl

@[simp] theorem value_bind (first : Noting ε α) (rest : α → Noting ε β) :
    (first >>= rest).value = (rest first.value).value := rfl

@[simp] theorem value_ite {condition : Prop} [Decidable condition] (first second : Noting ε α) :
    (if condition then first else second).value =
      if condition then first.value else second.value :=
  apply_ite Noting.value condition first second

def All (good : ε → Prop) (computation : Noting ε α) : Prop :=
  ∀ note ∈ computation.notes, good note

theorem all_pure (value : α) : (pure value : Noting ε α).All good := nofun

theorem all_bind {first : Noting ε α} {rest : α → Noting ε β} :
    (first >>= rest).All good ↔ first.All good ∧ (rest first.value).All good := by
  simp only [All, notes_bind, List.forall_mem_append]

theorem All.bind {first : Noting ε α} {rest : α → Noting ε β} (here : first.All good)
    (later : ∀ value, (rest value).All good) : (first >>= rest).All good :=
  all_bind.mpr ⟨here, later first.value⟩

theorem All.ite {condition : Prop} [Decidable condition] {first second : Noting ε α}
    (yes : first.All good) (no : second.All good) :
    (if condition then first else second).All good := by
  split
  · exact yes
  · exact no

theorem not_all_bind {first : Noting ε α} (rest : α → Noting ε β) {note : ε}
    (made : note ∈ first.notes) (bad : ¬good note) : ¬(first >>= rest).All good :=
  fun all => bad (all note (List.mem_append_left _ made))

def note (what : ε) : Noting ε Unit := ⟨[what], ()⟩

@[simp] theorem notes_note (what : ε) : (note what).notes = [what] := rfl

/-! ## Repeated steps -/

variable {σ : Type}

/-- A step taken so many times. -/
def repeated (step : σ → Noting ε σ) : Nat → σ → Noting ε σ
  | 0, state => pure state
  | count + 1, state => step state >>= repeated step count

variable {step : σ → Noting ε σ}

/-- What every step keeps, of the state and all notes so far, holds after any number of steps. -/
theorem repeated_keeps {holds : List ε → σ → Prop}
    (kept : ∀ notes state, holds notes state →
      holds (notes ++ (step state).notes) (step state).value)
    {notes : List ε} {state : σ} (start : holds notes state) (count : Nat) :
    holds (notes ++ (repeated step count state).notes) (repeated step count state).value := by
  induction count generalizing notes state with
  | zero =>
      rw [repeated, notes_pure, List.append_nil]
      exact start
  | succ count ih =>
      rw [repeated, notes_bind, value_bind, ← List.append_assoc]
      exact ih (kept notes state start)

/-- Steps that make a measure fall except where they rest come to rest. -/
theorem repeated_rests {rests : σ → Prop} {measure : σ → Nat}
    (stays : ∀ state, rests state → rests (step state).value)
    (falls : ∀ state, rests state ∨ measure (step state).value < measure state)
    {state : σ} {count : Nat} (enough : measure state ≤ count) :
    rests (repeated step count state).value := by
  have remains (count : Nat) : ∀ state, rests state → rests (repeated step count state).value := by
    induction count with
    | zero => exact fun _ here => here
    | succ count ih => exact fun state here => ih _ (stays state here)
  induction count generalizing state with
  | zero => exact (falls state).resolve_right (by omega)
  | succ count ih =>
      rcases falls state with here | lower
      · exact remains (count + 1) state here
      · exact ih (by omega)

end Noting

/-! ## Computations that may stop -/

/-- A computation that notes what it does, and may stop for a reason instead of returning. -/
abbrev Stopping (ε σ α : Type) : Type := ExceptT σ (Noting ε) α

namespace Stopping

variable {ε σ α β : Type}

/-- The value returned, or the reason why there is none. -/
def outcome (computation : Stopping ε σ α) : Except σ α := computation.run.value

def notes (computation : Stopping ε σ α) : List ε := computation.run.notes

def note (what : ε) : Stopping ε σ Unit := ExceptT.mk ⟨[what], .ok ()⟩

@[simp] theorem outcome_pure (value : α) : outcome (pure value : Stopping ε σ α) = .ok value := rfl

@[simp] theorem notes_pure (value : α) : notes (pure value : Stopping ε σ α) = [] := rfl

@[simp] theorem outcome_throw (reason : σ) :
    outcome (throw reason : Stopping ε σ α) = .error reason := rfl

@[simp] theorem notes_throw (reason : σ) : notes (throw reason : Stopping ε σ α) = [] := rfl

@[simp] theorem outcome_note (what : ε) : outcome (note what : Stopping ε σ Unit) = .ok () := rfl

@[simp] theorem notes_note (what : ε) : notes (note what : Stopping ε σ Unit) = [what] := rfl

@[simp] theorem outcome_lift (result : Except σ α) :
    outcome (liftM result : Stopping ε σ α) = result := rfl

@[simp] theorem notes_lift (result : Except σ α) : notes (liftM result : Stopping ε σ α) = [] := rfl

variable {first : Stopping ε σ α}

theorem outcome_bind_ok {value : α} (returns : outcome first = .ok value)
    (rest : α → Stopping ε σ β) : outcome (first >>= rest) = outcome (rest value) := by
  change (ExceptT.bindCont rest first.run.value).value = _
  rw [show first.run.value = .ok value from returns]
  rfl

theorem notes_bind_ok {value : α} (returns : outcome first = .ok value)
    (rest : α → Stopping ε σ β) : notes (first >>= rest) = notes first ++ notes (rest value) := by
  change first.run.notes ++ (ExceptT.bindCont rest first.run.value).notes = _
  rw [show first.run.value = .ok value from returns]
  rfl

theorem outcome_bind_error {reason : σ} (stops : outcome first = .error reason)
    (rest : α → Stopping ε σ β) : outcome (first >>= rest) = .error reason := by
  change (ExceptT.bindCont rest first.run.value).value = _
  rw [show first.run.value = .error reason from stops]
  rfl

theorem notes_bind_error {reason : σ} (stops : outcome first = .error reason)
    (rest : α → Stopping ε σ β) : notes (first >>= rest) = notes first := by
  change first.run.notes ++ (ExceptT.bindCont rest first.run.value).notes = _
  rw [show first.run.value = .error reason from stops]
  exact List.append_nil _

theorem lift_ok_bind (value : α) (rest : α → Stopping ε σ β) :
    (liftM (.ok value : Except σ α) : Stopping ε σ α) >>= rest = rest value := rfl

def All (good : ε → Prop) (computation : Stopping ε σ α) : Prop :=
  ∀ what ∈ notes computation, good what

/-- The computation does not stop for this reason. -/
def Avoids (reason : σ) (computation : Stopping ε σ α) : Prop :=
  outcome computation ≠ .error reason

variable {good : ε → Prop} {reason : σ} {rest : α → Stopping ε σ β}

theorem all_pure (value : α) : All good (pure value : Stopping ε σ α) := nofun

theorem all_lift (result : Except σ α) : All good (liftM result : Stopping ε σ α) := nofun

theorem all_note {what : ε} (here : good what) : All good (note what : Stopping ε σ Unit) :=
  fun _ listed => List.mem_singleton.mp listed ▸ here

theorem All.bind (here : All good first) (later : ∀ value, All good (rest value)) :
    All good (first >>= rest) := by
  intro what listed
  cases result : outcome first with
  | ok value =>
      rw [notes_bind_ok result, List.mem_append] at listed
      exact listed.elim (here what) (later value what)
  | error other =>
      rw [notes_bind_error result] at listed
      exact here what listed

theorem avoids_pure (value : α) : Avoids reason (pure value : Stopping ε σ α) := nofun

theorem avoids_note (what : ε) : Avoids reason (note what : Stopping ε σ Unit) := nofun

theorem avoids_lift {result : Except σ α} (avoids : result ≠ .error reason) :
    Avoids reason (liftM result : Stopping ε σ α) := avoids

theorem Avoids.bind (here : Avoids reason first) (later : ∀ value, Avoids reason (rest value)) :
    Avoids reason (first >>= rest) := by
  unfold Avoids
  cases result : outcome first with
  | ok value =>
      rw [outcome_bind_ok result]
      exact later value
  | error other =>
      rw [outcome_bind_error result]
      rintro ⟨⟩
      exact here result

end Stopping

end PeridotSw.Machine.Noted

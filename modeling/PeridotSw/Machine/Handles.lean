import Mathlib.Logic.Function.Basic
import PeridotSw.Machine.Transition

/-!
# Handles

Someone acts for clients that know resources by handles only.  A resource is obtained on some
ground and bound to a handle that is free; it is used and given up through the handle it is
bound to.
-/

namespace PeridotSw.Machine.Handles

open PeridotSw.Machine.Transition

variable {η ρ γ κ : Type}

/-- What is done: a resource is asked for in vain, bound to a handle, used or given up. -/
inductive Deed (η ρ γ κ : Type) where
  | attempt (ground : γ)
  | grant (handle : η) (resource : ρ) (ground : γ)
  | use (handle : η) (resource : ρ) (how : κ)
  | drop (handle : η) (resource : ρ)

def step [DecidableEq η] [DecidableEq ρ] (bound : η → Option ρ) :
    Deed η ρ γ κ → Option (η → Option ρ)
  | .attempt _ => some bound
  | .grant handle resource _ =>
      if bound handle = none then some (Function.update bound handle (some resource)) else none
  | .use handle resource _ => if bound handle = some resource then some bound else none
  | .drop handle resource =>
      if bound handle = some resource then some (Function.update bound handle none) else none

def nothing : η → Option ρ := fun _ => none

/-- Bound to the handle, and since then not given up. -/
def Granted (past : List (Deed η ρ γ κ)) (handle : η) (resource : ρ) : Prop :=
  ∃ first ground rest, past = first ++ .grant handle resource ground :: rest ∧
    ∀ other, .drop handle other ∉ rest

/-- Only what is granted is used or given up, and only a handle that is free is granted. -/
def Justified (past : List (Deed η ρ γ κ)) : Deed η ρ γ κ → Prop
  | .attempt _ => True
  | .grant handle _ _ => ∀ resource, ¬Granted past handle resource
  | .use handle resource _ => Granted past handle resource
  | .drop handle resource => Granted past handle resource

variable {past : List (Deed η ρ γ κ)} {handle : η} {resource : ρ}

theorem granted_grant (past : List (Deed η ρ γ κ)) (handle : η) (resource : ρ) (ground : γ) :
    Granted (past ++ [.grant handle resource ground]) handle resource :=
  ⟨past, ground, [], rfl, fun _ => List.not_mem_nil⟩

/-- What is granted stays so until it is given up. -/
theorem granted_append (deed : Deed η ρ γ κ) (granted : Granted past handle resource)
    (kept : ∀ other, deed ≠ .drop handle other) : Granted (past ++ [deed]) handle resource := by
  obtain ⟨first, ground, rest, rfl, still⟩ := granted
  refine ⟨first, ground, rest ++ [deed], by simp, fun other member => ?_⟩
  rcases List.mem_append.mp member with earlier | last
  · exact still other earlier
  · exact kept other (List.mem_singleton.mp last).symm

/-- Behind a last deed that is not its grant, what is granted was so before, and is not given up. -/
theorem granted_before {deed : Deed η ρ γ κ} (granted : Granted (past ++ [deed]) handle resource) :
    (∃ ground, deed = .grant handle resource ground) ∨
      (Granted past handle resource ∧ ∀ other, deed ≠ .drop handle other) := by
  obtain ⟨first, ground, rest, whole, still⟩ := granted
  rcases List.eq_nil_or_concat rest with rfl | ⟨front, last, rfl⟩
  · have same := List.append_inj_right' whole rfl
    exact .inl ⟨ground, List.singleton_inj.mp same⟩
  · rw [List.concat_eq_append, ← List.cons_append, ← List.append_assoc] at whole
    obtain ⟨rfl, same⟩ := List.append_inj' whole rfl
    obtain rfl := List.singleton_inj.mp same
    refine .inr ⟨⟨first, ground, front, rfl, fun other member => ?_⟩, fun other dropped => ?_⟩
    · rw [List.concat_eq_append] at still
      exact still other (List.mem_append_left _ member)
    · rw [List.concat_eq_append] at still
      exact still other (List.mem_append_right _ (dropped ▸ List.mem_singleton_self _))

variable [DecidableEq η] [DecidableEq ρ]

/-- A deed that is allowed keeps the handles what the deeds say. -/
theorem granted_step {bound next : η → Option ρ} {deed : Deed η ρ γ κ}
    (agree : ∀ handle resource, bound handle = some resource ↔ Granted past handle resource)
    (taken : step bound deed = some next) :
    ∀ handle resource, next handle = some resource ↔ Granted (past ++ [deed]) handle resource := by
  intro handle resource
  cases deed with
  | attempt ground =>
      cases taken
      rw [agree]
      refine ⟨fun granted => granted_append _ granted fun _ => by simp, fun granted => ?_⟩
      rcases granted_before granted with ⟨_, wrong⟩ | ⟨granted, -⟩
      · cases wrong
      · exact granted
  | use other used how =>
      simp only [step, Option.ite_none_right_eq_some, Option.some.injEq] at taken
      obtain ⟨-, rfl⟩ := taken
      rw [agree]
      refine ⟨fun granted => granted_append _ granted fun _ => by simp, fun granted => ?_⟩
      rcases granted_before granted with ⟨_, wrong⟩ | ⟨granted, -⟩
      · cases wrong
      · exact granted
  | grant other obtained ground =>
      simp only [step, Option.ite_none_right_eq_some, Option.some.injEq] at taken
      obtain ⟨free, rfl⟩ := taken
      rw [Function.update_apply]
      split
      · rename_i same
        subst same
        constructor
        · rintro ⟨⟩
          exact granted_grant ..
        · intro granted
          rcases granted_before granted with ⟨_, same⟩ | ⟨granted, -⟩
          · cases same
            rfl
          · rw [← agree, free] at granted
            cases granted
      · rename_i distinct
        rw [agree]
        refine ⟨fun granted => granted_append _ granted fun _ => by simp, fun granted => ?_⟩
        rcases granted_before granted with ⟨_, same⟩ | ⟨granted, -⟩
        · cases same
          exact absurd rfl distinct
        · exact granted
  | drop other dropped =>
      simp only [step, Option.ite_none_right_eq_some, Option.some.injEq] at taken
      obtain ⟨-, rfl⟩ := taken
      rw [Function.update_apply]
      split
      · rename_i same
        subst same
        constructor
        · rintro ⟨⟩
        intro granted
        rcases granted_before granted with ⟨_, wrong⟩ | ⟨-, kept⟩
        · cases wrong
        · exact absurd rfl (kept dropped)
      · rename_i distinct
        rw [agree]
        refine ⟨fun granted => granted_append _ granted ?_, fun granted => ?_⟩
        · rintro third ⟨⟩
          exact distinct rfl
        · rcases granted_before granted with ⟨_, wrong⟩ | ⟨granted, -⟩
          · cases wrong
          · exact granted

/-- A deed that is allowed is justified by those before it. -/
theorem justified_step {bound next : η → Option ρ} {deed : Deed η ρ γ κ}
    (agree : ∀ handle resource, bound handle = some resource ↔ Granted past handle resource)
    (taken : step bound deed = some next) : Justified past deed := by
  cases deed with
  | attempt ground => trivial
  | grant handle resource ground =>
      simp only [step, Option.ite_none_right_eq_some] at taken
      intro other granted
      rw [← agree, taken.1] at granted
      cases granted
  | use handle resource how =>
      simp only [step, Option.ite_none_right_eq_some] at taken
      exact (agree handle resource).mp taken.1
  | drop handle resource =>
      simp only [step, Option.ite_none_right_eq_some] at taken
      exact (agree handle resource).mp taken.1

/-- From handles that agree with some deeds, every deed of a run is justified by those before it. -/
theorem justified_from {past deeds : List (Deed η ρ γ κ)} {start bound : η → Option ρ}
    (agree : ∀ handle resource, start handle = some resource ↔ Granted past handle resource)
    (arrives : run step start deeds = some bound) :
    (∀ before deed after, deeds = before ++ deed :: after → Justified (past ++ before) deed) ∧
      ∀ handle resource, bound handle = some resource ↔
        Granted (past ++ deeds) handle resource := by
  induction deeds generalizing past start with
  | nil =>
      cases arrives
      refine ⟨fun before deed after wrong => ?_, by simpa using agree⟩
      cases before <;> cases wrong
  | cons first rest ih =>
      rw [run] at arrives
      cases taken : step start first with
      | none =>
          rw [taken] at arrives
          cases arrives
      | some next =>
          rw [taken] at arrives
          obtain ⟨justified, bound⟩ := ih (granted_step agree taken) arrives
          refine ⟨fun before deed after whole => ?_, by simpa using bound⟩
          cases before with
          | nil =>
              cases whole
              rw [List.append_nil]
              exact justified_step agree taken
          | cons other before =>
              cases whole
              have later := justified before deed after rfl
              rwa [List.append_assoc] at later

omit [DecidableEq η] [DecidableEq ρ] in
theorem not_granted_nil : ¬Granted ([] : List (Deed η ρ γ κ)) handle resource := by
  rintro ⟨first, ground, rest, wrong, -⟩
  cases first <;> cases wrong

/-- In a run every deed is justified by those before it, and a handle is bound to what it has been
granted. -/
theorem justified_of_run {deeds : List (Deed η ρ γ κ)} {bound : η → Option ρ}
    (arrives : run step nothing deeds = some bound) :
    (∀ before deed after, deeds = before ++ deed :: after → Justified before deed) ∧
      ∀ handle resource, bound handle = some resource ↔ Granted deeds handle resource :=
  justified_from (fun _ _ => iff_of_false (by simp [nothing]) not_granted_nil) arrives

end PeridotSw.Machine.Handles

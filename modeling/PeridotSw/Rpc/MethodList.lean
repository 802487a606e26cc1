import Mathlib.Data.Fintype.Basic
import PeridotSw.Machine.SharedList
import PeridotSw.Machine.Transition
import PeridotSw.Rpc.Reply

/-!
# Methods that are registered while others are called

`register_method` puts an entry at the end of the list of methods, without a lock: packages
register their methods one after the other.  The threads of the server are already running, and
`peridot_rpc_server_find_method` goes through the list behind their back.
-/

namespace PeridotSw.Rpc.MethodList

open PeridotSw.Machine.Memory
open PeridotSw.Machine.LinkedList
open PeridotSw.Machine.SharedList
open PeridotSw.Machine.Transition
open PeridotSw.Rpc.Reply

/-- A request, and where the name of its method is. -/
structure Wanted where
  input : Mem
  method : Nat

/-- `peridot_rpc_server_find_method`, as a search. -/
def findMethodSearch : Search Wanted MethodEntry (Option MethodEntry) where
  early _ := none
  judge wanted entry :=
    if (strcmpEq entry.name.bytes wanted.method).eval wanted.input then some (some entry) else none
  atEnd _ := none

/-- The search answers as the function does for the list of methods. -/
theorem findMethodSearch_answer (wanted : Wanted) (methods : List MethodEntry) :
    findMethodSearch.answer wanted methods =
      (findMethod wanted.method methods).eval wanted.input := by
  rw [Search.answer]
  simp only [findMethodSearch]
  induction methods with
  | nil => rfl
  | cons entry rest ih =>
      rw [List.findSome?_cons, findMethod, Access.eval_bind]
      cases (strcmpEq entry.name.bytes wanted.method).eval wanted.input with
      | true => rfl
      | false => exact ih

/-! ## Threads -/

variable {Thread Addr : Type}

/-- A thread calls `register_method`, for which `malloc` has a block or not, or
`peridot_rpc_server_find_method`; or it goes on. -/
inductive Action (Thread Addr : Type) where
  | registerMethod (thread : Thread) (entry : MethodEntry) (block : Option Addr)
  | findMethod (thread : Thread) (input : Mem) (method : Nat)
  | go (thread : Thread)

def Action.shared : Action Thread Addr → Machine.SharedList.Action Thread Addr Wanted MethodEntry
  | .registerMethod thread entry block => .add thread entry block
  | .findMethod thread input method => .look thread ⟨input, method⟩
  | .go thread => .go thread

abbrev World (Thread Addr : Type) : Type :=
  Machine.SharedList.State Thread Addr Wanted MethodEntry (Option MethodEntry)

def step [DecidableEq Thread] [DecidableEq Addr] (world : World Thread Addr)
    (action : Action Thread Addr) : Option (World Thread Addr) :=
  Machine.SharedList.step false findMethodSearch world action.shared

/-- Packages register one after the other: nobody begins while another registers. -/
def OneByOne (world : World Thread Addr) : Action Thread Addr → Prop
  | .registerMethod _ _ (some _) => ∀ other, ¬At Inside world.places other
  | _ => True

instance [Fintype Thread] (world : World Thread Addr) (action : Action Thread Addr) :
    Decidable (OneByOne world action) :=
  match action with
  | .registerMethod _ _ (some _) =>
      inferInstanceAs (Decidable (∀ other, ¬At Inside world.places other))
  | .registerMethod _ _ none => isTrue trivial
  | .findMethod _ _ _ => isTrue trivial
  | .go _ => isTrue trivial

/-- Every call of `peridot_rpc_server_find_method` finds what it finds in the list of the methods
that are registered when it returns. -/
def Found (world : World Thread Addr) : Prop :=
  ∀ front input method found,
    front ++ [.answered ⟨input, method⟩ found] <+: world.events →
      found = (Reply.findMethod method (addedTo front)).eval input

theorem found_of_legal {world : World Thread Addr} (legal : Legal findMethodSearch world.events) :
    Found world := by
  intro front input method found start
  rw [legal front ⟨input, method⟩ found start, findMethodSearch_answer]

theorem OneByOne.alone {world : World Thread Addr} {action : Action Thread Addr}
    (oneByOne : OneByOne world action) : Alone false world action.shared := by
  cases action with
  | registerMethod thread entry block =>
      cases block with
      | none => exact trivial
      | some addr => exact fun _ => oneByOne
  | findMethod | go => exact trivial

variable [DecidableEq Thread] [DecidableEq Addr]

/-- However the calls of methods are interleaved with their registration, each finds the first
entry with its name among those registered so far, and none is lost. -/
theorem registered_methods {actions : List (Action Thread Addr)} {world : World Thread Addr}
    (each : Each step OneByOne (initial Thread Addr Wanted MethodEntry (Option MethodEntry)) actions)
    (arrives : run step (initial Thread Addr Wanted MethodEntry (Option MethodEntry)) actions =
      some world) : Found world ∧ Reaches world (addedTo world.events) := by
  have always : Always step (fun world => ∃ path, Sound false findMethodSearch world path)
      (initial Thread Addr Wanted MethodEntry (Option MethodEntry)) actions := by
    refine always_of_each ?_ ⟨[], sound_initial false findMethodSearch⟩ each
    rintro before action after ⟨path, sound⟩ oneByOne taken
    exact sound.step oneByOne.alone taken
  obtain ⟨path, sound⟩ := (always_iff _ _).mp always _ (List.prefix_refl _) world arrives
  exact ⟨found_of_legal sound.legal, sound.reaches⟩

def ping : MethodEntry := ⟨.of [0x70] (Eq.refl true), .async fun _ _ => 0⟩

def quit : MethodEntry := ⟨.of [0x71] (Eq.refl true), .async fun _ _ => 0⟩

def forQuit : Mem := fun place => ([0x71, 0x00] : List UInt8).getD place 0

/-- The search begins at the only entry, and finds the one that is linked meanwhile. -/
def linkedMeanwhile : List (Action Bool Nat) :=
  [.registerMethod true ping (some 40), .go true, .go true, .findMethod false forQuit 0,
    .registerMethod true quit (some 20), .go true, .go false, .go false, .go true]

theorem registered_methods_meanwhile :
    ∃ world, run step (initial Bool Nat Wanted MethodEntry (Option MethodEntry)) linkedMeanwhile =
        some world ∧
      world.events = [.added ping, .added quit, .answered ⟨forQuit, 0⟩ (some quit)] ∧
        Found world ∧ Reaches world (addedTo world.events) := by
  have each : Each step OneByOne (initial Bool Nat Wanted MethodEntry (Option MethodEntry))
      linkedMeanwhile := by decide
  have found : (run step (initial Bool Nat Wanted MethodEntry (Option MethodEntry))
      linkedMeanwhile).map State.events =
      some [.added ping, .added quit, .answered ⟨forQuit, 0⟩ (some quit)] := rfl
  obtain ⟨world, arrives, events⟩ := Option.map_eq_some_iff.mp found
  exact ⟨world, arrives, events, registered_methods each arrives⟩

end PeridotSw.Rpc.MethodList

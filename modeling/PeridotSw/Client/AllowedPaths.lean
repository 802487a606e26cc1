import PeridotSw.Client.Paths
import PeridotSw.Machine.SharedList
import PeridotSw.Machine.Transition

/-!
# Allowed paths that are added while others are checked

The entries of the client's file system are cells of a list.  `peridot_client_fs_add_path` takes
`sem_lock` to put one at its end; `peridot_client_fs_validate_path` goes through the list without
it, and requests are served while the program adds paths.
-/

namespace PeridotSw.Client.AllowedPaths

open PeridotSw.Machine.Memory
open PeridotSw.Machine.LinkedList
open PeridotSw.Machine.SharedList
open PeridotSw.Machine.Transition
open PeridotSw.Client.Paths

/-! ## The loop over the entries -/

/-- What a path is checked for. -/
structure Check where
  path : CString
  flags : Nat

/-- The length of the path without a slash at its end. -/
def Check.len (check : Check) : Nat :=
  let len := check.path.bytes.length
  if check.path.bytes[len - 1]? = some slash then len - 1 else len

/-- One pass of the loop: `none` for `continue`, and at the end of its body. -/
def judgeEntry (check : Check) (entry : PathEntry) : Option Int :=
  if check.len < entry.name.length then
    none
  else if check.path.bytes.take entry.name.length ≠ entry.name then
    none
  else if accmode entry.flags &&& accmode check.flags ≠ accmode check.flags then
    some 0
  else
    let sep := check.path.bytes[entry.name.length]?.getD 0
    if entry.flags &&& oDirectory ≠ 0 then
      if sep = slash ∨ sep = 0 then some 1 else none
    else
      if sep = 0 then some 1 else none

/-- `peridot_client_fs_validate_path`, as a search. -/
def validatePath : Search Check PathEntry Int where
  early check := if check.path.bytes.length = 0 then some 0 else none
  judge := judgeEntry
  atEnd _ := 0

theorem validateEntries_eq (check : Check) (entries : List PathEntry) :
    validateEntries check.path check.len (accmode check.flags) entries =
      (entries.findSome? (judgeEntry check)).getD 0 := by
  induction entries with
  | nil => rfl
  | cons entry rest ih =>
      rw [validateEntries, List.findSome?_cons, ih, judgeEntry]
      split
      · rfl
      split
      · rfl
      split
      · rfl
      simp only
      split <;> split <;> rfl

/-- The search answers as the function does for the list of entries. -/
theorem validatePath_answer (check : Check) (entries : List PathEntry) :
    validatePath.answer check entries =
      peridotClientFsValidatePath entries check.path check.flags := by
  unfold Search.answer peridotClientFsValidatePath
  by_cases empty : check.path.bytes.length = 0
  · simp only [validatePath, empty, if_true]
  · simp only [validatePath, empty, if_false]
    exact (validateEntries_eq check entries).symm

/-! ## Threads -/

variable {Thread Addr : Type}

/-- A thread calls `peridot_client_fs_add_path`, for which `malloc` has a block or not, or
`peridot_client_fs_validate_path`; or it goes on. -/
inductive Action (Thread Addr : Type) where
  | addPath (thread : Thread) (path : List UInt8) (flags : Nat) (block : Option Addr)
  | validatePath (thread : Thread) (path : CString) (flags : Nat)
  | go (thread : Thread)

def Action.shared : Action Thread Addr → Machine.SharedList.Action Thread Addr Check PathEntry
  | .addPath thread path flags block =>
      .add thread ⟨flags &&& (oAccmode ||| oDirectory), path⟩ block
  | .validatePath thread path flags => .look thread ⟨path, flags⟩
  | .go thread => .go thread

abbrev World (Thread Addr : Type) : Type := Machine.SharedList.State Thread Addr Check PathEntry Int

def step [DecidableEq Thread] [DecidableEq Addr] (world : World Thread Addr)
    (action : Action Thread Addr) : Option (World Thread Addr) :=
  Machine.SharedList.step true validatePath world action.shared

/-- Every check answers as `peridot_client_fs_validate_path` does for the entries that are in
the list when it answers. -/
def Checked (world : World Thread Addr) : Prop :=
  ∀ front path flags answer, front ++ [.answered ⟨path, flags⟩ answer] <+: world.events →
    answer = peridotClientFsValidatePath (addedTo front) path flags

theorem checked_of_legal {world : World Thread Addr} (legal : Legal validatePath world.events) :
    Checked world := by
  intro front path flags answer start
  rw [legal front ⟨path, flags⟩ answer start, validatePath_answer]

/-- With the lock, those who add need not be alone. -/
theorem alone_locked (world : World Thread Addr)
    (action : Machine.SharedList.Action Thread Addr Check PathEntry) : Alone true world action := by
  cases action with
  | add thread value block =>
      cases block with
      | none => exact trivial
      | some addr => exact nofun
  | look | go => exact trivial

variable [DecidableEq Thread] [DecidableEq Addr]

/-- However calls that add paths and calls that check them are interleaved, the checks answer
for the list as it is, and no entry gets lost. -/
theorem allowed_paths {actions : List (Action Thread Addr)} {world : World Thread Addr}
    (arrives : run step (initial Thread Addr Check PathEntry Int) actions = some world) :
    Checked world ∧ Reaches world (addedTo world.events) := by
  have always : Always step (fun world => ∃ path, Sound true validatePath world path)
      (initial Thread Addr Check PathEntry Int) actions := by
    refine always_of_kept ?_ ⟨[], sound_initial true validatePath⟩ actions
    rintro before action after ⟨path, sound⟩ taken
    exact sound.step (alone_locked before action.shared) taken
  obtain ⟨path, sound⟩ := (always_iff _ _).mp always _ (List.prefix_refl _) world arrives
  exact ⟨checked_of_legal sound.legal, sound.reaches⟩

def data : List UInt8 := [0x64, 0x61, 0x74, 0x61]

def tmp : CString := .of [0x74, 0x6d, 0x70] (Eq.refl true)

/-- Two threads add `data` and `tmp`.  A third begins to check `tmp` between their links. -/
def threeThreads : List (Action Nat Nat) :=
  [.addPath 0 data oRdwr (some 40), .addPath 1 tmp.bytes oRdonly (some 20), .go 0, .go 0,
    .validatePath 2 tmp 0, .go 0, .go 0, .go 1, .go 1, .go 2, .go 2]

theorem allowed_paths_threeThreads :
    ∃ world, run step (initial Nat Nat Check PathEntry Int) threeThreads = some world ∧
      world.events = [.added ⟨oRdwr, data⟩, .added ⟨oRdonly, tmp.bytes⟩, .answered ⟨tmp, 0⟩ 1] ∧
        Checked world ∧ Reaches world (addedTo world.events) := by
  have found : (run step (initial Nat Nat Check PathEntry Int) threeThreads).map State.events =
      some [.added ⟨oRdwr, data⟩, .added ⟨oRdonly, tmp.bytes⟩, .answered ⟨tmp, 0⟩ 1] := rfl
  obtain ⟨world, arrives, events⟩ := Option.map_eq_some_iff.mp found
  exact ⟨world, arrives, events, allowed_paths arrives⟩

end PeridotSw.Client.AllowedPaths

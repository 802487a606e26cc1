import Mathlib.Logic.Function.Basic

/-!
# The table of open files

`vfd_list` maps the numbers the client uses to descriptors.  A request of `fs.open`,
`fs.close` or `fs.cleanup` runs without interruption between its calls of the operating
system; such a call ends in one step, and the request goes on in a later one.  A cleanup
looks at one slot in a step.
-/

namespace PeridotSw.Client.OpenFiles

/-- A slot: `VFD_FREE`, `VFD_ALLOC`, `VFD_CANCELED` or a descriptor. -/
inductive Vfd where
  | free
  | alloc
  | canceled
  | fd (value : Nat)
  deriving DecidableEq

/-- Where a request is; in `opening`, `revoking`, `closing` and `sweepClosing` it waits for
the operating system. -/
inductive Phase where
  | unbegun
  | opening (vfd : Nat)
  | opened (vfd : Nat) (result : Option Nat)
  | revoking (fd : Nat)
  | closing (vfd fd : Nat)
  | closed (vfd fd : Nat) (ok : Bool)
  | sweeping (vfd : Nat)
  | sweepClosing (vfd fd : Nat)
  | finished
  deriving DecidableEq

/-- The table, the requests by the order in which they began, the holder of `sem_lock`, and
the descriptors that are open with the request each was opened by.  `twice` records a
close of a descriptor that was not open, `returned` how many requests had begun when a
cleanup returned. -/
structure State where
  vfdList : Nat → Vfd
  phases : Nat → Phase
  begun : Nat
  semLock : Option Nat
  opener : Nat → Option Nat
  twice : Bool
  returned : Nat → Option Nat

def initial : State where
  vfdList := fun _ => .free
  phases := fun _ => .unbegun
  begun := 0
  semLock := none
  opener := fun _ => none
  twice := false
  returned := fun _ => none

inductive Action where
  | openBegin
  | openReturns (id : Nat) (result : Option Nat)
  | openResumes (id : Nat)
  | revokeReturns (id : Nat) (ok : Bool)
  | closeBegin (vfd : Int)
  | closeReturns (id : Nat) (ok : Bool)
  | closeResumes (id : Nat)
  | cleanupBegin
  | cleanupSweeps (id : Nat)
  | sweepReturns (id : Nat) (ok : Bool)

namespace State

def setVfd (state : State) (vfd : Nat) (value : Vfd) : State :=
  { state with vfdList := Function.update state.vfdList vfd value }

def setPhase (state : State) (id : Nat) (phase : Phase) : State :=
  { state with phases := Function.update state.phases id phase }

def begin (state : State) (phase : Phase) : State :=
  { state.setPhase state.begun phase with begun := state.begun + 1 }

def osOpen (state : State) (id fd : Nat) : State :=
  { state with opener := Function.update state.opener fd (some id) }

def osClose (state : State) (fd : Nat) (ok : Bool) : State :=
  { state with
    opener := if ok then Function.update state.opener fd none else state.opener
    twice := state.twice || (state.opener fd).isNone }

end State

/-- `peridot_client_fs_alloc_vfd`, on a table of `maxFds` slots. -/
def allocVfd (maxFds : Nat) (state : State) : Option Nat :=
  (List.range maxFds).find? fun vfd => state.vfdList vfd = .free

/-- `peridot_client_fs_get_fd`. -/
def getFd (maxFds : Nat) (state : State) (vfd : Int) : Option Nat :=
  if vfd < 0 ∨ vfd ≥ maxFds then
    none
  else
    match state.vfdList vfd.toNat with
    | .fd fd => some fd
    | _ => none

/-! ## Requests -/

/-- `peridot_client_fs_open` up to the call of `open`, or its refusal for want of a slot. -/
def openBegin (maxFds : Nat) (state : State) : Option State :=
  if state.semLock = none then
    match allocVfd maxFds state with
    | some vfd => some ((state.setVfd vfd .alloc).begin (.opening vfd))
    | none => some (state.begin .finished)
  else
    none

def openReturns (state : State) (id : Nat) (result : Option Nat) : Option State :=
  match state.phases id with
  | .opening vfd =>
      match result with
      | none => some (state.setPhase id (.opened vfd none))
      | some fd =>
          if state.opener fd = none then
            some ((state.osOpen id fd).setPhase id (.opened vfd (some fd)))
          else
            none
  | _ => none

/-- `peridot_client_fs_open` behind the call of `open`. -/
def openResumes (state : State) (id : Nat) : Option State :=
  match state.phases id with
  | .opened vfd none => some ((state.setVfd vfd .free).setPhase id .finished)
  | .opened vfd (some fd) =>
      if state.vfdList vfd = .alloc then
        some ((state.setVfd vfd (.fd fd)).setPhase id .finished)
      else
        some ((state.setVfd vfd .free).setPhase id (.revoking fd))
  | _ => none

def revokeReturns (state : State) (id : Nat) (ok : Bool) : Option State :=
  match state.phases id with
  | .revoking fd => some ((state.osClose fd ok).setPhase id .finished)
  | _ => none

/-- `peridot_client_fs_close` up to the call of `close`, or its refusal. -/
def closeBegin (maxFds : Nat) (state : State) (vfd : Int) : Option State :=
  match getFd maxFds state vfd with
  | some fd => some ((state.setVfd vfd.toNat .alloc).begin (.closing vfd.toNat fd))
  | none => some (state.begin .finished)

def closeReturns (state : State) (id : Nat) (ok : Bool) : Option State :=
  match state.phases id with
  | .closing vfd fd => some ((state.osClose fd ok).setPhase id (.closed vfd fd ok))
  | _ => none

/-- `peridot_client_fs_close` behind the call of `close`. -/
def closeResumes (state : State) (id : Nat) : Option State :=
  match state.phases id with
  | .closed vfd fd ok =>
      some ((state.setVfd vfd (if ok then .free else .fd fd)).setPhase id .finished)
  | _ => none

def cleanupBegin (state : State) : Option State :=
  if state.semLock = none then
    some { state.begin (.sweeping 0) with semLock := some state.begun }
  else
    none

/-- The body of the loop of `peridot_client_fs_cleanup`, up to the call of `close`. -/
def cleanupSweeps (maxFds : Nat) (state : State) (id : Nat) : Option State :=
  match state.phases id with
  | .sweeping vfd =>
      if vfd < maxFds then
        match state.vfdList vfd with
        | .alloc => some ((state.setVfd vfd .canceled).setPhase id (.sweeping (vfd + 1)))
        | .fd fd => some ((state.setVfd vfd .free).setPhase id (.sweepClosing (vfd + 1) fd))
        | _ => some (state.setPhase id (.sweeping (vfd + 1)))
      else
        some { state.setPhase id .finished with
          semLock := none
          returned := Function.update state.returned id (some state.begun) }
  | _ => none

def sweepReturns (state : State) (id : Nat) (ok : Bool) : Option State :=
  match state.phases id with
  | .sweepClosing vfd fd => some ((state.osClose fd ok).setPhase id (.sweeping vfd))
  | _ => none

def step (maxFds : Nat) (state : State) : Action → Option State
  | .openBegin => openBegin maxFds state
  | .openReturns id result => openReturns state id result
  | .openResumes id => openResumes state id
  | .revokeReturns id ok => revokeReturns state id ok
  | .closeBegin vfd => closeBegin maxFds state vfd
  | .closeReturns id ok => closeReturns state id ok
  | .closeResumes id => closeResumes state id
  | .cleanupBegin => cleanupBegin state
  | .cleanupSweeps id => cleanupSweeps maxFds state id
  | .sweepReturns id ok => sweepReturns state id ok

end PeridotSw.Client.OpenFiles

import PeridotSw.Machine.Ledger
import PeridotSw.Machine.Transition
import PeridotSw.Client.OpenFiles

/-!
# Descriptors and their holders

A descriptor is held by a slot, or by the request that is opening or closing it; a slot
that is neither free nor holds a descriptor belongs to one request.  Every step hands
descriptors and slots on, so none is lost and none is held twice.
-/

namespace PeridotSw.Client.VfdTable

open PeridotSw.Machine.Ledger
open PeridotSw.Machine.Transition
open PeridotSw.Client.OpenFiles
open PeridotSw.Client.OpenFiles.State

/-! ## Holders -/

inductive Holder where
  | slot (vfd : Nat)
  | request (id : Nat)
  deriving DecidableEq

def vfdHeld : Vfd → Option Nat
  | .fd fd => some fd
  | _ => none

/-- The open descriptor a request answers for. -/
def phaseHeld : Phase → Option Nat
  | .opened _ result => result
  | .revoking fd => some fd
  | .closing _ fd => some fd
  | .closed _ fd ok => if ok then none else some fd
  | .sweepClosing _ fd => some fd
  | _ => none

/-- The slot a request is going to fill or free. -/
def phaseSlot : Phase → Option Nat
  | .opening vfd => some vfd
  | .opened vfd _ => some vfd
  | .closing vfd _ => some vfd
  | .closed vfd _ _ => some vfd
  | _ => none

def holding (state : State) : Holder → Option Nat
  | .slot vfd => vfdHeld (state.vfdList vfd)
  | .request id => phaseHeld (state.phases id)

def pending (state : State) (id : Nat) : Option Nat := phaseSlot (state.phases id)

def Busy (state : State) (vfd : Nat) : Prop :=
  state.vfdList vfd = .alloc ∨ state.vfdList vfd = .canceled

/-- No descriptor is in two slots, every one that is open has one holder, none was closed
twice, and without requests no slot is left over. -/
structure Accounted (state : State) : Prop where
  distinct : ∀ one other fd, state.vfdList one = .fd fd → state.vfdList other = .fd fd →
    one = other
  held : ∀ fd, state.opener fd ≠ none → ∃! holder, holding state holder = some fd
  once : state.twice = false
  settled : (∀ id, state.phases id = .unbegun ∨ state.phases id = .finished) →
    ∀ vfd, ¬Busy state vfd

/-- A close whose result is ignored succeeds. -/
def Closes : Action → Prop
  | .revokeReturns _ ok => ok = true
  | .sweepReturns _ ok => ok = true
  | _ => True

/-! ## Updates -/

variable {state next : State}

@[simp] theorem holding_setVfd (state : State) (vfd : Nat) (value : Vfd) :
    holding (state.setVfd vfd value) =
      Function.update (holding state) (.slot vfd) (vfdHeld value) := by
  funext holder
  cases holder with
  | slot other =>
      by_cases same : other = vfd <;> simp [holding, setVfd, same]
  | request id => rfl

@[simp] theorem holding_setPhase (state : State) (id : Nat) (phase : Phase) :
    holding (state.setPhase id phase) =
      Function.update (holding state) (.request id) (phaseHeld phase) := by
  funext holder
  cases holder with
  | slot vfd => rfl
  | request other =>
      by_cases same : other = id <;> simp [holding, setPhase, same]

@[simp] theorem holding_begin (state : State) (phase : Phase) :
    holding (state.begin phase) =
      Function.update (holding state) (.request state.begun) (phaseHeld phase) :=
  holding_setPhase state state.begun phase

@[simp] theorem holding_osOpen (state : State) (id fd : Nat) :
    holding (state.osOpen id fd) = holding state := rfl

@[simp] theorem holding_osClose (state : State) (fd : Nat) (ok : Bool) :
    holding (state.osClose fd ok) = holding state := rfl

@[simp] theorem pending_setPhase (state : State) (id : Nat) (phase : Phase) :
    pending (state.setPhase id phase) =
      Function.update (pending state) id (phaseSlot phase) := by
  funext other
  by_cases same : other = id <;> simp [pending, setPhase, same]

@[simp] theorem pending_begin (state : State) (phase : Phase) :
    pending (state.begin phase) =
      Function.update (pending state) state.begun (phaseSlot phase) :=
  pending_setPhase state state.begun phase

theorem busy_setVfd (state : State) (vfd other : Nat) (value : Vfd) :
    Busy (state.setVfd vfd value) other ↔
      if other = vfd then value = .alloc ∨ value = .canceled else Busy state other := by
  unfold Busy setVfd
  by_cases same : other = vfd <;> simp [same]

/-- Taking nothing from a holder that has nothing. -/
theorem update_none {Holder Item : Type} [DecidableEq Holder] {holding : Holder → Option Item}
    {holder : Holder} (empty : holding holder = none) :
    Function.update holding holder none = holding := by
  rw [← empty, Function.update_eq_self]

/-! ## The invariant -/

/-- What is in custody, with `tight` saying that this is all there is. -/
structure Table (tight : Prop) (state : State) (live : Nat → Prop) : Prop where
  descriptors : Custody (holding state) live
  slots : Custody (pending state) (Busy state)
  opened : ∀ fd, live fd → state.opener fd ≠ none
  all : tight → ∀ fd, state.opener fd ≠ none → live fd
  once : state.twice = false
  fresh : ∀ id, state.begun ≤ id → state.phases id = .unbegun

variable {tight : Prop} {live : Nat → Prop}

theorem table_initial : Table tight initial fun _ => False where
  descriptors := by
    have nobody : holding initial = fun _ => none := by
      funext holder
      cases holder <;> rfl
    rw [nobody]
    exact custody_empty
  slots := by
    have nobody : pending initial = fun _ => none := rfl
    rw [nobody]
    exact custody_empty.congr fun vfd => by simp [Busy, initial]
  opened := nofun
  all _ fd isOpen := isOpen rfl
  once := rfl
  fresh _ _ := rfl

theorem Table.holding_begun (table : Table tight state live) :
    holding state (.request state.begun) = none := by
  rw [holding, table.fresh _ (Nat.le_refl _)]
  rfl

theorem Table.pending_begun (table : Table tight state live) :
    pending state state.begun = none := by
  rw [pending, table.fresh _ (Nat.le_refl _)]
  rfl

/-- A request that has begun keeps to its number. -/
theorem fresh_setPhase (fresh : ∀ id, state.begun ≤ id → state.phases id = .unbegun) {id : Nat}
    (begun : state.phases id ≠ .unbegun) (phase : Phase) :
    ∀ other, state.begun ≤ other →
      Function.update state.phases id phase other = .unbegun := by
  intro other late
  have apart : other ≠ id := by
    rintro rfl
    exact begun (fresh _ late)
  rw [Function.update_of_ne apart]
  exact fresh other late

theorem fresh_begin (fresh : ∀ id, state.begun ≤ id → state.phases id = .unbegun)
    (phase : Phase) :
    ∀ other, state.begun + 1 ≤ other →
      Function.update state.phases state.begun phase other = .unbegun := by
  intro other late
  rw [Function.update_of_ne (by omega)]
  exact fresh other (by omega)

theorem Table.refused (table : Table tight state live) :
    Table tight (state.begin .finished) live where
  descriptors := by
    rw [holding_begin, show phaseHeld .finished = none from rfl, update_none table.holding_begun]
    exact table.descriptors
  slots := by
    rw [pending_begin, show phaseSlot .finished = none from rfl, update_none table.pending_begun]
    exact table.slots
  opened := table.opened
  all := table.all
  once := table.once
  fresh := fresh_begin table.fresh _

/-! ## Opening -/

/-- A new request marks a slot as its own. -/
theorem Table.claim (table : Table tight state live) {vfd : Nat} {phase : Phase}
    (idle : ¬Busy state vfd) (mine : phaseSlot phase = some vfd)
    (descriptors : Custody (holding ((state.setVfd vfd .alloc).begin phase)) live) :
    Table tight ((state.setVfd vfd .alloc).begin phase) live where
  descriptors := descriptors
  slots := by
    rw [pending_begin, mine]
    refine table.slots.gain table.pending_begun idle fun other => ?_
    refine (busy_setVfd state vfd other .alloc).trans ?_
    by_cases same : other = vfd <;> simp [same]
  opened := table.opened
  all := table.all
  once := table.once
  fresh := fresh_begin table.fresh _

theorem openBegin_table {maxFds : Nat} (table : Table tight state live)
    (taken : openBegin maxFds state = some next) : Table tight next live := by
  unfold openBegin at taken
  split at taken
  · split at taken
    · rename_i vfd found
      cases taken
      have free : state.vfdList vfd = .free := by
        unfold allocVfd at found
        simpa using List.find?_some found
      have empty : holding state (.slot vfd) = none := by
        rw [holding, free]
        rfl
      refine table.claim (by simp [Busy, free]) rfl ?_
      rw [holding_begin, holding_setVfd, show vfdHeld .alloc = none from rfl, update_none empty]
      exact (update_none table.holding_begun).symm ▸ table.descriptors
    · cases taken
      exact table.refused
  · cases taken

theorem Table.release (table : Table tight state live) {id vfd : Nat}
    (own : pending state id = some vfd) {value : Vfd} (free : value ≠ .alloc)
    (plain : value ≠ .canceled) :
    Custody (Function.update (pending state) id none) (Busy (state.setVfd vfd value)) := by
  refine table.slots.lose own fun other => ?_
  rw [busy_setVfd]
  by_cases same : other = vfd <;> simp [same, free, plain]

/-- A slot that belongs to a request holds no descriptor. -/
theorem Table.slot_empty (table : Table tight state live) {id vfd : Nat}
    (own : pending state id = some vfd) : holding state (.slot vfd) = none := by
  rcases table.slots.live_of_held id vfd own with alloc | canceled
  · rw [holding, alloc]
    rfl
  · rw [holding, canceled]
    rfl

/-- A request that fills or frees its slot keeps no claim on it. -/
theorem Table.settle (table : Table tight state live) {id vfd : Nat} {value : Vfd}
    {phase : Phase} (own : pending state id = some vfd) (begun : state.phases id ≠ .unbegun)
    (free : value ≠ .alloc) (plain : value ≠ .canceled) (nowhere : phaseSlot phase = none)
    (descriptors : Custody (holding ((state.setVfd vfd value).setPhase id phase)) live) :
    Table tight ((state.setVfd vfd value).setPhase id phase) live where
  descriptors := descriptors
  slots := by
    rw [pending_setPhase, nowhere]
    exact table.release own free plain
  opened := table.opened
  all := table.all
  once := table.once
  fresh := fresh_setPhase table.fresh begun _

theorem openReturns_table (table : Table tight state live) {id : Nat} {result : Option Nat}
    (taken : openReturns state id result = some next) : ∃ live', Table tight next live' := by
  unfold openReturns at taken
  split at taken
  · rename_i vfd stands
    have own : pending state id = some vfd := by rw [pending, stands]; rfl
    have empty : holding state (.request id) = none := by rw [holding, stands]; rfl
    have begun : state.phases id ≠ .unbegun := by rw [stands]; nofun
    split at taken
    · cases taken
      refine ⟨live, ?_⟩
      exact
        { descriptors := by
            rw [holding_setPhase, show phaseHeld (.opened vfd none) = none from rfl,
              update_none empty]
            exact table.descriptors
          slots := by
            rw [pending_setPhase, show phaseSlot (.opened vfd none) = pending state id from own.symm,
              Function.update_eq_self]
            exact table.slots
          opened := table.opened
          all := table.all
          once := table.once
          fresh := fresh_setPhase table.fresh begun _ }
    · rename_i fd
      split at taken
      · rename_i closed
        cases taken
        refine ⟨fun any => any = fd ∨ live any, ?_⟩
        exact
          { descriptors := by
              rw [holding_setPhase, holding_osOpen]
              exact table.descriptors.gain empty (fun alive => table.opened fd alive closed)
                fun _ => Iff.rfl
            slots := by
              rw [pending_setPhase]
              have same : pending (state.osOpen id fd) = pending state := rfl
              rw [same, show phaseSlot (.opened vfd (some fd)) = pending state id from own.symm,
                Function.update_eq_self]
              exact table.slots
            opened := by
              rintro any (rfl | alive)
              · simp [setPhase, osOpen]
              · by_cases same : any = fd
                · simp [setPhase, osOpen, same]
                · simpa [setPhase, osOpen, same] using table.opened any alive
            all := by
              intro tight any isOpen
              by_cases same : any = fd
              · exact .inl same
              · exact .inr (table.all tight any (by simpa [setPhase, osOpen, same] using isOpen))
            once := table.once
            fresh := fresh_setPhase table.fresh begun _ }
      · cases taken
  · cases taken

theorem openResumes_table (table : Table tight state live) {id : Nat}
    (taken : openResumes state id = some next) : Table tight next live := by
  unfold openResumes at taken
  split at taken
  · rename_i vfd stands
    have own : pending state id = some vfd := by rw [pending, stands]; rfl
    have empty : holding state (.request id) = none := by rw [holding, stands]; rfl
    cases taken
    refine table.settle own (by rw [stands]; nofun) nofun nofun rfl ?_
    rw [holding_setPhase, holding_setVfd, show vfdHeld .free = none from rfl,
      update_none (table.slot_empty own)]
    exact (update_none empty).symm ▸ table.descriptors
  · rename_i vfd fd stands
    have own : pending state id = some vfd := by rw [pending, stands]; rfl
    have held : holding state (.request id) = some fd := by rw [holding, stands]; rfl
    have begun : state.phases id ≠ .unbegun := by rw [stands]; nofun
    split at taken
    · cases taken
      refine table.settle own begun nofun nofun rfl ?_
      rw [holding_setPhase, holding_setVfd, Function.update_comm (by nofun)]
      exact table.descriptors.move held (table.slot_empty own)
    · cases taken
      refine table.settle own begun nofun nofun rfl ?_
      rw [holding_setPhase, holding_setVfd, show vfdHeld .free = none from rfl,
        update_none (table.slot_empty own),
        show phaseHeld (.revoking fd) = holding state (.request id) from held.symm,
        Function.update_eq_self]
      exact table.descriptors
  · cases taken

/-! ## Closing -/

theorem osClose_once (table : Table tight state live) {fd : Nat} (alive : live fd) (ok : Bool) :
    (state.osClose fd ok).twice = false := by
  have known := Option.isNone_eq_false_iff.mpr (Option.isSome_iff_ne_none.mpr (table.opened fd alive))
  simp [osClose, table.once, known]

theorem osClose_opened (table : Table tight state live) {fd : Nat} (ok : Bool) :
    ∀ any, any ≠ fd ∧ live any → (state.osClose fd ok).opener any ≠ none := by
  rintro any ⟨other, alive⟩
  have before := table.opened any alive
  cases ok with
  | true => simpa [osClose, other] using before
  | false => exact before

theorem osClose_all (table : Table tight state live) {fd : Nat} :
    tight → ∀ any, (state.osClose fd true).opener any ≠ none → any ≠ fd ∧ live any := by
  intro all any isOpen
  have other : any ≠ fd := by
    rintro rfl
    exact isOpen (by simp [osClose])
  exact ⟨other, table.all all any (by simpa [osClose, other] using isOpen)⟩

/-- The descriptor of a close whose result is ignored leaves the custody of its request. -/
theorem Table.closes (table : Table tight state live) {id fd : Nat} {ok : Bool} {phase : Phase}
    (held : holding state (.request id) = some fd) (own : pending state id = none)
    (nothing : phaseHeld phase = none) (nowhere : phaseSlot phase = none)
    (begun : state.phases id ≠ .unbegun) (closes : tight → ok = true) :
    ∃ live', Table tight ((state.osClose fd ok).setPhase id phase) live' := by
  have alive := table.descriptors.live_of_held _ fd held
  refine ⟨fun any => any ≠ fd ∧ live any, ?_⟩
  exact
    { descriptors := by
        rw [holding_setPhase, holding_osClose, nothing]
        exact table.descriptors.lose held fun _ => Iff.rfl
      slots := by
        have same : pending (state.osClose fd ok) = pending state := rfl
        rw [pending_setPhase, same, nowhere, update_none own]
        exact table.slots
      opened := osClose_opened table ok
      all := by
        intro all
        rw [closes all]
        exact osClose_all table all
      once := osClose_once table alive ok
      fresh := fresh_setPhase table.fresh begun _ }

theorem revokeReturns_table (table : Table tight state live) {id : Nat} {ok : Bool}
    (closes : tight → ok = true) (taken : revokeReturns state id ok = some next) :
    ∃ live', Table tight next live' := by
  unfold revokeReturns at taken
  split at taken
  · rename_i fd stands
    cases taken
    exact table.closes (by rw [holding, stands]; rfl) (by rw [pending, stands]; rfl) rfl rfl
      (by rw [stands]; nofun) closes
  · cases taken

theorem getFd_filled {maxFds fd : Nat} {vfd : Int} (found : getFd maxFds state vfd = some fd) :
    state.vfdList vfd.toNat = .fd fd := by
  unfold getFd at found
  split at found
  · cases found
  · split at found
    · cases found
      assumption
    · cases found

theorem closeBegin_table {maxFds : Nat} {vfd : Int} (table : Table tight state live)
    (taken : closeBegin maxFds state vfd = some next) : Table tight next live := by
  unfold closeBegin at taken
  split at taken
  · rename_i fd found
    cases taken
    have filled := getFd_filled found
    have held : holding state (.slot vfd.toNat) = some fd := by rw [holding, filled]; rfl
    refine table.claim (by simp [Busy, filled]) rfl ?_
    rw [holding_begin, holding_setVfd]
    exact table.descriptors.move held table.holding_begun
  · cases taken
    exact table.refused

theorem closeReturns_table (table : Table tight state live) {id : Nat} {ok : Bool}
    (taken : closeReturns state id ok = some next) : ∃ live', Table tight next live' := by
  unfold closeReturns at taken
  split at taken
  · rename_i vfd fd stands
    have own : pending state id = some vfd := by rw [pending, stands]; rfl
    have held : holding state (.request id) = some fd := by rw [holding, stands]; rfl
    have begun : state.phases id ≠ .unbegun := by rw [stands]; nofun
    have alive := table.descriptors.live_of_held _ fd held
    have slots : Custody (pending ((state.osClose fd ok).setPhase id (.closed vfd fd ok)))
        (Busy state) := by
      have same : pending (state.osClose fd ok) = pending state := rfl
      rw [pending_setPhase, same,
        show phaseSlot (.closed vfd fd ok) = pending state id from own.symm, Function.update_eq_self]
      exact table.slots
    cases taken
    cases ok with
    | true =>
        refine ⟨fun any => any ≠ fd ∧ live any, ?_⟩
        exact
          { descriptors := by
              rw [holding_setPhase, holding_osClose]
              exact table.descriptors.lose held fun _ => Iff.rfl
            slots := slots
            opened := osClose_opened table true
            all := osClose_all table
            once := osClose_once table alive true
            fresh := fresh_setPhase table.fresh begun _ }
    | false =>
        refine ⟨live, ?_⟩
        exact
          { descriptors := by
              rw [holding_setPhase, holding_osClose,
                show phaseHeld (.closed vfd fd false) = holding state (.request id) from held.symm,
                Function.update_eq_self]
              exact table.descriptors
            slots := slots
            opened := table.opened
            all := table.all
            once := osClose_once table alive false
            fresh := fresh_setPhase table.fresh begun _ }
  · cases taken

theorem closeResumes_table (table : Table tight state live) {id : Nat}
    (taken : closeResumes state id = some next) : Table tight next live := by
  unfold closeResumes at taken
  split at taken
  · rename_i vfd fd ok stands
    have own : pending state id = some vfd := by rw [pending, stands]; rfl
    have begun : state.phases id ≠ .unbegun := by rw [stands]; nofun
    cases taken
    cases ok with
    | true =>
        have empty : holding state (.request id) = none := by rw [holding, stands]; rfl
        refine table.settle own begun nofun nofun rfl ?_
        rw [holding_setPhase, holding_setVfd,
          show vfdHeld (if true = true then .free else .fd fd) = none from rfl,
          update_none (table.slot_empty own)]
        exact (update_none empty).symm ▸ table.descriptors
    | false =>
        have held : holding state (.request id) = some fd := by rw [holding, stands]; rfl
        refine table.settle own begun nofun nofun rfl ?_
        rw [holding_setPhase, holding_setVfd, Function.update_comm (by nofun)]
        exact table.descriptors.move held (table.slot_empty own)
  · cases taken

/-! ## Cleaning up -/

theorem cleanupBegin_table (table : Table tight state live)
    (taken : cleanupBegin state = some next) : Table tight next live := by
  unfold cleanupBegin at taken
  split at taken
  · cases taken
    exact
      { descriptors := by
          have same : holding (state.begin (.sweeping 0)) = holding state := by
            rw [holding_begin]
            exact update_none table.holding_begun
          have kept := table.descriptors
          rw [← same] at kept
          exact kept
        slots := by
          have same : pending (state.begin (.sweeping 0)) = pending state := by
            rw [pending_begin]
            exact update_none table.pending_begun
          have kept := table.slots
          rw [← same] at kept
          exact kept
        opened := table.opened
        all := table.all
        once := table.once
        fresh := fresh_begin table.fresh _ }
  · cases taken

/-- A cleanup changes a slot it has no claim on, which stays claimed or unclaimed. -/
theorem Table.sweep (table : Table tight state live) {id vfd : Nat} {value : Vfd}
    {phase : Phase} (free : pending state id = none) (begun : state.phases id ≠ .unbegun)
    (still : value = .alloc ∨ value = .canceled ↔ Busy state vfd)
    (nowhere : phaseSlot phase = none)
    (descriptors : Custody (holding ((state.setVfd vfd value).setPhase id phase)) live) :
    Table tight ((state.setVfd vfd value).setPhase id phase) live where
  descriptors := descriptors
  slots := by
    rw [pending_setPhase, nowhere]
    have kept := update_none free ▸ table.slots
    refine kept.congr fun other => ?_
    refine (busy_setVfd state vfd other value).trans ?_
    by_cases same : other = vfd
    · rw [if_pos same, same, still]
    · rw [if_neg same]
  opened := table.opened
  all := table.all
  once := table.once
  fresh := fresh_setPhase table.fresh begun _

theorem cleanupSweeps_table {maxFds : Nat} (table : Table tight state live) {id : Nat}
    (taken : cleanupSweeps maxFds state id = some next) : Table tight next live := by
  unfold cleanupSweeps at taken
  split at taken
  · rename_i vfd stands
    have free : pending state id = none := by rw [pending, stands]; rfl
    have empty : holding state (.request id) = none := by rw [holding, stands]; rfl
    have begun : state.phases id ≠ .unbegun := by rw [stands]; nofun
    have idle (phase : Phase) (nothing : phaseHeld phase = none) :
        holding (state.setPhase id phase) = holding state := by
      rw [holding_setPhase, nothing, update_none empty]
    have nowhere (phase : Phase) (slot : phaseSlot phase = none) :
        pending (state.setPhase id phase) = pending state := by
      rw [pending_setPhase, slot, update_none free]
    split at taken
    · split at taken
      · rename_i alloc
        cases taken
        have slot : holding state (.slot vfd) = none := by rw [holding, alloc]; rfl
        refine table.sweep free begun (by simp [Busy, alloc]) rfl ?_
        rw [holding_setPhase, holding_setVfd, show vfdHeld .canceled = none from rfl,
          update_none slot]
        exact (update_none empty).symm ▸ table.descriptors
      · rename_i fd filled
        cases taken
        have held : holding state (.slot vfd) = some fd := by rw [holding, filled]; rfl
        refine table.sweep free begun (by simp [Busy, filled]) rfl ?_
        rw [holding_setPhase, holding_setVfd]
        exact table.descriptors.move held empty
      · cases taken
        exact
          { descriptors := idle (.sweeping (vfd + 1)) rfl ▸ table.descriptors
            slots := nowhere (.sweeping (vfd + 1)) rfl ▸ table.slots
            opened := table.opened
            all := table.all
            once := table.once
            fresh := fresh_setPhase table.fresh begun _ }
    · cases taken
      exact
        { descriptors := idle .finished rfl ▸ table.descriptors
          slots := nowhere .finished rfl ▸ table.slots
          opened := table.opened
          all := table.all
          once := table.once
          fresh := fresh_setPhase table.fresh begun _ }
  · cases taken

theorem sweepReturns_table (table : Table tight state live) {id : Nat} {ok : Bool}
    (closes : tight → ok = true) (taken : sweepReturns state id ok = some next) :
    ∃ live', Table tight next live' := by
  unfold sweepReturns at taken
  split at taken
  · rename_i vfd fd stands
    cases taken
    exact table.closes (by rw [holding, stands]; rfl) (by rw [pending, stands]; rfl) rfl rfl
      (by rw [stands]; nofun) closes
  · cases taken

/-! ## Runs -/

theorem step_table {maxFds : Nat} {action : Action} (table : Table tight state live)
    (closes : tight → Closes action) (taken : step maxFds state action = some next) :
    ∃ live', Table tight next live' := by
  cases action with
  | openBegin => exact ⟨live, openBegin_table table taken⟩
  | openReturns id result => exact openReturns_table table taken
  | openResumes id => exact ⟨live, openResumes_table table taken⟩
  | revokeReturns id ok => exact revokeReturns_table table closes taken
  | closeBegin vfd => exact ⟨live, closeBegin_table table taken⟩
  | closeReturns id ok => exact closeReturns_table table taken
  | closeResumes id => exact ⟨live, closeResumes_table table taken⟩
  | cleanupBegin => exact ⟨live, cleanupBegin_table table taken⟩
  | cleanupSweeps id => exact ⟨live, cleanupSweeps_table table taken⟩
  | sweepReturns id ok => exact sweepReturns_table table closes taken

theorem Table.accounted (table : Table True state live) : Accounted state where
  distinct one other fd first second := by
    have same := table.descriptors.single (.slot one) (.slot other) fd
      (by rw [holding, first]; rfl) (by rw [holding, second]; rfl)
    exact Holder.slot.inj same
  held fd isOpen := table.descriptors.existsUnique (table.all trivial fd isOpen)
  once := table.once
  settled idle vfd busy := by
    obtain ⟨id, own⟩ := table.slots.kept vfd busy
    rcases idle id with unbegun | finished
    · rw [pending, unbegun] at own
      cases own
    · rw [pending, finished] at own
      cases own

/-- As long as the closes nobody checks succeed, every descriptor is accounted for in every
state of every run. -/
theorem vfdList_accounted {maxFds : Nat} {actions : List Action}
    (closes : Each (step maxFds) (fun _ action => Closes action) initial actions) :
    Always (step maxFds) Accounted initial actions := by
  have kept (state : State) (action : Action) (next : State)
      (holds : ∃ live, Table True state live) (closes : Closes action)
      (taken : step maxFds state action = some next) : ∃ live, Table True next live := by
    obtain ⟨live, table⟩ := holds
    exact step_table table (fun _ => closes) taken
  exact (always_of_each kept ⟨_, table_initial⟩ closes).mono
    fun state ⟨live, table⟩ => table.accounted

def cutOpenRun : List Action :=
  [.openBegin, .openReturns 0 (some 3), .cleanupBegin, .cleanupSweeps 1, .cleanupSweeps 1,
    .openResumes 0, .revokeReturns 0 true]

theorem vfdList_accounted_cutOpen : Always (step 1) Accounted initial cutOpenRun :=
  vfdList_accounted (by simp [cutOpenRun, Each, Closes])

end PeridotSw.Client.VfdTable

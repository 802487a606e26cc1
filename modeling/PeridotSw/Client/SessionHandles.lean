import PeridotSw.Client.Session
import PeridotSw.Machine.Handles

/-!
# What a session does for its handles

To the host a file is a number.  Behind it is a descriptor that was opened for this number, by
way of a path that may be opened; the file service asks the system for nothing else.
-/

namespace PeridotSw.Client.SessionHandles

open PeridotSw.Machine.Memory
open PeridotSw.Machine.Word
open PeridotSw.Machine.Noted
open PeridotSw.Machine.Transition
open PeridotSw.Machine.Handles
open PeridotSw.Bson.Read
open PeridotSw.Bson.Pointers
open PeridotSw.Client.Handlers
open PeridotSw.Client.Paths
open PeridotSw.Client.Session
open PeridotSw.Rpc.Reply (offsetAt)

/-! ## Handles and descriptors -/

abbrev FileDeed : Type := Deed Nat Int OpenCall FileCall

def osCall : FileDeed → OsCall
  | .attempt call => .opens call
  | .grant _ _ call => .opens call
  | .use _ fd call => .file fd call
  | .drop _ fd => .file fd .close

def bound (vfdList : List Int) (vfd : Nat) : Option Int := vfdList[vfd]?.filter (0 ≤ ·)

/-- Between two requests the slots are free, or hold descriptors. -/
structure Settled (config : Config) (vfdList : List Int) : Prop where
  length : vfdList.length = config.maxFds
  slots : ∀ fd ∈ vfdList, fd = vfdFree ∨ 0 ≤ fd

def Authorised (config : Config) (call : OpenCall) : Prop :=
  peridotClientFsValidatePath config.entries call.path (unsigned call.flags) ≠ 0

def named (request : Request) : Int :=
  (getInt32 request.memories request.params
    (offsetAt (getProps request.memories request.params request.keys).value.2 0) (-1)).value

/-- What is done for a request, by its method and what is answered. -/
inductive Done (request : Request) : Outcome → List FileDeed → Prop where
  | refused (errno : Int32) : Done request (failed errno) []
  | attempted (method : request.method = .fsOpen) (errno : Int32) (call : OpenCall) :
      Done request (failed errno) [.attempt call]
  | granted (method : request.method = .fsOpen) (vfd fd : Nat) (call : OpenCall) :
      Done request (some (int32Result keyFd (Int32.ofNat vfd)), 0) [.grant vfd fd call]
  | closed (method : request.method = .fsClose) (vfd : Nat) (names : named request = vfd)
      (fd : Int) :
      Done request (none, 0) [.drop vfd fd]
  | kept (method : request.method = .fsClose) (vfd : Nat) (names : named request = vfd) (fd : Int)
      (errno : Int32) : Done request (none, errno) [.use vfd fd .close]
  | used (method : request.method ≠ .fsOpen ∧ request.method ≠ .fsClose ∧
        request.method ≠ .fsCleanup)
      (vfd : Nat) (names : named request = vfd) (fd : Int) (call : FileCall)
      (other : call ≠ .close) (outcome : Outcome) : Done request outcome [.use vfd fd call]
  | cleaned (method : request.method = .fsCleanup) (deeds : List FileDeed)
      (drops : ∀ deed ∈ deeds, ∃ vfd fd, deed = .drop vfd fd) : Done request (none, 0) deeds

variable {ω : Type} {config : Config} {system : System ω} {request : Request} {state : State ω}

/-! ## The table -/

theorem bound_eq {vfdList : List Int} {vfd : Nat} {fd : Int} :
    bound vfdList vfd = some fd ↔ vfdList[vfd]? = some fd ∧ 0 ≤ fd := by
  simp [bound, Option.filter_eq_some_iff]

theorem bound_set {vfdList : List Int} {vfd : Nat} (inside : vfd < vfdList.length) (value : Int) :
    bound (vfdList.set vfd value) =
      Function.update (bound vfdList) vfd (if 0 ≤ value then some value else none) := by
  funext other
  rw [Function.update_apply]
  split
  · rename_i same
    rw [bound, same, List.getElem?_set_self inside]
    simp only [Option.filter, decide_eq_true_eq]
  · rename_i distinct
    rw [bound, bound, List.getElem?_set_ne (Ne.symm distinct)]

theorem inside_of_bound {vfdList : List Int} {vfd : Nat} {fd : Int}
    (found : bound vfdList vfd = some fd) : vfd < vfdList.length := by
  obtain ⟨here, -⟩ := bound_eq.mp found
  exact (List.getElem?_eq_some_iff.mp here).1

theorem Settled.set {vfdList : List Int} (settled : Settled config vfdList) {vfd : Nat}
    {value : Int}
    (good : value = vfdFree ∨ 0 ≤ value) : Settled config (vfdList.set vfd value) where
  length := by rw [List.length_set, settled.length]
  slots fd member := by
    rcases List.mem_or_eq_of_mem_set member with old | rfl
    · exact settled.slots fd old
    · exact good

theorem settled_initial (config : Config) (os : ω) :
    Settled config (initial config os).vfdList where
  length := List.length_replicate
  slots _ member := .inl (List.eq_of_mem_replicate member)

theorem bound_initial (config : Config) (os : ω) : bound (initial config os).vfdList = nothing := by
  funext vfd
  cases found : bound (initial config os).vfdList vfd with
  | none => rfl
  | some fd =>
      obtain ⟨here, nonneg⟩ := bound_eq.mp found
      obtain rfl := List.eq_of_mem_replicate (List.mem_of_getElem? here)
      exact absurd nonneg (by decide)

/-- A free slot has no descriptor, and is inside of the table. -/
theorem allocVfd_found {vfdList : List Int} {vfd : Nat} (found : allocVfd vfdList = some vfd) :
    vfd < vfdList.length ∧ bound vfdList vfd = none := by
  obtain ⟨inside, free, -⟩ := List.findIdx?_eq_some_iff_getElem.mp found
  refine ⟨inside, ?_⟩
  have here : vfdList[vfd]? = some vfdFree := by
    rw [List.getElem?_eq_getElem inside]
    exact congrArg some (of_decide_eq_true free)
  rw [bound, here]
  rfl

/-! ## One request -/

/-- Some deeds account for a request: for what is answered, for the table and for the calls. -/
structure Accounts (config : Config) (request : Request) (state : State ω) (outcome : Outcome)
    (next : State ω) (deeds : List FileDeed) : Prop where
  done : Done request outcome deeds
  runs : run step (bound state.vfdList) deeds = some (bound next.vfdList)
  calls : next.calls = state.calls ++ deeds.map osCall
  authorised : ∀ call, .opens call ∈ deeds.map osCall → Authorised config call
  settled : Settled config next.vfdList

theorem accounts_refused (settled : Settled config state.vfdList) (errno : Int32) :
    Accounts config request state (failed errno) state [] where
  done := .refused errno
  runs := rfl
  calls := (List.append_nil _).symm
  authorised _ member := by cases member
  settled := settled

/-- `fs.open` once it has its slot: the descriptor is put there, or the slot is free again. -/
theorem accounts_openVfd (settled : Settled config state.vfdList)
    (method : request.method = .fsOpen) {vfd : Nat} (found : allocVfd state.vfdList = some vfd)
    {path : Nat} {flags mode : Int}
    (authorised : Authorised config (openCall request path flags mode)) :
    ∃ deeds, Accounts config request state
      (openVfd (outside config system request state) path flags mode vfd)
      (afterOpenVfd system state (openCall request path flags mode) vfd) deeds := by
  obtain ⟨inside, free⟩ := allocVfd_found found
  have allowed : ∀ call, OsCall.opens call ∈ [OsCall.opens (openCall request path flags mode)] →
      Authorised config call := by
    intro call member
    cases List.mem_singleton.mp member
    exact authorised
  unfold afterOpenVfd openVfd
  dsimp only [State.setVfd, State.asked, outside]
  cases (system.openFile state.os (openCall request path flags mode)).1 with
  | error errno =>
      refine ⟨[.attempt _], .attempted method errno _, ?_, rfl, allowed, ?_⟩
      · rw [List.set_set, bound_set inside, if_neg (by decide),
          Function.update_eq_self_iff.mpr free.symm]
        rfl
      · rw [List.set_set]
        exact settled.set (.inl rfl)
  | ok fd =>
      dsimp only
      rw [if_pos (List.getElem?_set_self inside)]
      refine ⟨[.grant vfd fd _], .granted method vfd fd _, ?_, rfl, allowed, ?_⟩
      · rw [List.set_set, bound_set inside, if_pos (Int.natCast_nonneg fd)]
        simp only [run, step, if_pos free]
      · rw [List.set_set]
        exact settled.set (.inr (Int.natCast_nonneg fd))

theorem accounts_open (settled : Settled config state.vfdList) (method : request.method = .fsOpen)
    (path : Nat) (flags mode : Int) :
    ∃ deeds, Accounts config request state
      (openPath (outside config system request state) path flags mode)
      (afterOpen config system request state path flags mode) deeds := by
  have validates : (outside config system request state).validatePath path flags = false ↔
      peridotClientFsValidatePath config.entries (openCall request path flags mode).path
        (unsigned flags) = 0 := by
    simp [outside, openCall]
  unfold openPath afterOpen
  by_cases refused : (outside config system request state).validatePath path flags = false
  · dsimp only
    rw [if_pos refused, if_pos (validates.mp refused)]
    exact ⟨[], accounts_refused settled eacces⟩
  dsimp only
  rw [if_neg refused, if_neg (mt validates.mpr refused)]
  change ∃ deeds, Accounts config request state
    (if request.malloc 0 _ = false then _ else _) _ deeds
  split
  · exact ⟨[], accounts_refused settled enomem⟩
  · dsimp only [outside]
    cases found : allocVfd state.vfdList with
    | none => exact ⟨[], accounts_refused settled emfile⟩
    | some vfd => exact accounts_openVfd settled method found (mt validates.mpr refused)

/-- What a request that has been read is known to name. -/
structure Named (request : Request) (state : State ω) (found : Int × Int) : Prop where
  handle : named request = found.1
  nonneg : 0 ≤ found.1
  bound : bound state.vfdList found.1.toNat = some found.2

theorem Named.names {found : Int × Int} (here : Named request state found) :
    named request = (found.1.toNat : Nat) := by
  rw [here.handle, Int.toNat_of_nonneg here.nonneg]

theorem accounts_close (settled : Settled config state.vfdList) (method : request.method = .fsClose)
    {found : Int × Int} (here : Named request state found) :
    ∃ deeds, Accounts config request state
      (none, ((outside config system request state).close found.2).getD 0)
      (afterClose system state found) deeds := by
  have inside := inside_of_bound here.bound
  have nonneg := (bound_eq.mp here.bound).2
  unfold afterClose
  dsimp only [State.setVfd, State.asked, outside]
  cases (system.close state.os found.2).1 with
  | none =>
      refine ⟨[.drop found.1.toNat found.2], .closed method _ here.names _, ?_, rfl,
        by simp [osCall], ?_⟩
      · rw [List.set_set, bound_set inside, run, step, if_pos here.bound]
        rfl
      · rw [List.set_set]
        exact settled.set (.inl rfl)
  | some errno =>
      refine ⟨[.use found.1.toNat found.2 .close], .kept method _ here.names _ _, ?_, rfl,
        by simp [osCall], ?_⟩
      · rw [List.set_set, run, step, if_pos here.bound]
        exact congrArg some ((bound_set inside found.2).trans (by
          rw [if_pos nonneg, Function.update_eq_self_iff.mpr here.bound.symm])).symm
      · rw [List.set_set]
        exact settled.set (.inr nonneg)

/-- The calls for an open file, made or not. -/
theorem accounts_call (settled : Settled config state.vfdList)
    (method : request.method ≠ .fsOpen ∧ request.method ≠ .fsClose ∧ request.method ≠ .fsCleanup)
    {found : Int × Int} (here : Named request state found) {size : Int} {call : FileCall}
    (other : call ≠ .close) (os : ω) {outcome : Outcome}
    (refuses : request.malloc 0 size = false → outcome = failed enomem) :
    ∃ deeds, Accounts config request state outcome
      (afterCall request state found.2 size call os) deeds := by
  unfold afterCall
  split
  · rename_i full
    rw [refuses full]
    exact ⟨[], accounts_refused settled enomem⟩
  · refine ⟨[.use found.1.toNat found.2 call], .used method _ here.names _ call other outcome, ?_,
      rfl,
      by simp [osCall], settled⟩
    rw [run, step, if_pos here.bound]
    rfl

/-- What turns of the loop of a cleanup have done. -/
structure Sweeps (config : Config) (state next : State ω) (count : Nat) (deeds : List FileDeed) :
    Prop where
  drops : ∀ deed ∈ deeds, ∃ vfd fd, deed = .drop vfd fd
  runs : run step (bound state.vfdList) deeds = some (bound next.vfdList)
  calls : next.calls = state.calls ++ deeds.map osCall
  settled : Settled config next.vfdList
  emptied : ∀ vfd < count, bound next.vfdList vfd = none

theorem sweep_free {vfd : Nat} (free : state.vfdList[vfd]? = some vfdFree) :
    sweep system state vfd = state := by
  unfold sweep
  rw [free]
  rfl

theorem sweep_filled {vfd : Nat} {fd : Int} (held : bound state.vfdList vfd = some fd) :
    sweep system state vfd =
      (state.setVfd vfd vfdFree).asked (.file fd .close) (system.close state.os fd).2 := by
  obtain ⟨here, filled⟩ := bound_eq.mp held
  have used : fd ≠ vfdAlloc := by
    rintro rfl
    exact absurd filled (by decide)
  unfold sweep
  rw [here]
  dsimp only
  rw [if_neg used, if_pos filled]
  rfl

theorem sweeps_succ {next : State ω} {count : Nat} {deeds : List FileDeed}
    (sweeps : Sweeps config state next count deeds) (inside : count < config.maxFds) :
    ∃ more, Sweeps config state (sweep system next count) (count + 1) more := by
  obtain ⟨drops, runs, calls, settled, emptied⟩ := sweeps
  have inside' : count < next.vfdList.length := by rw [settled.length]; exact inside
  have here := List.getElem?_eq_getElem inside'
  rcases settled.slots _ (List.getElem_mem inside') with free | filled
  · rw [free] at here
    rw [sweep_free here]
    refine ⟨deeds, drops, runs, calls, settled, fun vfd below => ?_⟩
    rcases Nat.lt_succ_iff_lt_or_eq.mp below with earlier | rfl
    · exact emptied vfd earlier
    · rw [bound, here]
      rfl
  · have held : bound next.vfdList count = some next.vfdList[count] := bound_eq.mpr ⟨here, filled⟩
    rw [sweep_filled held]
    refine ⟨deeds ++ [.drop count next.vfdList[count]], ?_, ?_, ?_, settled.set (.inl rfl), ?_⟩
    · intro deed member
      rcases List.mem_append.mp member with earlier | last
      · exact drops deed earlier
      · exact ⟨count, _, List.mem_singleton.mp last⟩
    · rw [run_append runs, run, step, if_pos held]
      exact congrArg some (bound_set inside' vfdFree).symm
    · rw [List.map_append, ← List.append_assoc, ← calls]
      rfl
    · intro vfd below
      change bound (next.vfdList.set count vfdFree) vfd = none
      rw [bound_set inside', Function.update_apply]
      split
      · rfl
      · exact emptied vfd (by omega)

theorem sweeps_all (settled : Settled config state.vfdList) {count : Nat}
    (few : count ≤ config.maxFds) :
    ∃ deeds, Sweeps config state ((List.range count).foldl (sweep system) state) count deeds := by
  induction count with
  | zero =>
      exact ⟨[], List.forall_mem_nil _, rfl, (List.append_nil _).symm, settled,
        fun _ wrong => absurd wrong (Nat.not_lt_zero _)⟩
  | succ count ih =>
      obtain ⟨deeds, sweeps⟩ := ih (Nat.le_of_succ_le few)
      rw [List.range_succ, List.foldl_append]
      exact sweeps_succ sweeps few

theorem accounts_cleanup (settled : Settled config state.vfdList)
    (method : request.method = .fsCleanup) :
    ∃ deeds, Accounts config request state (none, 0)
      ((List.range config.maxFds).foldl (sweep system) state) deeds := by
  obtain ⟨deeds, drops, runs, calls, settled', -⟩ :=
    @sweeps_all _ config system state settled _ (Nat.le_refl config.maxFds)
  refine ⟨deeds, .cleaned method deeds drops, runs, calls, fun call member => ?_, settled'⟩
  obtain ⟨deed, listed, same⟩ := List.mem_map.mp member
  obtain ⟨vfd, fd, rfl⟩ := drops deed listed
  cases same

/-! ## What has been read -/

/-- The slot and the descriptor a command is for. -/
def fileOf : Command → Option (Int × Int)
  | .openPath .. => none
  | .closeFd file => some file
  | .readFile file _ => some file
  | .hashFile file _ _ => some file
  | .writeFile file _ => some file
  | .seekFile file _ _ => some file
  | .controlFile file _ _ => some file
  | .cleanup => none

def methodOf : Command → Method
  | .openPath .. => .fsOpen
  | .closeFd _ => .fsClose
  | .readFile .. => .fsRead
  | .hashFile .. => .fsHash
  | .writeFile .. => .fsWrite
  | .seekFile .. => .fsLseek
  | .controlFile .. => .fsIoctl
  | .cleanup => .fsCleanup

/-- A command read belongs to the method, and its file is the one the request names. -/
def Reads (request : Request) (state : State ω) (result : Except Int32 Command) : Prop :=
  ∀ command, result = .ok command →
    methodOf command = request.method ∧
      ∀ file, fileOf command = some file → Named request state file

theorem reads_error (errno : Int32) : Reads request state (.error errno) := by
  intro command wrong
  cases wrong

theorem reads_ok {command : Command} (method : methodOf command = request.method)
    (names : ∀ file, fileOf command = some file → Named request state file) :
    Reads request state (.ok command) := by
  rintro _ ⟨⟩
  exact ⟨method, names⟩

theorem reads_file {command : Command} {file : Int × Int} (here : Named request state file)
    (method : methodOf command = request.method) (same : fileOf command = some file) :
    Reads request state (.ok command) := by
  refine reads_ok method fun other found => ?_
  rw [same] at found
  cases found
  exact here

theorem getFd_ok {off : Int} {file : Int × Int}
    (found : (peridotClientFsGetFd (outside config system request state) request.memories
      request.params off).value = .ok file) :
    file.1 = (getInt32 request.memories request.params off (-1)).value ∧ 0 ≤ file.1 ∧
      bound state.vfdList file.1.toNat = some file.2 := by
  unfold peridotClientFsGetFd at found
  rw [Noting.value_ite] at found
  split at found
  · cases found
  · rw [Noting.value_bind] at found
    have table : (outside config system request state).vfdList = state.vfdList := rfl
    rw [table] at found
    generalize (getInt32 request.memories request.params off (-1)).value = vfd at found
    cases here : state.vfdList[vfd.toNat]? with
    | none =>
        rw [here] at found
        cases found
    | some fd =>
        rw [here] at found
        dsimp only at found
        rw [Noting.value_ite] at found
        split at found
        · cases found
        · rename_i good
          cases found
          obtain ⟨nonneg, filled⟩ := not_or.mp good
          exact ⟨rfl, Int.not_lt.mp nonneg, bound_eq.mpr ⟨here, Int.not_lt.mp filled⟩⟩

theorem reads_readFd {rest : List Param → Int × Int → Through (Except Int32 Command)}
    (later : ∀ props file, Named request state file →
      Reads request state (rest props file).value) :
    Reads request state (readFd config system request state rest).value := by
  unfold readFd
  simp only [Noting.value_bind, Noting.value_ite]
  split
  · exact reads_error _
  · split
    · exact reads_error _
    · rename_i file found
      obtain ⟨handle, nonneg, bound⟩ := getFd_ok found
      exact later _ file ⟨handle.symm, nonneg, bound⟩

theorem reads_openPath (method : request.method = .fsOpen) (path : Nat) (flags mode : Int) :
    Reads request state (.ok (.openPath path flags mode)) :=
  reads_ok method.symm fun _ wrong => by cases wrong

theorem reads_command (config : Config) (system : System ω) (request : Request) (state : State ω) :
    Reads request state (command config system request state).value := by
  unfold command
  split
  case h_1 method =>
    simp only [Noting.value_bind, Noting.value_ite]
    split
    · exact reads_error _
    · cases (getString request.memories request.params _).value with
      | none => exact reads_error _
      | some path =>
          simp only [Noting.value_bind, Noting.value_ite]
          split
          · exact reads_error _
          · split
            · exact reads_openPath method _ _ _
            · split
              · exact reads_error _
              · exact reads_openPath method _ _ _
  case h_2 method => exact reads_readFd fun props file here => reads_file here method.symm rfl
  case h_3 method =>
    refine reads_readFd fun props file here => ?_
    simp only [Noting.value_bind, Noting.value_ite]
    split
    · exact reads_error _
    · exact reads_file here method.symm rfl
  case h_4 method =>
    refine reads_readFd fun props file here => ?_
    simp only [Noting.value_bind, Noting.value_ite]
    split
    · exact reads_error _
    · exact reads_file here method.symm rfl
  case h_5 method =>
    refine reads_readFd fun props file here => ?_
    simp only [Noting.value_bind]
    cases (getBinary request.memories request.params (offsetAt props 1)).value with
    | none => exact reads_error _
    | some binary => exact reads_file here method.symm rfl
  case h_6 method =>
    refine reads_readFd fun props file here => ?_
    simp only [Noting.value_bind, Noting.value_ite]
    split
    · exact reads_error _
    · exact reads_file here method.symm rfl
  case h_7 method =>
    refine reads_readFd fun props file here => ?_
    simp only [Noting.value_bind, Noting.value_ite]
    split
    · exact reads_error _
    · exact reads_file here method.symm rfl
  case h_8 method => exact reads_ok method.symm fun _ wrong => by cases wrong

/-! ## Every request -/

theorem accounts_execute (settled : Settled config state.vfdList) {command : Command}
    (method : methodOf command = request.method)
    (names : ∀ file, fileOf command = some file → Named request state file) :
    ∃ deeds, Accounts config request state (execute config system request state command).1
      (execute config system request state command).2 deeds := by
  cases command with
  | openPath path flags mode => exact accounts_open settled method.symm path flags mode
  | closeFd file => exact accounts_close settled method.symm (names file rfl)
  | readFile file len =>
      refine accounts_call settled (by simp [← method, methodOf]) (names file rfl)
        (by simp) _ fun full => ?_
      exact if_pos full
  | hashFile file len name =>
      refine accounts_call settled (by simp [← method, methodOf]) (names file rfl)
        (by simp) _ fun full => ?_
      exact if_pos full
  | writeFile file data =>
      refine accounts_call settled (by simp [← method, methodOf]) (names file rfl)
        (by simp) _ fun full => ?_
      exact if_pos full
  | seekFile file offset whence =>
      refine accounts_call settled (by simp [← method, methodOf]) (names file rfl)
        (by simp) _ fun full => ?_
      exact if_pos full
  | controlFile file req arg =>
      refine accounts_call settled (by simp [← method, methodOf]) (names file rfl)
        (by simp) _ fun full => ?_
      cases arg <;> exact if_pos full
  | cleanup => exact accounts_cleanup settled method.symm

theorem accounts_serve (settled : Settled config state.vfdList) (system : System ω)
    (request : Request) :
    ∃ deeds, Accounts config request state (serve config system request state).1
      (serve config system request state).2 deeds := by
  unfold serve
  have reads := reads_command config system request state
  cases result : (command config system request state).value with
  | error errno => exact ⟨[], accounts_refused settled errno⟩
  | ok command =>
      obtain ⟨method, names⟩ := reads command result
      exact accounts_execute settled method names

theorem bound_cleanup (settled : Settled config state.vfdList)
    (method : request.method = .fsCleanup) :
    bound (serve config system request state).2.vfdList = nothing := by
  obtain ⟨deeds, sweeps⟩ := @sweeps_all _ config system state settled _ (Nat.le_refl config.maxFds)
  have served : (serve config system request state).2 =
      (List.range config.maxFds).foldl (sweep system) state := by
    unfold serve command
    rw [method]
    rfl
  rw [served]
  funext vfd
  rcases Nat.lt_or_ge vfd config.maxFds with inside | outside
  · exact sweeps.emptied vfd inside
  · rw [bound, List.getElem?_eq_none (by rw [sweeps.settled.length]; exact outside)]
    rfl

/-! ## Every session -/

/-- The deeds of a session, request by request. -/
structure AccountsAll (config : Config) (state : State ω) (answers : List (Request × Outcome))
    (next : State ω) (deeds : List (List FileDeed)) : Prop where
  done : List.Forall₂ (fun answer made => Done answer.1 answer.2 made) answers deeds
  runs : run step (bound state.vfdList) deeds.flatten = some (bound next.vfdList)
  calls : next.calls = state.calls ++ deeds.flatten.map osCall
  authorised : ∀ call, .opens call ∈ deeds.flatten.map osCall → Authorised config call
  settled : Settled config next.vfdList

theorem accounts_serveAll (system : System ω) (requests : List Request) :
    ∀ state : State ω, Settled config state.vfdList →
      ∃ deeds, AccountsAll config state (serveAll config system state requests).1
        (serveAll config system state requests).2 deeds := by
  induction requests with
  | nil =>
      intro state settled
      refine ⟨[], .nil, rfl, (List.append_nil _).symm, fun call member => ?_, settled⟩
      cases member
  | cons request rest ih =>
      intro state settled
      obtain ⟨made, here⟩ := accounts_serve settled system request
      obtain ⟨deeds, later⟩ := ih _ here.settled
      refine ⟨made :: deeds, .cons here.done later.done, ?_, ?_, ?_, later.settled⟩
      · rw [List.flatten_cons, run_append here.runs]
        exact later.runs
      · rw [List.flatten_cons, List.map_append, ← List.append_assoc, ← here.calls]
        exact later.calls
      · intro call member
        rw [List.flatten_cons, List.map_append] at member
        exact (List.mem_append.mp member).elim (here.authorised call) (later.authorised call)

theorem serveAll_concat (system : System ω) (earlier : List Request) (last : Request)
    (state : State ω) :
    (serveAll config system state (earlier ++ [last])).2 =
      (serve config system last (serveAll config system state earlier).2).2 := by
  induction earlier generalizing state with
  | nil => rfl
  | cons first rest ih => exact ih _

/-- In every session, the calls made of the system are those of some deeds for the requests: a path
is opened only if it may be, a descriptor is used or closed only for a handle that was bound to it
by `fs.open` and not given up since, the table holds just the handles that are bound, and a cleanup
leaves none. -/
theorem session_handles (config : Config) (system : System ω) (os : ω) (requests : List Request) :
    let served := serveAll config system (initial config os) requests
    ∃ deeds : List (List FileDeed),
      List.Forall₂ (fun answer made => Done answer.1 answer.2 made) served.1 deeds ∧
        served.2.calls = deeds.flatten.map osCall ∧
        (∀ call, .opens call ∈ served.2.calls → Authorised config call) ∧
        (∀ before deed after, deeds.flatten = before ++ deed :: after → Justified before deed) ∧
        (∀ vfd fd, bound served.2.vfdList vfd = some fd ↔ Granted deeds.flatten vfd fd) ∧
        ∀ earlier last, requests = earlier ++ [last] → last.method = .fsCleanup →
          ∀ vfd fd, ¬Granted deeds.flatten vfd fd := by
  intro served
  obtain ⟨deeds, done, runs, calls, authorised, -⟩ :=
    accounts_serveAll system requests _ (settled_initial config os)
  rw [bound_initial] at runs
  obtain ⟨justified, granted⟩ := justified_of_run runs
  refine ⟨deeds, done, calls, fun call member => authorised call ?_, justified, granted, ?_⟩
  · rw [calls] at member
    exact member
  · rintro earlier last rfl method vfd fd wrong
    obtain ⟨_, before⟩ := accounts_serveAll system earlier _ (settled_initial config os)
    have empty : bound served.2.vfdList = nothing := by
      rw [serveAll_concat]
      exact bound_cleanup before.settled method
    rw [← granted, empty] at wrong
    cases wrong

end PeridotSw.Client.SessionHandles

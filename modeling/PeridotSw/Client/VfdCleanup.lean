import PeridotSw.Client.VfdTable

/-!
# What a cleanup leaves

A cleanup frees the slots that hold descriptors and marks those of requests in flight.  An
open honours the mark, and so does a close that succeeds; a close that fails puts its
descriptor back over the mark.
-/

namespace PeridotSw.Client.VfdCleanup

open PeridotSw.Machine.Ledger
open PeridotSw.Machine.Transition
open PeridotSw.Client.OpenFiles
open PeridotSw.Client.OpenFiles.State
open PeridotSw.Client.VfdTable

/-- After a cleanup has returned, and all that had begun by then have finished, no slot
holds a descriptor of an open that began before the cleanup. -/
def Revoked (maxFds : Nat) (state : State) : Prop :=
  ∀ cleanup count, state.returned cleanup = some count →
    (∀ id < count, state.phases id = .finished) →
    ∀ vfd < maxFds, ∀ fd, state.vfdList vfd = .fd fd →
      ∀ id, state.opener fd = some id → ¬id < cleanup

/-- The slot of a close that has failed. -/
def failedSlot : Phase → Option Nat
  | .closed vfd _ false => some vfd
  | _ => none

/-- A close that has failed goes on with its slot canceled. -/
def Revives (state : State) : Action → Prop
  | .closeResumes id => (failedSlot (state.phases id)).map state.vfdList = some .canceled
  | _ => False

instance (state : State) : (action : Action) → Decidable (Revives state action)
  | .closeResumes _ => inferInstanceAs (Decidable (_ = _))
  | .openBegin | .openReturns .. | .openResumes _ | .revokeReturns .. | .closeBegin _
  | .closeReturns .. | .cleanupBegin | .cleanupSweeps _ | .sweepReturns .. => isFalse id

/-! ## The invariant -/

/-- A descriptor opened by a request that began after the cleanup. -/
def Since (state : State) (cleanup fd : Nat) : Prop :=
  ∃ id, state.opener fd = some id ∧ cleanup < id

/-- A request that will fill its slot with such a descriptor only. -/
def Later (state : State) (cleanup id : Nat) : Prop :=
  match state.phases id with
  | .opening _ => cleanup < id
  | .opened _ _ => cleanup < id
  | .closing _ fd => Since state cleanup fd
  | .closed _ fd ok => ok = false → Since state cleanup fd
  | _ => True

/-- A slot in which nothing from before the cleanup can turn up. -/
structure Clean (state : State) (cleanup vfd : Nat) : Prop where
  filled : ∀ fd, state.vfdList vfd = .fd fd → Since state cleanup fd
  owned : state.vfdList vfd = .alloc → ∀ id, pending state id = some vfd → Later state cleanup id

/-- A cleanup that has the slots below this one behind it. -/
def PassedBy (phase : Phase) (vfd : Nat) : Prop :=
  phase = .sweeping vfd ∨ ∃ fd, phase = .sweepClosing vfd fd

def Passed (state : State) (id vfd : Nat) : Prop := PassedBy (state.phases id) vfd

def Blank (state : State) (vfd : Nat) : Prop :=
  state.vfdList vfd = .free ∨ state.vfdList vfd = .canceled

structure Swept (maxFds : Nat) (state : State) : Prop where
  table : ∃ live, Table False state live
  opened : ∀ id vfd fd, state.phases id = .opened vfd (some fd) → state.opener fd = some id
  locked : ∀ id vfd, Passed state id vfd → state.semLock = some id
  begun : ∀ cleanup, state.returned cleanup ≠ none → cleanup < state.begun
  passed : ∀ id vfd, Passed state id vfd → ∀ other < vfd, Blank state other
  clean : ∀ cleanup, state.returned cleanup ≠ none → ∀ vfd < maxFds, Clean state cleanup vfd

variable {maxFds : Nat} {state next : State}

theorem Swept.revoked (swept : Swept maxFds state) : Revoked maxFds state := by
  intro cleanup count returned _ vfd inside fd filled id opener before
  have ended : state.returned cleanup ≠ none := by rw [returned]; nofun
  obtain ⟨other, same, after⟩ := (swept.clean cleanup ended vfd inside).filled fd filled
  rw [opener] at same
  cases same
  exact Nat.lt_asymm before after

theorem swept_initial : Swept maxFds initial where
  table := ⟨_, table_initial⟩
  opened := nofun
  locked id vfd passed := by
    rcases passed with sweeping | ⟨fd, closing⟩
    · cases sweeping
    · cases closing
  begun cleanup ended := absurd rfl ended
  passed id vfd passed := by
    rcases passed with sweeping | ⟨fd, closing⟩
    · cases sweeping
    · cases closing
  clean cleanup ended := absurd rfl ended

/-- A slot that a step leaves alone stays clean if what it holds, or the request it belongs
to, does. -/
theorem Clean.frame {cleanup vfd : Nat} (clean : Clean state cleanup vfd)
    (slot : next.vfdList vfd = state.vfdList vfd)
    (since : ∀ fd, state.vfdList vfd = .fd fd → Since state cleanup fd → Since next cleanup fd)
    (later : ∀ id, pending next id = some vfd → pending state id = some vfd ∧
      (Later state cleanup id → Later next cleanup id)) : Clean next cleanup vfd where
  filled fd filled := by
    rw [slot] at filled
    exact since fd filled (clean.filled fd filled)
  owned alloc id own := by
    rw [slot] at alloc
    obtain ⟨before, kept⟩ := later id own
    exact kept (clean.owned alloc id before)

theorem Blank.clean {cleanup vfd : Nat} (blank : Blank state vfd) : Clean state cleanup vfd where
  filled fd filled := by
    rcases blank with free | canceled
    · rw [free] at filled
      cases filled
    · rw [canceled] at filled
      cases filled
  owned alloc := by
    rcases blank with free | canceled
    · rw [free] at alloc
      cases alloc
    · rw [canceled] at alloc
      cases alloc

/-- A slot that a step of another request leaves alone stays clean. -/
theorem Clean.aside {cleanup vfd id : Nat} {phase : Phase} (clean : Clean state cleanup vfd)
    (phases : next.phases = Function.update state.phases id phase)
    (openers : ∀ holder fd, holder ≠ .request id → holding state holder = some fd →
      next.opener fd = state.opener fd)
    (same : next.vfdList vfd = state.vfdList vfd) (free : phaseSlot phase ≠ some vfd) :
    Clean next cleanup vfd := by
  have since (holder : Holder) (fd : Nat) (apart : holder ≠ .request id)
      (held : holding state holder = some fd) (later : Since state cleanup fd) :
      Since next cleanup fd := by
    obtain ⟨opener, found, after⟩ := later
    exact ⟨opener, by rw [openers holder fd apart held, found], after⟩
  refine clean.frame same (fun fd filled => ?_) fun other own => ?_
  · exact since (.slot vfd) fd nofun (by rw [holding, filled]; rfl)
  · have apart : other ≠ id := by
      rintro rfl
      rw [pending, phases, Function.update_self] at own
      exact free own
    have phase_eq : next.phases other = state.phases other := by
      rw [phases, Function.update_of_ne apart]
    have holder : Holder.request other ≠ .request id := by simpa using apart
    rw [pending, phase_eq] at own
    refine ⟨own, ?_⟩
    unfold Later
    rw [phase_eq]
    cases stands : state.phases other with
    | closing slot fd => exact since _ fd holder (by rw [holding, stands]; rfl)
    | closed slot fd ok =>
        intro before failed
        refine since _ fd holder ?_ (before failed)
        rw [holding, stands, failed]
        rfl
    | _ => exact fun before => before

/-- What a step of one request, an earlier one or a new one, has to keep. -/
theorem Swept.after (swept : Swept maxFds state) {id : Nat} {phase : Phase}
    (table : ∃ live, Table False next live)
    (phases : next.phases = Function.update state.phases id phase)
    (begun : state.begun ≤ next.begun)
    (returned : ∀ cleanup, next.returned cleanup ≠ none → state.returned cleanup ≠ none ∨
      cleanup < next.begun ∧ ∀ vfd < maxFds, Blank next vfd)
    (lock : ∀ other vfd, other ≠ id → Passed state other vfd → next.semLock = some other)
    (mine : ∀ vfd, PassedBy phase vfd →
      next.semLock = some id ∧ ∀ other < vfd, Blank next other)
    (opened : ∀ vfd fd, phase = .opened vfd (some fd) → next.opener fd = some id)
    (openers : ∀ holder fd, holder ≠ .request id → holding state holder = some fd →
      next.opener fd = state.opener fd)
    (slots : ∀ vfd, next.vfdList vfd = state.vfdList vfd ∧ phaseSlot phase ≠ some vfd ∨
      Blank next vfd ∨
      (state.semLock ≠ none → ¬Blank state vfd) ∧
        ∀ cleanup, state.returned cleanup ≠ none → vfd < maxFds → Clean state cleanup vfd →
          Clean next cleanup vfd) :
    Swept maxFds next where
  table := table
  opened other vfd fd stands := by
    by_cases here : other = id
    · rw [here, phases, Function.update_self] at stands
      rw [here]
      exact opened vfd fd stands
    · rw [phases, Function.update_of_ne here] at stands
      have held : holding state (.request other) = some fd := by rw [holding, stands]; rfl
      rw [openers (.request other) fd (by simpa using here) held]
      exact swept.opened other vfd fd stands
  locked other vfd passed := by
    by_cases here : other = id
    · rw [here, Passed, phases, Function.update_self] at passed
      rw [here]
      exact (mine vfd passed).1
    · rw [Passed, phases, Function.update_of_ne here] at passed
      exact lock other vfd here passed
  begun cleanup ended := by
    rcases returned cleanup ended with before | ⟨inside, -⟩
    · exact Nat.lt_of_lt_of_le (swept.begun cleanup before) begun
    · exact inside
  passed other vfd passed below under := by
    by_cases here : other = id
    · rw [here, Passed, phases, Function.update_self] at passed
      exact (mine vfd passed).2 below under
    · rw [Passed, phases, Function.update_of_ne here] at passed
      have blank := swept.passed other vfd passed below under
      rcases slots below with ⟨same, -⟩ | after | ⟨busy, -⟩
      · rw [Blank, same]
        exact blank
      · exact after
      · have locked := swept.locked other vfd passed
        exact absurd blank (busy (by rw [locked]; exact Option.some_ne_none other))
  clean cleanup ended vfd inside := by
    rcases returned cleanup ended with before | ⟨-, blank⟩
    · have clean := swept.clean cleanup before vfd inside
      rcases slots vfd with ⟨same, free⟩ | after | ⟨-, kept⟩
      · exact clean.aside phases openers same free
      · exact after.clean
      · exact kept cleanup before inside clean
    · exact (blank vfd inside).clean

/-- A step to a phase that neither sweeps nor has just opened anything. -/
theorem Swept.calm (swept : Swept maxFds state) {id : Nat} {phase : Phase}
    (table : ∃ live, Table False next live)
    (phases : next.phases = Function.update state.phases id phase)
    (begun : state.begun ≤ next.begun) (returned : next.returned = state.returned)
    (lock : next.semLock = state.semLock)
    (calm : ∀ vfd, ¬PassedBy phase vfd ∧ ∀ fd, phase ≠ .opened vfd (some fd))
    (openers : ∀ holder fd, holder ≠ .request id → holding state holder = some fd →
      next.opener fd = state.opener fd)
    (slots : ∀ vfd, next.vfdList vfd = state.vfdList vfd ∧ phaseSlot phase ≠ some vfd ∨
      Blank next vfd ∨
      (state.semLock ≠ none → ¬Blank state vfd) ∧
        ∀ cleanup, state.returned cleanup ≠ none → vfd < maxFds → Clean state cleanup vfd →
          Clean next cleanup vfd) :
    Swept maxFds next :=
  swept.after table phases begun (fun _ ended => .inl (returned ▸ ended))
    (fun other vfd _ passed => lock.trans (swept.locked other vfd passed))
    (fun vfd passed => absurd passed (calm vfd).1)
    (fun vfd fd opened => absurd opened ((calm vfd).2 fd)) openers slots

/-! ## Steps -/

/-- The slot of a request is clean if the request is harmless. -/
theorem clean_of_later {live : Nat → Prop} (table : Table False state live) {cleanup id vfd : Nat}
    (own : pending state id = some vfd) (later : Later state cleanup id) :
    Clean state cleanup vfd where
  filled fd filled := by
    rcases table.slots.live_of_held id vfd own with alloc | canceled
    · rw [alloc] at filled
      cases filled
    · rw [canceled] at filled
      cases filled
  owned _ other same := by
    rw [table.slots.single other id vfd same own]
    exact later

/-- The slot of a request whose call of the operating system has ended. -/
theorem slot_of_returns {live live' : Nat → Prop} (table : Table False state live)
    (after : Table False next live') {id vfd : Nat} (own : pending state id = some vfd)
    (own' : pending next id = some vfd) (same : next.vfdList vfd = state.vfdList vfd)
    (later : ∀ cleanup, Later state cleanup id → Later next cleanup id) :
    Blank next vfd ∨
      (state.semLock ≠ none → ¬Blank state vfd) ∧
        ∀ cleanup, state.returned cleanup ≠ none → vfd < maxFds → Clean state cleanup vfd →
          Clean next cleanup vfd := by
  rcases table.slots.live_of_held id vfd own with alloc | canceled
  · refine .inr ⟨fun _ blank => ?_, fun cleanup _ _ clean => ?_⟩
    · rcases blank with free | canceled
      · rw [alloc] at free
        cases free
      · rw [alloc] at canceled
        cases canceled
    · exact clean_of_later after own' (later cleanup (clean.owned alloc id own))
  · exact .inl (.inr (same.trans canceled))

/-- A request that waits for nothing and owns nothing. -/
theorem Swept.refused (swept : Swept maxFds state) : Swept maxFds (state.begin .finished) := by
  obtain ⟨live, table⟩ := swept.table
  refine swept.calm ⟨live, table.refused⟩ rfl (Nat.le_succ _) rfl rfl (by simp [PassedBy])
    (fun _ _ _ _ => rfl) fun vfd => .inl ⟨rfl, by simp [phaseSlot]⟩

theorem openBegin_swept (swept : Swept maxFds state)
    (taken : openBegin maxFds state = some next) : Swept maxFds next := by
  obtain ⟨live, table⟩ := swept.table
  have after := openBegin_table table taken
  unfold openBegin at taken
  split at taken
  · rename_i unlocked
    split at taken
    · rename_i vfd found
      cases taken
      have own : pending ((state.setVfd vfd .alloc).begin (.opening vfd)) state.begun = some vfd := by
        simp [setVfd, phaseSlot]
      refine swept.calm ⟨live, after⟩ rfl (Nat.le_succ _) rfl rfl (by simp [PassedBy])
        (fun _ _ _ _ => rfl) fun other => ?_
      by_cases same : other = vfd
      · rw [same]
        refine .inr (.inr ⟨absurd unlocked, fun cleanup returned _ _ => ?_⟩)
        refine clean_of_later after own ?_
        simpa [Later, begin, setVfd, setPhase] using swept.begun cleanup returned
      · refine .inl ⟨by simp [begin, setVfd, setPhase, same], fun slot => same ?_⟩
        exact (Option.some.inj slot).symm
    · cases taken
      exact swept.refused
  · cases taken

theorem openReturns_swept (swept : Swept maxFds state) {id : Nat} {result : Option Nat}
    (taken : openReturns state id result = some next) : Swept maxFds next := by
  obtain ⟨live, table⟩ := swept.table
  obtain ⟨live', after⟩ := openReturns_table table taken
  unfold openReturns at taken
  split at taken
  · rename_i vfd stands
    have own : pending state id = some vfd := by rw [pending, stands]; rfl
    split at taken
    · cases taken
      refine swept.calm ⟨live', after⟩ rfl (Nat.le_refl _) rfl rfl (by simp [PassedBy])
        (fun _ _ _ _ => rfl) fun other => ?_
      by_cases same : other = vfd
      · rw [same]
        refine .inr (slot_of_returns table after own (by simp [phaseSlot]) rfl fun cleanup later => ?_)
        rw [Later, stands] at later
        simpa [Later, setPhase] using later
      · exact .inl ⟨rfl, fun slot => same (Option.some.inj slot).symm⟩
    · rename_i fd
      split at taken
      · rename_i closed
        cases taken
        refine swept.after ⟨live', after⟩ rfl (Nat.le_refl _) (fun _ => .inl)
          (fun other vfd _ => swept.locked other vfd) (by simp [PassedBy]) ?_ ?_ fun other => ?_
        · intro slot any same
          cases same
          simp [setPhase, osOpen]
        · intro holder any _ held
          have apart : any ≠ fd := by
            rintro rfl
            exact table.opened any (table.descriptors.live_of_held holder any held) closed
          simp [setPhase, osOpen, apart]
        · by_cases same : other = vfd
          · rw [same]
            refine .inr (slot_of_returns table after own (by simp [phaseSlot]) rfl
              fun cleanup later => ?_)
            rw [Later, stands] at later
            simpa [Later, setPhase] using later
          · exact .inl ⟨rfl, fun slot => same (Option.some.inj slot).symm⟩
      · cases taken
  · cases taken

theorem openResumes_swept (swept : Swept maxFds state) {id : Nat}
    (taken : openResumes state id = some next) : Swept maxFds next := by
  obtain ⟨live, table⟩ := swept.table
  have after := openResumes_table table taken
  unfold openResumes at taken
  split at taken
  · rename_i vfd stands
    cases taken
    refine swept.calm ⟨live, after⟩ rfl (Nat.le_refl _) rfl rfl (by simp [PassedBy])
      (fun _ _ _ _ => rfl) fun other => ?_
    by_cases same : other = vfd
    · exact .inr (.inl (.inl (by simp [setPhase, setVfd, same])))
    · exact .inl ⟨by simp [setPhase, setVfd, same], by simp [phaseSlot]⟩
  · rename_i vfd fd stands
    have own : pending state id = some vfd := by rw [pending, stands]; rfl
    split at taken
    · rename_i alloc
      cases taken
      refine swept.calm ⟨live, after⟩ rfl (Nat.le_refl _) rfl rfl (by simp [PassedBy])
        (fun _ _ _ _ => rfl) fun other => ?_
      by_cases same : other = vfd
      · rw [same]
        refine .inr (.inr ⟨fun _ => by simp [Blank, alloc], fun cleanup _ _ clean => ?_⟩)
        have later := clean.owned alloc id own
        rw [Later, stands] at later
        have opener := swept.opened id vfd fd stands
        refine ⟨fun any filled => ?_, fun busy => ?_⟩
        · simp [setPhase, setVfd] at filled
          exact ⟨id, filled ▸ opener, later⟩
        · simp [setPhase, setVfd] at busy
      · exact .inl ⟨by simp [setPhase, setVfd, same], by simp [phaseSlot]⟩
    · cases taken
      refine swept.calm ⟨live, after⟩ rfl (Nat.le_refl _) rfl rfl (by simp [PassedBy])
        (fun _ _ _ _ => rfl) fun other => ?_
      by_cases same : other = vfd
      · exact .inr (.inl (.inl (by simp [setPhase, setVfd, same])))
      · exact .inl ⟨by simp [setPhase, setVfd, same], by simp [phaseSlot]⟩
  · cases taken

/-- A close leaves the descriptors of the other holders open. -/
theorem openers_osClose {live : Nat → Prop} (table : Table False state live) {id fd : Nat}
    (held : holding state (.request id) = some fd) (ok : Bool) (holder : Holder) (any : Nat)
    (apart : holder ≠ .request id) (held' : holding state holder = some any) :
    (state.osClose fd ok).opener any = state.opener any := by
  have other : any ≠ fd := by
    rintro rfl
    exact apart (table.descriptors.single holder (.request id) any held' held)
  cases ok <;> simp [osClose, other]

theorem revokeReturns_swept (swept : Swept maxFds state) {id : Nat} {ok : Bool}
    (taken : revokeReturns state id ok = some next) : Swept maxFds next := by
  obtain ⟨live, table⟩ := swept.table
  obtain ⟨live', after⟩ := revokeReturns_table table False.elim taken
  unfold revokeReturns at taken
  split at taken
  · rename_i fd stands
    have held : holding state (.request id) = some fd := by rw [holding, stands]; rfl
    cases taken
    exact swept.calm ⟨live', after⟩ rfl (Nat.le_refl _) rfl rfl (by simp [PassedBy])
      (openers_osClose table held ok) fun other => .inl ⟨rfl, by simp [phaseSlot]⟩
  · cases taken

theorem closeBegin_swept {vfd : Int} (swept : Swept maxFds state)
    (taken : closeBegin maxFds state vfd = some next) : Swept maxFds next := by
  obtain ⟨live, table⟩ := swept.table
  have after := closeBegin_table table taken
  unfold closeBegin at taken
  split at taken
  · rename_i fd found
    cases taken
    have filled : state.vfdList vfd.toNat = .fd fd := getFd_filled found
    have own : pending ((state.setVfd vfd.toNat .alloc).begin (.closing vfd.toNat fd))
        state.begun = some vfd.toNat := by
      simp [setVfd, phaseSlot]
    refine swept.calm ⟨live, after⟩ rfl (Nat.le_succ _) rfl rfl (by simp [PassedBy])
      (fun _ _ _ _ => rfl) fun other => ?_
    by_cases same : other = vfd.toNat
    · rw [same]
      refine .inr (.inr ⟨fun _ => by simp [Blank, filled], fun cleanup _ _ clean => ?_⟩)
      refine clean_of_later after own ?_
      have phase : ((state.setVfd vfd.toNat .alloc).begin (.closing vfd.toNat fd)).phases
          state.begun = .closing vfd.toNat fd := Function.update_self ..
      rw [Later, phase]
      exact clean.filled fd filled
    · refine .inl ⟨by simp [begin, setVfd, setPhase, same], fun slot => same ?_⟩
      exact (Option.some.inj slot).symm
  · cases taken
    exact swept.refused

theorem closeReturns_swept (swept : Swept maxFds state) {id : Nat} {ok : Bool}
    (taken : closeReturns state id ok = some next) : Swept maxFds next := by
  obtain ⟨live, table⟩ := swept.table
  obtain ⟨live', after⟩ := closeReturns_table table taken
  unfold closeReturns at taken
  split at taken
  · rename_i vfd fd stands
    have own : pending state id = some vfd := by rw [pending, stands]; rfl
    have held : holding state (.request id) = some fd := by rw [holding, stands]; rfl
    cases taken
    refine swept.calm ⟨live', after⟩ rfl (Nat.le_refl _) rfl rfl (by simp [PassedBy])
      (openers_osClose table held ok) fun other => ?_
    by_cases same : other = vfd
    · rw [same]
      refine .inr (slot_of_returns table after own (by simp [phaseSlot]) rfl fun cleanup later => ?_)
      have phase : ((state.osClose fd ok).setPhase id (.closed vfd fd ok)).phases id =
          .closed vfd fd ok := Function.update_self ..
      rw [Later, stands] at later
      rw [Later, phase]
      intro failed
      obtain ⟨opener, found, since⟩ := later
      exact ⟨opener, by simpa [setPhase, osClose, failed] using found, since⟩
    · exact .inl ⟨rfl, fun slot => same (Option.some.inj slot).symm⟩
  · cases taken

/-- A close honours the mark unless it has failed. -/
theorem closeResumes_swept (swept : Swept maxFds state) {id : Nat}
    (honours : ¬Revives state (.closeResumes id)) (taken : closeResumes state id = some next) :
    Swept maxFds next := by
  obtain ⟨live, table⟩ := swept.table
  have after := closeResumes_table table taken
  unfold closeResumes at taken
  split at taken
  · rename_i vfd fd ok stands
    have own : pending state id = some vfd := by rw [pending, stands]; rfl
    cases taken
    refine swept.calm ⟨live, after⟩ rfl (Nat.le_refl _) rfl rfl (by simp [PassedBy])
      (fun _ _ _ _ => rfl) fun other => ?_
    by_cases same : other = vfd
    · rw [same]
      cases ok with
      | true => exact .inr (.inl (.inl (by simp [setPhase, setVfd])))
      | false =>
          have alloc : state.vfdList vfd = .alloc :=
            (table.slots.live_of_held id vfd own).resolve_right fun canceled =>
              honours (by
                rw [Revives, stands]
                exact congrArg some canceled)
          refine .inr (.inr ⟨fun _ => by simp [Blank, alloc], fun cleanup _ _ clean => ?_⟩)
          have later := clean.owned alloc id own
          rw [Later, stands] at later
          refine ⟨fun any filled => ?_, fun busy => ?_⟩
          · simp [setPhase, setVfd] at filled
            exact filled ▸ later rfl
          · simp [setPhase, setVfd] at busy
    · exact .inl ⟨by simp [setPhase, setVfd, same], by simp [phaseSlot]⟩
  · cases taken

theorem cleanupBegin_swept (swept : Swept maxFds state)
    (taken : cleanupBegin state = some next) : Swept maxFds next := by
  obtain ⟨live, table⟩ := swept.table
  have after := cleanupBegin_table table taken
  unfold cleanupBegin at taken
  split at taken
  · rename_i unlocked
    cases taken
    refine swept.after ⟨live, after⟩ rfl (Nat.le_succ _) (fun _ => .inl) ?_ ?_ (by simp)
      (fun _ _ _ _ => rfl) fun vfd => .inl ⟨rfl, by simp [phaseSlot]⟩
    · intro other vfd _ passed
      rw [swept.locked other vfd passed] at unlocked
      cases unlocked
    · rintro vfd (sweeping | ⟨fd, closing⟩)
      · cases sweeping
        exact ⟨rfl, by simp⟩
      · cases closing
  · cases taken

theorem blank_succ {vfd : Nat} (passed : ∀ other < vfd, Blank state other) (here : Blank next vfd)
    (same : ∀ other, other ≠ vfd → next.vfdList other = state.vfdList other) :
    ∀ other < vfd + 1, Blank next other := by
  intro other under
  by_cases last : other = vfd
  · rw [last]
    exact here
  · rw [Blank, same other last]
    exact passed other (by omega)

/-- A cleanup goes on to the next slot and leaves this one blank. -/
theorem Swept.sweep (swept : Swept maxFds state) {id vfd : Nat} {value : Vfd} {phase : Phase}
    (stands : state.phases id = .sweeping vfd)
    (table : ∃ live, Table False ((state.setVfd vfd value).setPhase id phase) live)
    (blank : value = .free ∨ value = .canceled)
    (onward : ∀ reached, PassedBy phase reached → reached = vfd + 1)
    (nowhere : phaseSlot phase = none)
    (notOpened : ∀ slot fd, phase ≠ .opened slot (some fd)) :
    Swept maxFds ((state.setVfd vfd value).setPhase id phase) := by
  have lock := swept.locked id vfd (.inl stands)
  have passed := swept.passed id vfd (.inl stands)
  have now : Blank ((state.setVfd vfd value).setPhase id phase) vfd := by
    simpa [Blank, setPhase, setVfd] using blank
  have same (other : Nat) (apart : other ≠ vfd) :
      ((state.setVfd vfd value).setPhase id phase).vfdList other = state.vfdList other := by
    simp [setPhase, setVfd, apart]
  refine swept.after table rfl (Nat.le_refl _) (fun _ => .inl)
    (fun other reached _ => swept.locked other reached) ?_
    (fun slot fd opened => absurd opened (notOpened slot fd)) (fun _ _ _ _ => rfl)
    fun other => ?_
  · intro reached behind
    rw [onward reached behind]
    exact ⟨lock, blank_succ passed now same⟩
  · by_cases here : other = vfd
    · rw [here]
      exact .inr (.inl now)
    · exact .inl ⟨same other here, by rw [nowhere]; exact (Option.some_ne_none _).symm⟩

/-- A cleanup has every slot behind it when it returns. -/
theorem cleanupSweeps_swept (swept : Swept maxFds state) {id : Nat}
    (taken : cleanupSweeps maxFds state id = some next) : Swept maxFds next := by
  obtain ⟨live, table⟩ := swept.table
  have after := cleanupSweeps_table table taken
  unfold cleanupSweeps at taken
  split at taken
  · rename_i vfd stands
    have lock := swept.locked id vfd (.inl stands)
    have passed := swept.passed id vfd (.inl stands)
    have others (other vfd : Nat) (_ : other ≠ id) := swept.locked other vfd
    split at taken
    · split at taken
      · cases taken
        refine swept.sweep stands ⟨live, after⟩ (.inr rfl) ?_ rfl (by simp)
        rintro reached (sweeping | ⟨fd, closing⟩)
        · cases sweeping
          rfl
        · cases closing
      · rename_i fd filled
        cases taken
        refine swept.sweep stands ⟨live, after⟩ (.inl rfl) ?_ rfl (by simp)
        rintro reached (sweeping | ⟨any, closing⟩)
        · cases sweeping
        · cases closing
          rfl
      · rename_i noAlloc noFd
        cases taken
        have blank : Blank state vfd := by
          cases value : state.vfdList vfd with
          | free => exact .inl value
          | canceled => exact .inr value
          | alloc => exact absurd value noAlloc
          | fd fd => exact absurd value (noFd fd)
        refine swept.after ⟨live, after⟩ rfl (Nat.le_refl _) (fun _ => .inl) others ?_ (by simp)
          (fun _ _ _ _ => rfl) fun other => .inl ⟨rfl, by simp [phaseSlot]⟩
        rintro reached (sweeping | ⟨any, closing⟩)
        · cases sweeping
          exact ⟨lock, @blank_succ state _ _ passed blank fun _ _ => rfl⟩
        · cases closing
    · rename_i outside
      cases taken
      refine swept.after ⟨live, after⟩ rfl (Nat.le_refl _) ?_ ?_ (by simp [PassedBy]) (by simp)
        (fun _ _ _ _ => rfl) fun other => .inl ⟨rfl, by simp [phaseSlot]⟩
      · intro cleanup ended
        by_cases here : cleanup = id
        · refine .inr ⟨?_, fun other inside => passed other (by omega)⟩
          rw [here]
          refine Nat.lt_of_not_le fun late => ?_
          rw [table.fresh id late] at stands
          cases stands
        · exact .inl (by simpa [here] using ended)
      · intro other reached apart closing
        have same := (swept.locked other reached closing).symm.trans lock
        exact absurd (Option.some.inj same) apart
  · cases taken

theorem sweepReturns_swept (swept : Swept maxFds state) {id : Nat} {ok : Bool}
    (taken : sweepReturns state id ok = some next) : Swept maxFds next := by
  obtain ⟨live, table⟩ := swept.table
  obtain ⟨live', after⟩ := sweepReturns_table table False.elim taken
  unfold sweepReturns at taken
  split at taken
  · rename_i vfd fd stands
    have held : holding state (.request id) = some fd := by rw [holding, stands]; rfl
    have lock := swept.locked id vfd (.inr ⟨fd, stands⟩)
    have passed := swept.passed id vfd (.inr ⟨fd, stands⟩)
    cases taken
    refine swept.after ⟨live', after⟩ rfl (Nat.le_refl _) (fun _ => .inl)
      (fun other vfd _ => swept.locked other vfd) ?_ (by simp)
      (openers_osClose table held ok) fun other => .inl ⟨rfl, by simp [phaseSlot]⟩
    rintro reached (sweeping | ⟨any, closing⟩)
    · cases sweeping
      exact ⟨lock, passed⟩
    · cases closing
  · cases taken

theorem step_swept {action : Action} (swept : Swept maxFds state)
    (honours : ¬Revives state action) (taken : step maxFds state action = some next) :
    Swept maxFds next := by
  cases action with
  | openBegin => exact openBegin_swept swept taken
  | openReturns id result => exact openReturns_swept swept taken
  | openResumes id => exact openResumes_swept swept taken
  | revokeReturns id ok => exact revokeReturns_swept swept taken
  | closeBegin vfd => exact closeBegin_swept swept taken
  | closeReturns id ok => exact closeReturns_swept swept taken
  | closeResumes id => exact closeResumes_swept swept honours taken
  | cleanupBegin => exact cleanupBegin_swept swept taken
  | cleanupSweeps id => exact cleanupSweeps_swept swept taken
  | sweepReturns id ok => exact sweepReturns_swept swept taken

/-! ## Runs -/

/-- Cleanups leave nothing behind as long as no close fails with its slot canceled. -/
theorem vfdList_revoked {actions : List Action}
    (honours : Each (step maxFds) (¬Revives · ·) initial actions) :
    Always (step maxFds) (Revoked maxFds) initial actions :=
  (always_of_each (fun _ _ _ swept honours taken => step_swept swept honours taken)
    swept_initial honours).mono fun _ swept => swept.revoked

/-- An open, a close and a cleanup between the two halves of the close. -/
def cutCloseRun (ok : Bool) : List Action :=
  [.openBegin, .openReturns 0 (some 3), .openResumes 0, .closeBegin 0, .cleanupBegin,
    .cleanupSweeps 2, .cleanupSweeps 2, .closeReturns 1 ok, .closeResumes 1]

theorem vfdList_revoked_closed : Always (step 1) (Revoked 1) initial (cutCloseRun true) :=
  vfdList_revoked (by decide)

/-- If the close fails, its descriptor is back in the table after the cleanup. -/
theorem not_revoked_failed :
    ∃ state, run (step 1) initial (cutCloseRun false) = some state ∧ ¬Revoked 1 state := by
  refine ⟨_, rfl, fun revoked => ?_⟩
  refine revoked 2 3 rfl (fun id under => ?_) 0 Nat.zero_lt_one 3 rfl 0 rfl (by decide)
  match id, under with
  | 0, _ => rfl
  | 1, _ => rfl
  | 2, _ => rfl

end PeridotSw.Client.VfdCleanup

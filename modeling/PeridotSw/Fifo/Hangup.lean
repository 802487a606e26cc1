import Mathlib.Algebra.BigOperators.Group.Finset.Basic
import Mathlib.Algebra.BigOperators.Group.Finset.Piecewise
import Mathlib.Algebra.Order.BigOperators.Group.Finset
import PeridotSw.Fifo.Ends

/-!
# Named FIFOs that hang up

A read of a FIFO without writers answers `0`, a write to one without readers `-EPIPE`.  But the
close of the last reader posts the semaphore of the readers, and that of the last writer the one
of the writers, so a thread that waits for the other end is not told that it is gone.
-/

namespace PeridotSw.Fifo.Hangup

open PeridotSw.Machine.Semaphores
open PeridotSw.Machine.Transition
open PeridotSw.Fifo.NamedFifo
open PeridotSw.Fifo.Threads
open PeridotSw.Fifo.Deadlock
open PeridotSw.Fifo.Ends

/-! ## Descriptors -/

/-- The threads at the FIFOs; the flags of the descriptors of each FIFO that are open, from the
moment they are counted to the call that closes them; and of those that have been closed. -/
structure Usage (Thread Device : Type) where
  world : World Thread Device
  opened : Device → List Nat
  closed : Device → List Nat

section

variable {Thread Device : Type}

def unused (Thread : Type) (memory : Device → NamedFifoDev) : Usage Thread Device where
  world := start Thread memory
  opened _ := []
  closed _ := []

def Gone (usage : Usage Thread Device) (access : Access) (device : Device) : Prop :=
  ∃ flags ∈ usage.closed device, Grants access flags

/-- A thread that still counts for an end of a FIFO, as `1`. -/
def leaving [DecidableEq Device] (access : Access) (device : Device) :
    Option (Position Device) → Nat
  | none => 0
  | some position =>
      if position.device = device ∧ Leaves access position.place then 1 else 0

/-- The descriptors an end counts: those that are open, and those a thread is closing. -/
def total [DecidableEq Device] [Fintype Thread] (usage : Usage Thread Device) (access : Access)
    (device : Device) : Nat :=
  (usage.opened device).countP (Grants access) +
    ∑ thread, leaving access device (usage.world.places thread)

variable [DecidableEq Device]

/-- The descriptors behind an event. -/
def Usage.note (usage : Usage Thread Device) (world : World Thread Device) :
    Event Thread (Call Device) → Usage Thread Device
  | .enter _ (.namedFifoClose device fd) =>
      { world := world
        opened := Function.update usage.opened device ((usage.opened device).erase fd.fdFlags)
        closed := Function.update usage.closed device (fd.fdFlags :: usage.closed device) }
  | .enter _ _ => { usage with world := world }
  | .go thread =>
      match usage.world.places thread with
      | some ⟨device, .openLock flags⟩ =>
          { usage with
            world := world
            opened := Function.update usage.opened device (flags :: usage.opened device) }
      | _ => { usage with world := world }

def useStep [DecidableEq Thread] (usage : Usage Thread Device)
    (event : Event Thread (Call Device)) : Option (Usage Thread Device) :=
  (Machine.Semaphores.step program usage.world event).map fun world => usage.note world event

/-- Only an open descriptor is closed, and no more are opened than the counters can count. -/
def Proper (usage : Usage Thread Device) : Event Thread (Call Device) → Prop
  | .enter _ (.namedFifoClose device fd) => fd.fdFlags ∈ usage.opened device
  | .enter _ _ => True
  | .go thread => ∀ device flags, usage.world.places thread = some ⟨device, .openLock flags⟩ →
      ∀ access, countOf access (usage.world.memory device) + 1 < 2 ^ 16

/-- Nothing is transferred, and a token of an end is there only when one has been closed. -/
structure Calm (usage : Usage Thread Device) : Prop where
  idle : ∀ device, Idle (usage.world.memory device)
  short : ∀ thread position, usage.world.places thread = some position → Short position.place
  closes : ∀ thread device place fd, usage.world.places thread = some ⟨device, place⟩ →
    Closes fd place → fd.fdFlags ∈ usage.closed device
  signalled : ∀ access device,
    (0 < usage.world.tokens (device, semaphoreOf access) ∨
      ∃ thread place, usage.world.places thread = some ⟨device, place⟩ ∧ Signals access place) →
    Gone usage access device

/-- An end is counted rightly, and its flag is set behind the last close. -/
structure Tallied [Fintype Thread] (usage : Usage Thread Device) (access : Access)
    (device : Device) : Prop where
  counted : countOf access (usage.world.memory device) = total usage access device
  small : countOf access (usage.world.memory device) < 2 ^ 16
  flagged : closedOf access (usage.world.memory device) = true ↔
    countOf access (usage.world.memory device) = 0 ∧ Gone usage access device

/-! ## The sum over the threads -/

variable [Fintype Thread] [DecidableEq Thread]

omit [DecidableEq Device] in
/-- A sum over the threads of which one changes its value. -/
theorem sum_update {Value : Type} (weight : Value → Nat) (values : Thread → Value)
    (thread : Thread) (new : Value) :
    ∑ other, weight (Function.update values thread new other) + weight (values thread) =
      ∑ other, weight (values other) + weight new := by
  have moved : (fun other => weight (Function.update values thread new other)) =
      Function.update (fun other => weight (values other)) thread (weight new) := by
    funext other
    by_cases same : other = thread
    · subst same
      simp only [Function.update_self]
    · simp only [Function.update_of_ne same]
  rw [moved, Finset.sum_update_of_mem (Finset.mem_univ thread),
    Finset.sum_eq_add_sum_sdiff_singleton_of_mem (Finset.mem_univ thread)
      fun other => weight (values other)]
  omega

omit [DecidableEq Thread] in
theorem leaving_le_sum (access : Access) (device : Device)
    (places : Thread → Option (Position Device)) (thread : Thread) :
    leaving access device (places thread) ≤ ∑ other, leaving access device (places other) :=
  Finset.single_le_sum (f := fun other => leaving access device (places other))
    (fun _ _ => Nat.zero_le _) (Finset.mem_univ thread)

/-! ## Steps -/

variable {usage : Usage Thread Device} {thread : Thread} {device : Device} {place : Place}

omit [Fintype Thread] [DecidableEq Thread] in
theorem note_open {flags : Nat} (world : World Thread Device)
    (here : usage.world.places thread = some ⟨device, .openLock flags⟩) :
    usage.note world (.go thread) =
      { usage with
        world := world
        opened := Function.update usage.opened device (flags :: usage.opened device) } := by
  rw [Usage.note, here]

omit [Fintype Thread] [DecidableEq Thread] in
theorem note_other (world : World Thread Device)
    (here : usage.world.places thread = some ⟨device, place⟩)
    (other : ∀ flags, place ≠ .openLock flags) :
    usage.note world (.go thread) = { usage with world := world } := by
  rw [Usage.note, here]
  cases place with
  | openLock flags => exact absurd rfl (other flags)
  | _ => rfl

omit [Fintype Thread] [DecidableEq Thread] in
theorem note_world (usage : Usage Thread Device) (world : World Thread Device)
    (event : Event Thread (Call Device)) : (usage.note world event).world = world := by
  cases event with
  | enter thread call => cases call <;> rfl
  | go thread =>
      rw [Usage.note]
      split <;> rfl

omit [Fintype Thread] [DecidableEq Thread] in
/-- Nothing is closed but by the call of a close. -/
theorem note_closed (usage : Usage Thread Device) (world : World Thread Device) (thread : Thread) :
    (usage.note world (.go thread)).closed = usage.closed := by
  rw [Usage.note]
  split <;> rfl

omit [Fintype Thread] [DecidableEq Thread] in
theorem mem_note_closed {flags : Nat} (closed : flags ∈ usage.closed device)
    (world : World Thread Device) (event : Event Thread (Call Device)) :
    flags ∈ (usage.note world event).closed device := by
  cases event with
  | go thread =>
      rw [note_closed]
      exact closed
  | enter thread call =>
      cases call with
      | namedFifoClose other fd =>
          change flags ∈ Function.update usage.closed other _ device
          by_cases same : device = other
          · subst same
            rw [Function.update_self]
            exact List.mem_cons_of_mem _ closed
          · rw [Function.update_of_ne same]
            exact closed
      | _ => exact closed

omit [Fintype Thread] [DecidableEq Thread] in
theorem Gone.note {access : Access} (gone : Gone usage access device)
    (world : World Thread Device) (event : Event Thread (Call Device)) :
    Gone (usage.note world event) access device := by
  obtain ⟨flags, closed, grants⟩ := gone
  exact ⟨flags, mem_note_closed closed world event, grants⟩

omit [Fintype Thread] [DecidableEq Thread] in
/-- A token is there behind an operation: it was, or the operation posts the semaphore. -/
theorem tokens_before {tokens : Device × Semaphore → Nat} {operation : SemOp} {other : Device}
    {semaphore : Semaphore} (passes : (onDevice device operation).Passes tokens)
    (free : 0 < (onDevice device operation).apply tokens (other, semaphore)) :
    0 < tokens (other, semaphore) ∨ device = other ∧ operation = .post semaphore := by
  by_cases posts : onDevice device operation = .post (other, semaphore)
  · exact .inr (onDevice_post posts)
  by_cases pends : onDevice device operation = .pend (other, semaphore)
  · rw [pends] at passes
    exact .inl passes
  · exact .inl (Nat.lt_of_lt_of_eq free (Operation.apply_other tokens pends posts))

variable {next : World Thread Device}

omit [Fintype Thread] in
/-- Nothing comes into motion where nothing moves. -/
theorem Calm.go (calm : Calm usage)
    (taken : Machine.Semaphores.step program usage.world
      (.go thread : Event Thread (Call Device)) = some next) :
    Calm (usage.note next (.go thread)) := by
  have world := note_world usage next (.go thread)
  have came {other : Thread} {position : Position Device}
      (there : next.places other = some position) :
      usage.world.places other = some position ∨
        other = thread ∧ ∃ before, usage.world.places other = some ⟨position.device, before⟩ ∧
          (before.next (usage.world.memory position.device)).2.place = some position.place := by
    rcases step_places taken there with stayed | ⟨call, ⟨⟩, -⟩ | ⟨⟨device, before⟩, ⟨⟩, here, goes⟩
    · exact .inl stayed
    · obtain ⟨later, onto, rfl⟩ := Option.map_eq_some_iff.mp goes
      exact .inr ⟨rfl, before, here, onto⟩
  rcases step_cases taken with ⟨_, _, ⟨⟩, -⟩ | ⟨_, ⟨device, place⟩, ⟨⟩, here, passes, whole⟩
  constructor
  · intro other
    rw [world, whole]
    by_cases same : other = device
    · subst same
      have still := (sameRing_next (calm.idle other) (calm.short thread _ here)).idle
        (calm.idle other)
      exact (congrArg Idle (Function.update_self ..)).mpr still
    · exact (congrArg Idle (Function.update_of_ne same _ _)).mpr (calm.idle other)
  · intro other position there
    rw [world] at there
    rcases came there with stayed | ⟨rfl, before, found, goes⟩
    · exact calm.short other position stayed
    · exact short_next (calm.idle _) (calm.short other _ found) goes
  · intro other device' place' fd there closes
    rw [world] at there
    refine mem_note_closed ?_ next (.go thread)
    rcases came there with stayed | ⟨rfl, before, found, goes⟩
    · exact calm.closes other device' place' fd stayed closes
    · exact calm.closes other device' before fd found
        (closes_before (calm.idle device') (calm.short other _ found) goes closes)
  · intro access device' signalled
    rw [world] at signalled
    refine Gone.note ?_ next (.go thread)
    rcases signalled with free | ⟨other, place', there, signals⟩
    · rw [whole] at free
      rcases tokens_before passes free with free | ⟨rfl, posts⟩
      · exact calm.signalled access device' (.inl free)
      · have signals := signals_of_post (calm.short thread _ here) posts
        exact calm.signalled access device (.inr ⟨thread, place, here, signals⟩)
    · rcases came there with stayed | ⟨rfl, before, found, goes⟩
      · exact calm.signalled access device' (.inr ⟨other, place', stayed, signals⟩)
      rcases signals_before (calm.idle device') (calm.short other _ found) goes signals with
        pends | ⟨fd, closes, grants⟩
      · cases here.symm.trans found
        refine calm.signalled access device' (.inl ?_)
        change (onDevice device' place.semOp).Passes usage.world.tokens at passes
        rw [pends] at passes
        exact passes
      · exact ⟨fd.fdFlags, calm.closes other device' before fd found closes, grants⟩

/-! ## Counts behind a step -/

omit [Fintype Thread] [DecidableEq Thread] in
theorem leaving_place (access : Access) (device : Device) (place : Place) :
    leaving access device (some ⟨device, place⟩) = if Leaves access place then 1 else 0 := by
  simp [leaving]

omit [Fintype Thread] [DecidableEq Thread] in
theorem leaving_after {access : Access} {onward : Option Place} {leaves : Prop} [Decidable leaves]
    (same : (∃ later, onward = some later ∧ Leaves access later) ↔ leaves) :
    leaving access device (onward.map (Position.mk device)) = if leaves then 1 else 0 := by
  cases onward with
  | none => exact (if_neg fun held => by
      obtain ⟨later, goes, -⟩ := same.mpr held
      cases goes).symm
  | some later =>
      refine (leaving_place access device later).trans (if_congr ?_ rfl rfl)
      rw [← same]
      exact ⟨fun held => ⟨later, rfl, held⟩, fun ⟨_, goes, held⟩ => Option.some.inj goes ▸ held⟩

omit [Fintype Thread] [DecidableEq Thread] in
theorem leaving_other (access : Access) {device other : Device} (different : other ≠ device)
    (onward : Option Place) : leaving access other (onward.map (Position.mk device)) = 0 := by
  cases onward with
  | none => rfl
  | some place => exact if_neg fun both => different both.1.symm

theorem sum_go (taken : next = usage.world.proceed program thread ⟨device, place⟩)
    (here : usage.world.places thread = some ⟨device, place⟩) (access : Access) (other : Device) :
    ∑ known, leaving access other (next.places known) +
        leaving access other (some ⟨device, place⟩) =
      ∑ known, leaving access other (usage.world.places known) +
        leaving access other
          ((place.next (usage.world.memory device)).2.place.map (Position.mk device)) := by
  subst taken
  rw [← here]
  exact sum_update (leaving access other) usage.world.places thread _

theorem Tallied.other {access : Access} {other : Device} (tallied : Tallied usage access other)
    (different : other ≠ device) (here : usage.world.places thread = some ⟨device, place⟩)
    (taken : next = usage.world.proceed program thread ⟨device, place⟩) :
    Tallied (usage.note next (.go thread)) access other := by
  have closed := note_closed usage next thread
  have world := note_world usage next (.go thread)
  have memory : next.memory other = usage.world.memory other := by
    rw [taken]
    exact Function.update_of_ne different _ _
  have opened : (usage.note next (.go thread)).opened other = usage.opened other := by
    by_cases opens : ∃ flags, place = .openLock flags
    · obtain ⟨flags, rfl⟩ := opens
      rw [note_open next here]
      exact Function.update_of_ne different _ _
    · rw [note_other next here (not_exists.mp opens)]
  have sum := sum_go taken here access other
  rw [leaving_other access different, show leaving access other (some ⟨device, place⟩) = 0 from
    leaving_other access different (some place)] at sum
  have same : total (usage.note next (.go thread)) access other = total usage access other := by
    rw [total, total, opened, world]
    exact congrArg _ sum
  constructor
  · rw [world, memory, same]
    exact tallied.counted
  · rw [world, memory]
    exact tallied.small
  · rw [world, memory, Gone, closed]
    exact tallied.flagged

theorem Tallied.open {access : Access} (tallied : Tallied usage access device) {flags : Nat}
    (here : usage.world.places thread = some ⟨device, .openLock flags⟩)
    (taken : next = usage.world.proceed program thread ⟨device, .openLock flags⟩)
    (room : countOf access (usage.world.memory device) + 1 < 2 ^ 16) :
    Tallied (usage.note next (.go thread)) access device := by
  have memory : next.memory device = namedFifoOpen (usage.world.memory device) flags := by
    rw [taken]
    exact Function.update_self ..
  obtain ⟨count, closed⟩ := namedFifoOpen_counts access flags room
  have sum := sum_go taken here access device
  have here' : leaving access device (some ⟨device, .openLock flags⟩) = 0 := by
    rw [leaving_place, if_neg (by cases access <;> exact id)]
  have there : leaving access device
      (((Place.openLock flags).next (usage.world.memory device)).2.place.map
        (Position.mk device)) = 0 :=
    (leaving_place access device .openUnlock).trans (if_neg (by cases access <;> exact id))
  rw [here', there] at sum
  have more : total (usage.note next (.go thread)) access device =
      total usage access device + if Grants access flags then 1 else 0 := by
    rw [note_open next here, total, total]
    simp only [Function.update_self, List.countP_cons, decide_eq_true_eq]
    omega
  rw [note_open next here] at more ⊢
  constructor
  · rw [memory, count, more, tallied.counted]
  · rw [memory, count]
    split <;> omega
  · change closedOf access (next.memory device) = true ↔
      countOf access (next.memory device) = 0 ∧ Gone usage access device
    rw [memory, count, closed]
    by_cases grants : Grants access flags
    · simp [grants]
    · simpa [grants] using tallied.flagged

theorem Tallied.proceed {access : Access} (calm : Calm usage)
    (tallied : Tallied usage access device)
    (here : usage.world.places thread = some ⟨device, place⟩)
    (taken : next = usage.world.proceed program thread ⟨device, place⟩)
    (other : ∀ flags, place ≠ .openLock flags) :
    Tallied (usage.note next (.go thread)) access device := by
  have memory : next.memory device = (place.next (usage.world.memory device)).1 := by
    rw [taken]
    exact Function.update_self ..
  have sum := sum_go taken here access device
  have sumOf : total { usage with world := next } access device =
      (usage.opened device).countP (Grants access) +
        ∑ known, leaving access device (next.places known) := rfl
  have most := leaving_le_sum access device usage.world.places thread
  have before := tallied.counted
  have small := tallied.small
  rw [total] at before
  rw [here] at most
  rw [leaving_place] at sum most
  have short : Short place := calm.short thread _ here
  rw [note_other next here other]
  rcases (next_cases access (calm.idle device) short).resolve_left
    (not_exists.mpr other) with kept | dropped
  · rw [leaving_after kept.leaves] at sum
    constructor
    · rw [memory, kept.count, sumOf]
      omega
    · rw [memory, kept.count]
      exact small
    · rw [memory, kept.count, kept.closed]
      exact tallied.flagged
  · have gone : Gone usage access device := by
      obtain ⟨fd, closes, grants⟩ := leaves_closes dropped.leaves
      exact ⟨fd.fdFlags, calm.closes thread device place fd here closes, grants⟩
    rw [if_pos dropped.leaves] at sum most
    have nobody : (∃ later, (place.next (usage.world.memory device)).2.place = some later ∧
        Leaves access later) ↔ False :=
      iff_of_false (fun ⟨later, goes, leaves⟩ => dropped.stays later goes leaves) id
    rw [leaving_after nobody, if_false] at sum
    have counts : 0 < countOf access (usage.world.memory device) := by omega
    have notClosed : closedOf access (usage.world.memory device) = false := by
      rw [Bool.eq_false_iff]
      intro flag
      exact absurd (tallied.flagged.mp flag).1 (Nat.pos_iff_ne_zero.mp counts)
    have less := oneLess_of_pos counts small
    constructor
    · rw [memory, dropped.count, less, sumOf]
      omega
    · rw [memory, dropped.count, less]
      omega
    · rw [memory, dropped.count, dropped.closed, less, notClosed, Bool.false_or, beq_iff_eq]
      exact ⟨fun last => ⟨last, gone⟩, And.left⟩

/-! ## Calls -/

omit [Fintype Thread] [DecidableEq Thread] in
theorem note_begin {call : Call Device} (world : World Thread Device) (thread : Thread)
    (others : ∀ device fd, call ≠ .namedFifoClose device fd) :
    usage.note world (.enter thread call) = { usage with world := world } := by
  cases call with
  | namedFifoClose device fd => exact absurd rfl (others device fd)
  | _ => rfl

omit [Fintype Thread] in
/-- A call begins at a place that is none of the others. -/
theorem Calm.enter (calm : Calm usage) {call : Call Device}
    (taken : Machine.Semaphores.step program usage.world (.enter thread call) = some next) :
    Calm (usage.note next (.enter thread call)) := by
  have world := note_world usage next (.enter thread call)
  have came {other : Thread} {position : Position Device}
      (there : next.places other = some position) :
      usage.world.places other = some position ∨ call.first = some position := by
    rcases step_places taken there with stayed | ⟨_, ⟨⟩, begins⟩ | ⟨_, ⟨⟩, -⟩
    · exact .inl stayed
    · exact .inr begins
  rcases step_cases taken with ⟨_, _, ⟨⟩, -, whole⟩ | ⟨_, _, ⟨⟩, -⟩
  constructor
  · intro device
    rw [world, whole]
    exact calm.idle device
  · intro other position there
    rw [world] at there
    rcases came there with stayed | begins
    · exact calm.short other position stayed
    · rcases first_cases begins with ⟨_, place⟩ | ⟨_, place⟩ | ⟨_, _, place⟩ |
        ⟨_, _, _, place, -⟩ <;>
      · rw [place]
        exact trivial
  · intro other device place fd there closes
    rw [world] at there
    rcases came there with stayed | begins
    · exact mem_note_closed (calm.closes other device place fd stayed closes) _ _
    · obtain rfl := closes_first begins closes
      change fd.fdFlags ∈ Function.update usage.closed device _ device
      rw [Function.update_self]
      exact List.mem_cons_self
  · rintro access device (free | ⟨other, place, there, signals⟩)
    · rw [world, whole] at free
      exact (calm.signalled access device (.inl free)).note _ _
    · rw [world] at there
      rcases came there with stayed | begins
      · exact (calm.signalled access device (.inr ⟨other, place, stayed, signals⟩)).note _ _
      · exact absurd signals (not_signals_first begins access)

theorem sum_enter {call : Call Device} (outside : usage.world.places thread = none)
    (taken : next = { usage.world with
      places := Function.update usage.world.places thread call.first })
    (access : Access) (other : Device) :
    ∑ known, leaving access other (next.places known) =
      ∑ known, leaving access other (usage.world.places known) +
        leaving access other call.first := by
  subst taken
  have sum := sum_update (leaving access other) usage.world.places thread call.first
  rw [outside] at sum
  exact sum

theorem Tallied.begin {access : Access} (tallied : Tallied usage access device) {call : Call Device}
    (outside : usage.world.places thread = none)
    (taken : next = { usage.world with
      places := Function.update usage.world.places thread call.first })
    (others : ∀ device fd, call ≠ .namedFifoClose device fd) :
    Tallied (usage.note next (.enter thread call)) access device := by
  have nothing : leaving access device call.first = 0 := by
    cases begins : call.first with
    | none => rfl
    | some position =>
        refine if_neg fun both => ?_
        rcases first_begins begins others with ⟨_, place⟩ | ⟨_, _, place⟩ | ⟨_, _, _, place⟩ <;>
        · rw [place] at both
          cases access <;> exact both.2
  have sum := sum_enter outside taken access device
  rw [nothing, Nat.add_zero] at sum
  have memory : next.memory = usage.world.memory := by
    rw [taken]
  have same : total { usage with world := next } access device = total usage access device :=
    congrArg _ sum
  rw [note_begin next thread others]
  constructor
  · rw [memory, same]
    exact tallied.counted
  · rw [memory]
    exact tallied.small
  · rw [memory]
    exact tallied.flagged

omit [DecidableEq Device] [Fintype Thread] [DecidableEq Thread] in
theorem countP_erase (access : Access) {descriptors : List Nat} {flags : Nat}
    (opened : flags ∈ descriptors) :
    descriptors.countP (Grants access) =
      (descriptors.erase flags).countP (Grants access) + if Grants access flags then 1 else 0 := by
  rw [(List.perm_cons_erase opened).countP_eq, List.countP_cons]
  simp only [decide_eq_true_eq]

section

variable {fd : AltFd} {other : Device} {access : Access}

theorem sum_close (outside : usage.world.places thread = none)
    (taken : next = { usage.world with
      places := Function.update usage.world.places thread (Call.namedFifoClose device fd).first })
    (access : Access) (other : Device) :
    ∑ known, leaving access other (next.places known) =
      ∑ known, leaving access other (usage.world.places known) +
        if device = other ∧ Grants access fd.fdFlags then 1 else 0 := by
  refine (sum_enter outside taken access other).trans (congrArg _ ?_)
  refine if_congr (and_congr_right fun _ => ?_) rfl rfl
  cases access <;> exact Iff.rfl

theorem Tallied.close_other (tallied : Tallied usage access other) (different : other ≠ device)
    (outside : usage.world.places thread = none)
    (taken : next = { usage.world with
      places := Function.update usage.world.places thread
        (Call.namedFifoClose device fd).first }) :
    Tallied (usage.note next (.enter thread (.namedFifoClose device fd))) access other := by
  have memory : next.memory = usage.world.memory := by
    rw [taken]
  have sum := sum_close outside taken access other
  rw [if_neg fun both => different both.1.symm, Nat.add_zero] at sum
  have opened : (usage.note next (.enter thread (.namedFifoClose device fd))).opened other =
      usage.opened other := Function.update_of_ne different _ _
  have closed : (usage.note next (.enter thread (.namedFifoClose device fd))).closed other =
      usage.closed other := Function.update_of_ne different _ _
  constructor
  · change countOf access (next.memory other) = _
    rw [memory, total, opened]
    exact tallied.counted.trans (congrArg _ sum.symm)
  · change countOf access (next.memory other) < _
    rw [memory]
    exact tallied.small
  · change closedOf access (next.memory other) = true ↔ countOf access (next.memory other) = 0 ∧ _
    rw [memory, Gone, closed]
    exact tallied.flagged

/-- A close that is called leaves the counts to the thread. -/
theorem Tallied.close (tallied : Tallied usage access device)
    (outside : usage.world.places thread = none)
    (taken : next = { usage.world with
      places := Function.update usage.world.places thread (Call.namedFifoClose device fd).first })
    (opened : fd.fdFlags ∈ usage.opened device) :
    Tallied (usage.note next (.enter thread (.namedFifoClose device fd))) access device := by
  have memory : next.memory = usage.world.memory := by
    rw [taken]
  have sum := sum_close outside taken access device
  have erased := countP_erase access opened
  have before := tallied.counted
  rw [total] at before
  have same : total (usage.note next (.enter thread (.namedFifoClose device fd))) access device =
      total usage access device := by
    rw [total, total, Usage.note]
    simp only [Function.update_self]
    rw [sum, erased]
    simp only [true_and]
    omega
  constructor
  · change countOf access (next.memory device) = _
    rw [memory, same]
    exact tallied.counted
  · change countOf access (next.memory device) < _
    rw [memory]
    exact tallied.small
  · change closedOf access (next.memory device) = true ↔ countOf access (next.memory device) = 0 ∧
      ∃ flags ∈ Function.update usage.closed device (fd.fdFlags :: usage.closed device) device,
        Grants access flags
    rw [memory, Function.update_self, tallied.flagged, List.exists_mem_cons_iff]
    by_cases grants : Grants access fd.fdFlags
    · have counts : countOf access (usage.world.memory device) ≠ 0 := by
        rw [if_pos grants] at erased
        omega
      exact iff_of_false (fun both => counts both.1) fun both => counts both.1
    · simp only [grants, false_or]
      exact Iff.rfl

end

/-! ## Runs -/

/-- A step keeps the FIFOs calm and their ends counted. -/
theorem step_kept {event : Event Thread (Call Device)} {after : Usage Thread Device}
    (calm : Calm usage) (tallied : ∀ access device, Tallied usage access device)
    (proper : Proper usage event) (taken : useStep usage event = some after) :
    Calm after ∧ ∀ access device, Tallied after access device := by
  obtain ⟨next, moves, rfl⟩ := Option.map_eq_some_iff.mp taken
  rcases step_cases moves with ⟨thread, call, rfl, outside, whole⟩ |
    ⟨thread, ⟨device, place⟩, rfl, here, -, whole⟩
  · refine ⟨calm.enter moves, fun access device => ?_⟩
    cases call with
    | namedFifoClose closing fd =>
        by_cases same : device = closing
        · subst same
          exact (tallied access device).close outside whole proper
        · exact (tallied access device).close_other same outside whole
    | _ => exact (tallied access device).begin outside whole nofun
  · refine ⟨calm.go moves, fun access other => ?_⟩
    by_cases same : other = device
    · subst same
      by_cases opens : ∃ flags, place = .openLock flags
      · obtain ⟨flags, rfl⟩ := opens
        exact (tallied access other).open here whole (proper other flags here access)
      · exact (tallied access other).proceed calm here whole (not_exists.mp opens)
    · exact (tallied access other).other same here whole

omit [Fintype Thread] in
theorem step_sameRing {event : Event Thread (Call Device)} {after : Usage Thread Device}
    (calm : Calm usage) (taken : useStep usage event = some after) (device : Device) :
    SameRing (usage.world.memory device) (after.world.memory device) := by
  obtain ⟨next, moves, rfl⟩ := Option.map_eq_some_iff.mp taken
  rw [note_world]
  rcases step_cases moves with ⟨thread, call, rfl, -, rfl⟩ |
    ⟨thread, ⟨other, place⟩, rfl, here, -, rfl⟩
  · exact .refl _
  · change SameRing _ (Function.update usage.world.memory other _ device)
    by_cases same : device = other
    · subst same
      rw [Function.update_self]
      exact sameRing_next (calm.idle device) (calm.short thread _ here)
    · rw [Function.update_of_ne same]
      exact .refl _

/-- Nobody counts for the access: no descriptor with it is open, and no thread still closes one. -/
def Deserted (usage : Usage Thread Device) (access : Access) (device : Device) : Prop :=
  (∀ flags ∈ usage.opened device, ¬Grants access flags) ∧
    ∀ thread place, usage.world.places thread = some ⟨device, place⟩ → ¬Leaves access place

omit [DecidableEq Thread] in
theorem total_eq_zero_iff (usage : Usage Thread Device) (access : Access) (device : Device) :
    total usage access device = 0 ↔ Deserted usage access device := by
  unfold total Deserted
  rw [Nat.add_eq_zero_iff, List.countP_eq_zero, Finset.sum_eq_zero_iff]
  simp only [decide_eq_true_eq, Finset.mem_univ, true_implies]
  refine and_congr_right fun _ => ⟨fun none thread place here leaves => ?_, fun nobody thread => ?_⟩
  · have weight := none thread
    rw [here, leaving_place, if_pos leaves] at weight
    cases weight
  · cases here : usage.world.places thread with
    | none => rfl
    | some position =>
        refine if_neg fun both => ?_
        obtain ⟨other, place⟩ := position
        cases both.1
        exact nobody thread place here both.2

/-- The last descriptor with the access has been closed. -/
def HungUp (usage : Usage Thread Device) (access : Access) (device : Device) : Prop :=
  Deserted usage access device ∧ Gone usage access device

/-- What a call that has found nothing to do comes to. -/
structure Answers (usage : Usage Thread Device) (access : Access) (device : Device) (fd : AltFd)
    (onward : Onward) : Prop where
  ended : HungUp usage access.other device → onward = .back (endValue access) []
  refused : ¬HungUp usage access.other device → fd.fdFlags &&& oNonblock ≠ 0 →
    onward = .back (-ewouldblock) []
  waits : ¬HungUp usage access.other device → fd.fdFlags &&& oNonblock = 0 →
    ∃ again, onward = .retry again

omit [DecidableEq Thread] in
theorem Tallied.flag_iff {access : Access} (tallied : Tallied usage access device) :
    closedOf access (usage.world.memory device) = true ↔ HungUp usage access device := by
  rw [tallied.flagged, tallied.counted, total_eq_zero_iff]
  exact Iff.rfl

omit [DecidableEq Thread] in
theorem answers_of_tallied {access : Access} {fd : AltFd}
    (tallied : Tallied usage access.other device) (looks : Looks access fd place) :
    Answers usage access device fd (place.next (usage.world.memory device)).2 := by
  obtain ⟨again, onward⟩ := looks_next looks (usage.world.memory device)
  rw [onward]
  constructor
  · intro hungUp
    rw [if_pos (tallied.flag_iff.mpr hungUp)]
  · intro alive nonblock
    rw [if_neg (mt tallied.flag_iff.mp alive), if_pos nonblock]
  · intro alive block
    rw [if_neg (mt tallied.flag_iff.mp alive), if_neg (not_not.mpr block)]
    exact ⟨again, rfl⟩

omit [Fintype Thread] [DecidableEq Thread] in
/-- Without a close of its own end, a call that waits is not woken up. -/
theorem Calm.blocked (calm : Calm usage) {access : Access} (waits : Waits access place)
    (here : usage.world.places thread = some ⟨device, place⟩) (none : ¬Gone usage access device) :
    Blocked program usage.world thread := by
  refine ⟨_, here, fun passes => none (calm.signalled access device (.inl ?_))⟩
  cases access <;> cases place <;> try cases waits
  all_goals exact passes

/-! ## All runs -/

/-- The FIFOs hold what they held, and the calls at them are answered as their ends tell. -/
structure Told (memory : Device → NamedFifoDev) (usage : Usage Thread Device) : Prop where
  rings : ∀ device, SameRing (memory device) (usage.world.memory device)
  short : ∀ thread position, usage.world.places thread = some position → Short position.place
  answers : ∀ access thread device place fd, usage.world.places thread = some ⟨device, place⟩ →
    Looks access fd place →
      Answers usage access device fd (place.next (usage.world.memory device)).2
  woken : ∀ access thread device place fd, usage.world.places thread = some ⟨device, place⟩ →
    Looks access fd place → Gone usage access device
  blocked : ∀ access thread device place, usage.world.places thread = some ⟨device, place⟩ →
    Waits access place → ¬Gone usage access device → Blocked program usage.world thread

omit [DecidableEq Thread] in
theorem told_of_kept {memory : Device → NamedFifoDev} (calm : Calm usage)
    (tallied : ∀ access device, Tallied usage access device)
    (rings : ∀ device, SameRing (memory device) (usage.world.memory device)) :
    Told memory usage where
  rings := rings
  short := calm.short
  answers access _ device _ _ _ looks := answers_of_tallied (tallied access.other device) looks
  woken access thread device place _ here looks :=
    calm.signalled access device (.inr ⟨thread, place, here, looks_signals looks⟩)
  blocked _ _ _ _ here waits none := calm.blocked waits here none

omit [DecidableEq Device] [Fintype Thread] [DecidableEq Thread] in
theorem calm_unused {memory : Device → NamedFifoDev} (created : ∀ device, Created (memory device)) :
    Calm (unused Thread memory) where
  idle device := (created device).idle
  short := nofun
  closes := nofun
  signalled := by
    rintro access device (free | ⟨thread, place, there, -⟩)
    · cases access <;> exact absurd free (Nat.lt_irrefl 0)
    · cases there

omit [DecidableEq Thread] in
theorem tallied_unused {memory : Device → NamedFifoDev}
    (created : ∀ device, Created (memory device))
    (access : Access) (device : Device) : Tallied (unused Thread memory) access device := by
  obtain ⟨sizeofDev, malloc, name, size, made⟩ := created device
  obtain ⟨block, -, whole⟩ := Option.map_eq_some_iff.mp made
  have zero : countOf access (memory device) = 0 := by
    rw [← whole]
    cases access <;> rfl
  have flag : closedOf access (memory device) = false := by
    rw [← whole]
    cases access <;> rfl
  constructor
  · refine zero.trans ((total_eq_zero_iff _ _ _).mpr ⟨fun _ member => (by cases member),
      fun _ _ there => (by cases there)⟩).symm
  · exact (congrArg (· < 2 ^ 16) zero).mpr (by decide)
  · refine iff_of_false (fun set => ?_) ?_
    · cases flag.symm.trans set
    · rintro ⟨-, flags, closed, -⟩
      cases closed

/-- In every run of new FIFOs, nothing is ever transferred: a call that finds the other end closed
says so, one that does not block is refused, and all others wait; and nobody gets that far before
a descriptor of its own kind has been closed. -/
theorem hangs_up {memory : Device → NamedFifoDev} (created : ∀ device, Created (memory device))
    {events : List (Event Thread (Call Device))}
    (each : Each useStep Proper (unused Thread memory) events) :
    Always useStep (Told memory) (unused Thread memory) events := by
  have kept : Always useStep (fun usage => Calm usage ∧
      (∀ access device, Tallied usage access device) ∧
        ∀ device, SameRing (memory device) (usage.world.memory device))
      (unused Thread memory) events := by
    refine always_of_each ?_
      ⟨calm_unused created, tallied_unused created, fun device => .refl (memory device)⟩ each
    rintro usage event after ⟨calm, tallied, rings⟩ proper taken
    obtain ⟨calm', tallied'⟩ := step_kept calm tallied proper taken
    exact ⟨calm', tallied', fun device => (rings device).trans (step_sameRing calm taken device)⟩
  exact kept.mono fun usage ⟨calm, tallied, rings⟩ => told_of_kept calm tallied rings

end

/-- The last writer closes; a reader waits nevertheless, until its descriptor is closed by another
thread. -/
def lastReader : List (Event Bool (Call Unit)) :=
  [.enter true (.namedFifoOpen () 0), .go true, .go true,
    .enter false (.namedFifoOpen () writeOnly), .go false, .go false,
    .enter false (.namedFifoClose () ⟨writeOnly⟩), .go false, .go false, .go false,
    .enter true (.namedFifoRead () ⟨0⟩ 1),
    .enter false (.namedFifoClose () ⟨0⟩), .go false, .go false, .go true]

theorem hangs_up_lastReader :
    ∃ usage, run useStep (unused Bool fun _ : Unit => smallest) lastReader = some usage ∧
      usage.world.places true = some ⟨(), .readNone ⟨0⟩ 1⟩ ∧
        Told (fun _ : Unit => smallest) usage := by
  have each : Each useStep Proper (unused Bool fun _ : Unit => smallest) lastReader := by
    rintro _ ⟨⟩
    refine ⟨trivial, ?_⟩
    rintro _ ⟨⟩
    refine ⟨?_, ?_⟩
    · rintro _ _ ⟨⟩ access
      cases access <;> decide
    rintro _ ⟨⟩
    refine ⟨fun _ _ same => (by cases same), ?_⟩
    rintro _ ⟨⟩
    refine ⟨trivial, ?_⟩
    rintro _ ⟨⟩
    refine ⟨?_, ?_⟩
    · rintro _ _ ⟨⟩ access
      cases access <;> decide
    rintro _ ⟨⟩
    refine ⟨fun _ _ same => (by cases same), ?_⟩
    rintro _ ⟨⟩
    refine ⟨List.mem_cons_self, ?_⟩
    iterate 3
      rintro _ ⟨⟩
      refine ⟨fun _ _ same => (by cases same), ?_⟩
    rintro _ ⟨⟩
    refine ⟨trivial, ?_⟩
    rintro _ ⟨⟩
    refine ⟨List.mem_cons_self, ?_⟩
    iterate 3
      rintro _ ⟨⟩
      refine ⟨fun _ _ same => (by cases same), ?_⟩
    trivial
  have always := hangs_up (fun _ => created_smallest) each
  have stands : ((run useStep (unused Bool fun _ : Unit => smallest) lastReader).bind fun usage =>
      usage.world.places true) = some ⟨(), .readNone ⟨0⟩ 1⟩ := rfl
  obtain ⟨usage, arrives, there⟩ := Option.bind_eq_some_iff.mp stands
  exact ⟨usage, arrives, there,
    (always_iff _ _).mp always _ (List.prefix_refl _) usage arrives⟩

end PeridotSw.Fifo.Hangup

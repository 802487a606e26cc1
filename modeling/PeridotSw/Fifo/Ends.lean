import PeridotSw.Fifo.Deadlock

/-!
# Ends of named FIFOs

Reading and writing treat the two ends of a FIFO alike but for their names.  A descriptor counts
for the ends it has access to; the close that brings a count to zero notes it, and posts the
semaphore of that same end.
-/

namespace PeridotSw.Fifo.Ends

open PeridotSw.Fifo.NamedFifo
open PeridotSw.Fifo.Threads
open PeridotSw.Fifo.Deadlock

/-! ## Reading and writing -/

inductive Access where
  | reading
  | writing
  deriving DecidableEq

def Access.other : Access → Access
  | .reading => .writing
  | .writing => .reading

def Access.bit : Access → Nat
  | .reading => fread
  | .writing => fwrite

def Grants (access : Access) (flags : Nat) : Prop := accmode flags &&& access.bit ≠ 0

instance (access : Access) : DecidablePred (Grants access) :=
  fun flags => inferInstanceAs (Decidable (accmode flags &&& access.bit ≠ 0))

/-- `readers` or `writers`. -/
def countOf : Access → NamedFifoDev → Nat
  | .reading, dev => dev.readers
  | .writing, dev => dev.writers

/-- The flag that the last reader or writer has closed the FIFO. -/
def closedOf : Access → NamedFifoDev → Bool
  | .reading, dev => dev.flags.readerClosed
  | .writing, dev => dev.flags.writerClosed

/-- What the closed other end is answered with. -/
def endValue : Access → Int
  | .reading => 0
  | .writing => -epipe

/-- Where a call that has found nothing to do stands behind its pend. -/
def Looks : Access → AltFd → Place → Prop
  | .reading, fd, .readNone fd' _ => fd' = fd
  | .writing, fd, .writeNone fd' _ _ => fd' = fd
  | _, _, _ => False

/-- The place at which a call waits for the token of its end. -/
def Waits : Access → Place → Prop
  | .reading, .readWait _ _ | .writing, .writeWait _ _ _ => True
  | _, _ => False

/-- Where a close stands that is still counted as open. -/
def Leaves : Access → Place → Prop
  | access, .closeLock fd => Grants access fd.fdFlags
  | .writing, .closeSignalReader fd => Grants .writing fd.fdFlags
  | _, _ => False

instance (access : Access) : DecidablePred (Leaves access)
  | .closeLock fd => inferInstanceAs (Decidable (Grants access fd.fdFlags))
  | .closeSignalReader fd =>
      match access with
      | .reading => isFalse id
      | .writing => inferInstanceAs (Decidable (Grants .writing fd.fdFlags))
  | .openLock _ | .openUnlock | .closeSignalWriter | .closeUnlock | .readWait _ _
  | .readNone _ _ | .readLock _ _ | .readUnlock _ _ | .readSignalReader _ _
  | .readSignalWriter _ _ | .writeWait _ _ _ | .writeNone _ _ _ | .writeLock _
  | .writeSignalWriter _ | .writeSignalReader _ => isFalse (by cases access <;> exact id)

/-- Where a token of a semaphore is brought back, or made. -/
def Signals : Access → Place → Prop
  | .reading, .closeSignalReader _ | .reading, .readNone _ _ => True
  | .writing, .closeSignalWriter | .writing, .writeNone _ _ _ => True
  | _, _ => False

/-! ## The counts -/

def oneLess (count : Nat) : Nat := (count + (2 ^ 16 - 1)) % 2 ^ 16

theorem oneLess_eq (count : Nat) : (count + (2 ^ 16 - 1)) % 2 ^ 16 = oneLess count := rfl

theorem oneLess_of_pos {count : Nat} (positive : 0 < count) (small : count < 2 ^ 16) :
    oneLess count = count - 1 := by
  unfold oneLess
  omega

/-- A count becomes less, and if it comes to zero the end is closed. -/
def uncount (less : Nat → Nat) : Access → NamedFifoDev → NamedFifoDev
  | .reading, dev =>
      { dev with
        readers := less dev.readers
        flags := { dev.flags with
          readerClosed := dev.flags.readerClosed || less dev.readers == 0 } }
  | .writing, dev =>
      { dev with
        writers := less dev.writers
        flags := { dev.flags with
          writerClosed := dev.flags.writerClosed || less dev.writers == 0 } }

theorem closeWriter_eq (fd : AltFd) (dev : NamedFifoDev) :
    closeWriter fd dev =
      if Grants .writing fd.fdFlags then
        (uncount oneLess .writing dev,
          if countOf .writing (uncount oneLess .writing dev) = 0 then .to .closeSignalWriter
          else .to .closeUnlock)
      else
        (dev, .to .closeUnlock) := by
  unfold closeWriter
  by_cases writes : Grants .writing fd.fdFlags
  · rw [if_pos writes, if_pos (show accmode fd.fdFlags &&& fwrite ≠ 0 from writes)]
    rw [oneLess_eq]
    by_cases last : oneLess dev.writers = 0
    · simp [uncount, countOf, last]
    · have kept := beq_eq_false_iff_ne.mpr last
      simp [uncount, countOf, last, kept]
  · rw [if_neg writes, if_neg (show ¬accmode fd.fdFlags &&& fwrite ≠ 0 from writes)]

theorem closeReader_eq (fd : AltFd) (dev : NamedFifoDev) :
    closeReader fd dev =
      if Grants .reading fd.fdFlags then
        if countOf .reading (uncount oneLess .reading dev) = 0 then
          (uncount oneLess .reading dev, .to (.closeSignalReader fd))
        else
          closeWriter fd (uncount oneLess .reading dev)
      else
        closeWriter fd dev := by
  unfold closeReader
  by_cases reads : Grants .reading fd.fdFlags
  · rw [if_pos reads, if_pos (show accmode fd.fdFlags &&& fread ≠ 0 from reads)]
    rw [oneLess_eq]
    by_cases last : oneLess dev.readers = 0
    · simp [uncount, countOf, last]
    · have kept := beq_eq_false_iff_ne.mpr last
      simp [uncount, countOf, last, kept]
  · rw [if_neg reads, if_neg (show ¬accmode fd.fdFlags &&& fread ≠ 0 from reads)]

section

variable (less : Nat → Nat) (dev : NamedFifoDev)

theorem uncount_self (access : Access) :
    countOf access (uncount less access dev) = less (countOf access dev) ∧
      closedOf access (uncount less access dev) =
        (closedOf access dev || less (countOf access dev) == 0) := by
  cases access <;> exact ⟨rfl, rfl⟩

theorem uncount_other {access changed : Access} (different : access ≠ changed) :
    countOf access (uncount less changed dev) = countOf access dev ∧
      closedOf access (uncount less changed dev) = closedOf access dev := by
  cases access <;> cases changed
  case reading.reading | writing.writing => exact absurd rfl different
  all_goals exact ⟨rfl, rfl⟩

end

theorem namedFifoOpen_counts (access : Access) {dev : NamedFifoDev} (flags : Nat)
    (room : countOf access dev + 1 < 2 ^ 16) :
    countOf access (namedFifoOpen dev flags) =
        countOf access dev + (if Grants access flags then 1 else 0) ∧
      closedOf access (namedFifoOpen dev flags) =
        (closedOf access dev && !decide (Grants access flags)) := by
  have whole : (countOf access dev + 1) % 2 ^ 16 = countOf access dev + 1 := Nat.mod_eq_of_lt room
  unfold namedFifoOpen
  cases access with
  | reading =>
      by_cases reads : Grants .reading flags
      · rw [if_pos (show accmode flags &&& fread ≠ 0 from reads)]
        simp only [reads, if_true, decide_true, Bool.not_true, Bool.and_false]
        split <;> exact ⟨whole, rfl⟩
      · rw [if_neg (show ¬accmode flags &&& fread ≠ 0 from reads)]
        simp only [reads, if_false, decide_false, Bool.not_false, Bool.and_true, Nat.add_zero]
        split <;> exact ⟨rfl, rfl⟩
  | writing =>
      by_cases writes : Grants .writing flags
      · rw [if_pos (show accmode flags &&& fwrite ≠ 0 from writes)]
        simp only [writes, if_true, decide_true, Bool.not_true, Bool.and_false]
        split <;> exact ⟨whole, rfl⟩
      · rw [if_neg (show ¬accmode flags &&& fwrite ≠ 0 from writes)]
        simp only [writes, if_false, decide_false, Bool.not_false, Bool.and_true, Nat.add_zero]
        split <;> exact ⟨rfl, rfl⟩

/-! ## What a step does to an end -/

/-- A step leaves an end alone, and who leaves it. -/
structure Kept (access : Access) (place : Place) (dev next : NamedFifoDev) (after : Option Place) :
    Prop where
  count : countOf access next = countOf access dev
  closed : closedOf access next = closedOf access dev
  leaves : (∃ later, after = some later ∧ Leaves access later) ↔ Leaves access place

/-- A step takes a descriptor away from an end. -/
structure Dropped (access : Access) (place : Place) (dev next : NamedFifoDev)
    (after : Option Place) : Prop where
  count : countOf access next = oneLess (countOf access dev)
  closed : closedOf access next = (closedOf access dev || oneLess (countOf access dev) == 0)
  leaves : Leaves access place
  stays : ∀ later, after = some later → ¬Leaves access later

theorem not_leaves_signalWriter (access : Access) : ¬Leaves access .closeSignalWriter := by
  cases access <;> exact id

theorem not_leaves_closeUnlock (access : Access) : ¬Leaves access .closeUnlock := by
  cases access <;> exact id

/-- The second half of a close leads to its end. -/
theorem not_leaves_closeWriter (access : Access) (fd : AltFd) (dev : NamedFifoDev) (later : Place)
    (goes : (closeWriter fd dev).2.place = some later) : ¬Leaves access later := by
  rcases closeWriter_to fd dev with onto | onto
  · rw [onto] at goes
    cases goes
    exact not_leaves_signalWriter access
  · rw [onto] at goes
    cases goes
    exact not_leaves_closeUnlock access

theorem closeWriter_reading (fd : AltFd) (dev : NamedFifoDev) :
    countOf .reading (closeWriter fd dev).1 = countOf .reading dev ∧
      closedOf .reading (closeWriter fd dev).1 = closedOf .reading dev := by
  rw [closeWriter_eq]
  split
  · exact uncount_other oneLess dev (show Access.reading ≠ .writing by decide)
  · exact ⟨rfl, rfl⟩

/-- The second half of a close, for the writers. -/
theorem closeWriter_writing (fd : AltFd) (dev : NamedFifoDev) {place : Place}
    (here : Leaves .writing place ↔ Grants .writing fd.fdFlags) :
    Kept .writing place dev (closeWriter fd dev).1 (closeWriter fd dev).2.place ∨
      Dropped .writing place dev (closeWriter fd dev).1 (closeWriter fd dev).2.place := by
  have ends := not_leaves_closeWriter .writing fd dev
  by_cases writes : Grants .writing fd.fdFlags
  · have counts := uncount_self oneLess dev .writing
    refine .inr ⟨?_, ?_, here.mpr writes, ends⟩
    · rw [closeWriter_eq, if_pos writes]
      exact counts.1
    · rw [closeWriter_eq, if_pos writes]
      exact counts.2
  · refine .inl ⟨?_, ?_, iff_of_false ?_ (mt here.mp writes)⟩
    · rw [closeWriter_eq, if_neg writes]
    · rw [closeWriter_eq, if_neg writes]
    · rintro ⟨later, goes, leaves⟩
      exact ends later goes leaves

theorem closeReader_cases (access : Access) (fd : AltFd) (dev : NamedFifoDev) :
    Kept access (.closeLock fd) dev (closeReader fd dev).1 (closeReader fd dev).2.place ∨
      Dropped access (.closeLock fd) dev (closeReader fd dev).1 (closeReader fd dev).2.place := by
  rw [closeReader_eq]
  by_cases reads : Grants .reading fd.fdFlags
  · have counts := uncount_self oneLess dev .reading
    have others := uncount_other oneLess dev (show Access.writing ≠ .reading by decide)
    rw [if_pos reads]
    by_cases last : countOf .reading (uncount oneLess .reading dev) = 0
    · rw [if_pos last]
      cases access with
      | reading =>
          refine .inr ⟨counts.1, counts.2, reads, ?_⟩
          rintro later ⟨⟩
          exact id
      | writing =>
          refine .inl ⟨others.1, others.2, ⟨?_, fun leaves => ⟨_, rfl, leaves⟩⟩⟩
          rintro ⟨later, ⟨⟩, leaves⟩
          exact leaves
    · rw [if_neg last]
      cases access with
      | reading =>
          have same := closeWriter_reading fd (uncount oneLess .reading dev)
          exact .inr ⟨same.1.trans counts.1, same.2.trans counts.2, reads,
            not_leaves_closeWriter .reading fd _⟩
      | writing =>
          have here : Leaves .writing (.closeLock fd) ↔ Grants .writing fd.fdFlags := Iff.rfl
          rcases closeWriter_writing fd (uncount oneLess .reading dev) here with kept | dropped
          · exact .inl ⟨kept.count.trans others.1, kept.closed.trans others.2, kept.leaves⟩
          · refine .inr ⟨?_, ?_, dropped.leaves, dropped.stays⟩
            · rw [dropped.count, others.1]
            · rw [dropped.closed, others.1, others.2]
  · rw [if_neg reads]
    cases access with
    | reading =>
        have same := closeWriter_reading fd dev
        refine .inl ⟨same.1, same.2, iff_of_false ?_ reads⟩
        rintro ⟨later, goes, leaves⟩
        exact not_leaves_closeWriter .reading fd dev later goes leaves
    | writing => exact closeWriter_writing fd dev Iff.rfl

section

variable {access : Access} {dev : NamedFifoDev} {place : Place} {after : Option Place}

theorem Kept.of_same (here : ¬Leaves access place)
    (there : ∀ later, after = some later → ¬Leaves access later) :
    Kept access place dev dev after where
  count := rfl
  closed := rfl
  leaves := by
    refine iff_of_false ?_ here
    rintro ⟨later, goes, leaves⟩
    exact there later goes leaves

/-- Behind a short place at an idle FIFO, a descriptor is counted, or one is taken away, or the
end is left alone. -/
theorem next_cases (access : Access) (idle : Idle dev) (short : Short place) :
    (∃ flags, place = .openLock flags) ∨
      Kept access place dev (place.next dev).1 (place.next dev).2.place ∨
        Dropped access place dev (place.next dev).1 (place.next dev).2.place := by
  cases place with
  | openLock flags => exact .inl ⟨flags, rfl⟩
  | closeLock fd => exact .inr (closeReader_cases access fd dev)
  | closeSignalReader fd =>
      cases access with
      | reading =>
          have same := closeWriter_reading fd dev
          refine .inr (.inl ⟨same.1, same.2, iff_of_false ?_ id⟩)
          rintro ⟨later, goes, leaves⟩
          exact not_leaves_closeWriter .reading fd dev later goes leaves
      | writing => exact .inr (closeWriter_writing fd dev Iff.rfl)
  | openUnlock | closeUnlock =>
      refine .inr (.inl (.of_same ?_ fun later goes => by cases goes))
      cases access <;> exact id
  | closeSignalWriter =>
      refine .inr (.inl (.of_same (not_leaves_signalWriter access) ?_))
      rintro later ⟨⟩
      exact not_leaves_closeUnlock access
  | readWait fd len =>
      refine .inr (.inl ?_)
      rw [Place.next, readData, if_pos idle]
      refine .of_same (by cases access <;> exact id) ?_
      rintro later ⟨⟩
      cases access <;> exact id
  | writeWait fd ptr len =>
      refine .inr (.inl ?_)
      rw [Place.next, writeData_idle idle]
      refine .of_same (by cases access <;> exact id) ?_
      rintro later ⟨⟩
      cases access <;> exact id
  | readNone | writeNone =>
      refine .inr (.inl ?_)
      rw [Place.next]
      split
      · exact .of_same (by cases access <;> exact id) fun later goes => by cases goes
      split
      · exact .of_same (by cases access <;> exact id) fun later goes => by cases goes
      · refine .of_same (by cases access <;> exact id) ?_
        rintro later ⟨⟩
        cases access <;> exact id
  | _ => cases short

/-! ## Tokens -/

def semaphoreOf : Access → Semaphore
  | .reading => .semReader
  | .writing => .semWriter

/-- A close that has not done with an end. -/
def Closes (fd : AltFd) : Place → Prop
  | .closeLock fd' | .closeSignalReader fd' => fd' = fd
  | _ => False

/-- Who posts the semaphore of an end, without a transfer. -/
theorem signals_of_post (short : Short place)
    (posts : place.semOp = .post (semaphoreOf access)) : Signals access place := by
  cases place <;> try cases short
  all_goals cases access <;> cases posts
  all_goals exact trivial

/-- The second half of a close signals the writers that their end is closed. -/
theorem signals_closeWriter {fd : AltFd} {later : Place}
    (goes : (closeWriter fd dev).2.place = some later) (signals : Signals access later) :
    Grants access fd.fdFlags := by
  rw [closeWriter_eq] at goes
  split at goes
  · rename_i writes
    split at goes
    · cases goes
      cases access with
      | reading => cases signals
      | writing => exact writes
    · cases goes
      cases access <;> cases signals
  · cases goes
    cases access <;> cases signals

/-- Who signals an end has taken its token, or closes it. -/
theorem signals_before {later : Place} (idle : Idle dev) (short : Short place)
    (goes : (place.next dev).2.place = some later) (signals : Signals access later) :
    place.semOp = .pend (semaphoreOf access) ∨
      ∃ fd, Closes fd place ∧ Grants access fd.fdFlags := by
  cases place with
  | closeLock fd =>
      refine .inr ⟨fd, rfl, ?_⟩
      rw [Place.next, closeReader_eq] at goes
      split at goes
      · rename_i reads
        split at goes
        · cases goes
          cases access with
          | reading => exact reads
          | writing => cases signals
        · exact signals_closeWriter goes signals
      · exact signals_closeWriter goes signals
  | closeSignalReader fd => exact .inr ⟨fd, rfl, signals_closeWriter goes signals⟩
  | readWait fd len =>
      rw [Place.next, readData, if_pos idle] at goes
      cases goes
      cases access with
      | reading => exact .inl rfl
      | writing => cases signals
  | writeWait fd ptr len =>
      rw [Place.next, writeData_idle idle] at goes
      cases goes
      cases access with
      | reading => cases signals
      | writing => exact .inl rfl
  | readNone | writeNone =>
      rw [Place.next] at goes
      split at goes
      · cases goes
      split at goes
      · cases goes
      · cases goes
        cases access <;> cases signals
  | openLock | closeSignalWriter =>
      cases goes
      cases access <;> cases signals
  | openUnlock | closeUnlock => cases goes
  | _ => cases short

theorem leaves_closes (leaves : Leaves access place) :
    ∃ fd, Closes fd place ∧ Grants access fd.fdFlags := by
  cases place <;> cases access <;> try cases leaves
  case closeLock.reading fd => exact ⟨fd, rfl, leaves⟩
  case closeLock.writing fd => exact ⟨fd, rfl, leaves⟩
  case closeSignalReader.writing fd => exact ⟨fd, rfl, leaves⟩

/-- A close stays with its descriptor. -/
theorem closes_before {later : Place} {fd : AltFd} (idle : Idle dev) (short : Short place)
    (goes : (place.next dev).2.place = some later) (closes : Closes fd later) :
    Closes fd place := by
  have leads (fd' : AltFd) (onto : (closeWriter fd' dev).2.place = some later) : False := by
    rcases closeWriter_to fd' dev with next | next
    · rw [next] at onto
      cases onto
      cases closes
    · rw [next] at onto
      cases onto
      cases closes
  cases place with
  | closeLock fd' =>
      rcases closeReader_to fd' dev with next | next | next
      · rw [Place.next, next] at goes
        cases goes
        exact closes
      · rw [Place.next, next] at goes
        cases goes
        cases closes
      · rw [Place.next, next] at goes
        cases goes
        cases closes
  | closeSignalReader fd' => exact (leads fd' goes).elim
  | readWait fd' len =>
      rw [Place.next, readData, if_pos idle] at goes
      cases goes
      cases closes
  | writeWait fd' ptr len =>
      rw [Place.next, writeData_idle idle] at goes
      cases goes
      cases closes
  | readNone | writeNone =>
      rw [Place.next] at goes
      split at goes
      · cases goes
      split at goes
      · cases goes
      · cases goes
        cases closes
  | openLock | closeSignalWriter =>
      cases goes
      cases closes
  | openUnlock | closeUnlock => cases goes
  | _ => cases short

/-! ## Calls that have found nothing -/

/-- Who has found nothing to do looks at the flag of the other end, and then at its own. -/
theorem looks_next {fd : AltFd} (looks : Looks access fd place) (dev : NamedFifoDev) :
    ∃ again, (place.next dev).2 =
      if closedOf access.other dev then .back (endValue access) []
      else if fd.fdFlags &&& oNonblock ≠ 0 then .back (-ewouldblock) []
      else .retry again := by
  cases access <;> cases place <;> try cases looks
  case reading.readNone len =>
    refine ⟨.readWait fd len, ?_⟩
    rw [Place.next]
    by_cases closed : dev.flags.writerClosed
    · rw [if_pos closed, if_pos (show closedOf Access.reading.other dev = true from closed)]
      rfl
    rw [if_neg closed, if_neg (show ¬closedOf Access.reading.other dev = true from closed)]
    by_cases nonblock : fd.fdFlags &&& oNonblock ≠ 0
    · rw [if_pos nonblock, if_pos nonblock]
    · rw [if_neg nonblock, if_neg nonblock]
  case writing.writeNone ptr len =>
    refine ⟨.writeWait fd ptr len, ?_⟩
    rw [Place.next]
    by_cases closed : dev.flags.readerClosed
    · rw [if_pos closed, if_pos (show closedOf Access.writing.other dev = true from closed)]
      rfl
    rw [if_neg closed, if_neg (show ¬closedOf Access.writing.other dev = true from closed)]
    by_cases nonblock : fd.fdFlags &&& oNonblock ≠ 0
    · rw [if_pos nonblock, if_pos nonblock]
    · rw [if_neg nonblock, if_neg nonblock]

theorem looks_signals {fd : AltFd} (looks : Looks access fd place) : Signals access place := by
  cases access <;> cases place <;> try cases looks
  all_goals exact trivial

end

/-! ## Where calls begin -/

section

variable {Device : Type} {call : Call Device} {position : Position Device}

theorem first_begins (begins : call.first = some position)
    (others : ∀ device fd, call ≠ .namedFifoClose device fd) :
    (∃ flags, position.place = .openLock flags) ∨ (∃ fd len, position.place = .readWait fd len) ∨
      ∃ fd ptr len, position.place = .writeWait fd ptr len := by
  rcases first_cases begins with opening | ⟨fd, place⟩ | reading | ⟨fd, ptr, len, place, -⟩
  · exact .inl opening
  · cases call with
    | namedFifoClose device fd' => exact absurd rfl (others device fd')
    | namedFifoOpen device flags =>
        cases begins
        cases place
    | namedFifoRead device fd' len =>
        simp only [Call.first, beginRead] at begins
        split at begins
        · cases begins
        split at begins <;> cases begins
        cases place
    | namedFifoWrite device fd' ptr len =>
        simp only [Call.first, beginWrite] at begins
        split at begins
        · cases begins
        split at begins <;> cases begins
        cases place
  · exact .inr (.inl reading)
  · exact .inr (.inr ⟨fd, ptr, len, place⟩)

/-- A close begins with its own descriptor. -/
theorem closes_first {device : Device} {place : Place} {fd : AltFd}
    (begins : call.first = some ⟨device, place⟩) (closes : Closes fd place) :
    call = .namedFifoClose device fd := by
  cases call with
  | namedFifoClose device' fd' =>
      cases begins
      cases closes
      rfl
  | _ =>
      rcases first_begins begins nofun with ⟨_, same⟩ | ⟨_, _, same⟩ | ⟨_, _, _, same⟩ <;>
      · cases same
        cases closes

theorem not_signals_first (begins : call.first = some position) (access : Access) :
    ¬Signals access position.place := by
  rcases first_cases begins with ⟨_, place⟩ | ⟨_, place⟩ | ⟨_, _, place⟩ |
    ⟨_, _, _, place, -⟩ <;>
  · rw [place]
    cases access <;> exact id

end

end PeridotSw.Fifo.Ends

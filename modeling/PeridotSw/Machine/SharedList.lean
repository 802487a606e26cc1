import PeridotSw.Machine.LinkedList

/-!
# Linked lists that threads share

Threads put cells at the end of a list and search through it.  A search takes no lock, and
between two of its cells others go on.  Those who add may take a lock; without one, whoever
adds must be the only one who does.

However the threads are interleaved, every answer is the one for the list as it is at the
moment of the answer, and no cell gets lost.
-/

namespace PeridotSw.Machine.SharedList

open PeridotSw.Machine.LinkedList

/-! ## Threads -/

/-- What a thread is about to do: take the lock, link its cell, set the pointer to the last
cell, give the lock back, or look at a cell. -/
inductive Place (Addr κ : Type) where
  | wait (addr : Addr)
  | append (addr : Addr)
  | advance (addr : Addr)
  | leave
  | visit (query : κ) (addr : Addr)

/-- What has happened to the list. -/
inductive Event (κ α β : Type) where
  | added (value : α)
  | answered (query : κ) (answer : β)

structure State (Thread Addr κ α β : Type) where
  list : Linked Addr α
  lock : Nat
  places : Thread → Option (Place Addr κ)
  events : List (Event κ α β)

/-- A thread begins to add a value, for which it is given a block of memory or none; a thread
begins a search; or a thread goes on. -/
inductive Action (Thread Addr κ α : Type) where
  | add (thread : Thread) (value : α) (block : Option Addr)
  | look (thread : Thread) (query : κ)
  | go (thread : Thread)

variable {Thread Addr κ α β : Type}

def initial (Thread Addr κ α β : Type) : State Thread Addr κ α β where
  list := .empty
  lock := 1
  places _ := none
  events := []

section

variable [DecidableEq Thread]

def State.move (state : State Thread Addr κ α β) (thread : Thread)
    (place : Option (Place Addr κ)) : State Thread Addr κ α β :=
  { state with places := Function.update state.places thread place }

def State.answer (state : State Thread Addr κ α β) (query : κ) (answer : β) :
    State Thread Addr κ α β :=
  { state with events := state.events ++ [.answered query answer] }

/-- A search goes where a pointer leads. -/
def State.follow (search : Search κ α β) (state : State Thread Addr κ α β) (thread : Thread)
    (query : κ) : Option Addr → State Thread Addr κ α β
  | none => (state.move thread none).answer query (search.atEnd query)
  | some addr => state.move thread (some (.visit query addr))

variable [DecidableEq Addr]

def State.begin (locked : Bool) (state : State Thread Addr κ α β) (thread : Thread) (value : α)
    (addr : Addr) : State Thread Addr κ α β :=
  { state.move thread (some (if locked then .wait addr else .append addr)) with
    list := state.list.prepare addr value }

/-- What a thread does at its place. -/
def State.proceed (locked : Bool) (search : Search κ α β) (state : State Thread Addr κ α β)
    (thread : Thread) : Place Addr κ → Option (State Thread Addr κ α β)
  | .wait addr =>
      if state.lock = 0 then none
      else some { state.move thread (some (.append addr)) with lock := state.lock - 1 }
  | .append addr =>
      (state.list.cells addr).map fun cell =>
        { state.move thread (some (.advance addr)) with
          list := state.list.link addr
          events := state.events ++ [.added cell.value] }
  | .advance addr =>
      some { state.move thread (if locked then some .leave else none) with
        list := state.list.advance addr }
  | .leave => some { state.move thread none with lock := state.lock + 1 }
  | .visit query addr =>
      (state.list.cells addr).map fun cell =>
        match search.judge query cell.value with
        | some answer => (state.move thread none).answer query answer
        | none => state.follow search thread query cell.next

def step (locked : Bool) (search : Search κ α β) (state : State Thread Addr κ α β) :
    Action Thread Addr κ α → Option (State Thread Addr κ α β)
  | .add thread value block =>
      match state.places thread, block with
      | some _, _ => none
      | none, none => some state
      | none, some addr =>
          if (state.list.cells addr).isSome then none
          else some (state.begin locked thread value addr)
  | .look thread query =>
      match state.places thread with
      | some _ => none
      | none =>
          match search.early query with
          | some answer => some (state.answer query answer)
          | none => some (state.follow search thread query state.list.first)
  | .go thread =>
      match state.places thread with
      | none => none
      | some place => state.proceed locked search thread place

end

/-! ## What is kept -/

def addedTo : List (Event κ α β) → List α
  | [] => []
  | .added value :: rest => value :: addedTo rest
  | .answered _ _ :: rest => addedTo rest

theorem addedTo_append (front back : List (Event κ α β)) :
    addedTo (front ++ back) = addedTo front ++ addedTo back := by
  induction front with
  | nil => rfl
  | cons event rest ih =>
      cases event with
      | added value => exact congrArg (value :: ·) ih
      | answered query answer => exact ih

/-- Every answer is the one for the values put into the list before it. -/
def Legal (search : Search κ α β) (events : List (Event κ α β)) : Prop :=
  ∀ front query answer, front ++ [.answered query answer] <+: events →
    answer = search.answer query (addedTo front)

variable {search : Search κ α β} {events : List (Event κ α β)}

theorem Legal.added (legal : Legal search events) (value : α) :
    Legal search (events ++ [.added value]) := by
  intro front query answer start
  rcases List.prefix_concat_iff.mp start with whole | before
  · cases (List.append_inj' whole rfl).2
  · exact legal front query answer before

theorem Legal.answered (legal : Legal search events) (query : κ) :
    Legal search (events ++ [.answered query (search.answer query (addedTo events))]) := by
  intro front query' answer start
  rcases List.prefix_concat_iff.mp start with whole | before
  · obtain ⟨same, last⟩ := List.append_inj' whole rfl
    cases last
    rw [same]
  · exact legal front query' answer before

/-- The thread has a cell that nothing points to. -/
def Brings (addr : Addr) : Place Addr κ → Prop
  | .wait known | .append known => known = addr
  | _ => False

/-- The thread is the one who adds. -/
def Inside : Place Addr κ → Prop
  | .append _ | .advance _ | .leave => True
  | _ => False

instance : DecidablePred (Inside : Place Addr κ → Prop)
  | .append _ | .advance _ | .leave => isTrue trivial
  | .wait _ | .visit _ _ => isFalse id

/-- The thread is where a lock is needed. -/
def Locking : Place Addr κ → Prop
  | .wait _ | .leave => True
  | _ => False

def Searching : Place Addr κ → Prop
  | .visit _ _ => True
  | _ => False

/-- The thread is at a place of a kind. -/
def At (holds : Place Addr κ → Prop) (places : Thread → Option (Place Addr κ))
    (thread : Thread) : Prop :=
  ∃ place, places thread = some place ∧ holds place

instance At.decidable (holds : Place Addr κ → Prop) [DecidablePred holds]
    (places : Thread → Option (Place Addr κ)) (thread : Thread) :
    Decidable (At holds places thread) :=
  match here : places thread with
  | none => isFalse fun ⟨_, there, _⟩ => by cases here.symm.trans there
  | some place =>
      decidable_of_iff (holds place)
        ⟨fun held => ⟨place, here, held⟩, fun ⟨_, there, held⟩ => by
          cases here.symm.trans there
          exact held⟩

def Only (holds : Place Addr κ → Prop) (places : Thread → Option (Place Addr κ)) : Prop :=
  ∀ thread other, At holds places thread → At holds places other → thread = other

/-- What a thread knows at its place about the list. -/
def Fits (search : Search κ α β) (list : Linked Addr α) (path : List (Addr × α)) :
    Place Addr κ → Prop
  | .wait addr | .append addr =>
      addr ∉ path.map Prod.fst ∧ ∃ value, list.cells addr = some ⟨value, none⟩
  | .advance addr => lastOf path = some addr
  | .leave => True
  | .visit query addr => search.early query = none ∧ Passed (search.judge query) path addr

/-- The list holds the values put into it, and cells of those who are still to add them. -/
structure Sound (locked : Bool) (search : Search κ α β) (state : State Thread Addr κ α β)
    (path : List (Addr × α)) : Prop where
  follows : Path state.list.cells state.list.first path
  nodup : (path.map Prod.fst).Nodup
  last : state.list.last = lastOf path ∨
    ∃ thread addr, state.places thread = some (.advance addr)
  fits : ∀ thread place, state.places thread = some place → Fits search state.list path place
  apart : ∀ addr, Only (Brings addr) state.places
  owned : ∀ addr, (state.list.cells addr).isSome →
    addr ∈ path.map Prod.fst ∨ ∃ thread, At (Brings addr) state.places thread
  alone : Only Inside state.places
  guarded : locked = true →
    state.lock ≤ 1 ∧ (0 < state.lock → ∀ thread, ¬At Inside state.places thread)
  bare : locked = false → ∀ thread, ¬At Locking state.places thread
  added : path.map Prod.snd = addedTo state.events
  legal : Legal search state.events

/-- From the first cell all values put into the list are reached, each in a cell of its own; the
other cells are with those who are still to add them. -/
def Reaches (state : State Thread Addr κ α β) (values : List α) : Prop :=
  ∃ path, Path state.list.cells state.list.first path ∧ path.map Prod.snd = values ∧
    (path.map Prod.fst).Nodup ∧
      ∀ addr, (state.list.cells addr).isSome →
        addr ∈ path.map Prod.fst ∨ ∃ thread, At (Brings addr) state.places thread

theorem Sound.reaches {locked : Bool} {state : State Thread Addr κ α β} {path : List (Addr × α)}
    (sound : Sound locked search state path) : Reaches state (addedTo state.events) :=
  ⟨path, sound.follows, sound.added, sound.nodup, sound.owned⟩

theorem sound_initial (locked : Bool) (search : Search κ α β) :
    Sound locked search (initial Thread Addr κ α β) [] where
  follows := rfl
  nodup := List.nodup_nil
  last := .inl rfl
  fits := nofun
  apart := by
    rintro addr thread other ⟨place, there, -⟩
    cases there
  owned := nofun
  alone := by
    rintro thread other ⟨place, there, -⟩
    cases there
  guarded := fun _ => ⟨Nat.le_refl 1, by
    rintro - thread ⟨place, there, -⟩
    cases there⟩
  bare := by
    rintro - thread ⟨place, there, -⟩
    cases there
  added := rfl
  legal := by
    intro front query answer start
    cases front <;> cases List.prefix_nil.mp start

/-! ## One thread moves -/

section

variable {holds : Place Addr κ → Prop} {places : Thread → Option (Place Addr κ)}
variable {thread other : Thread} {place : Place Addr κ} {new : Option (Place Addr κ)}

theorem not_at_of_not (there : places thread = some place) (not : ¬holds place) :
    ¬At holds places thread := by
  rintro ⟨found, here, held⟩
  cases there.symm.trans here
  exact not held

variable [DecidableEq Thread]

theorem at_update (there : At holds (Function.update places thread new) other) :
    At holds places other ∨ other = thread ∧ ∃ place, new = some place ∧ holds place := by
  obtain ⟨place, found, held⟩ := there
  by_cases same : other = thread
  · subst same
    rw [Function.update_self] at found
    exact .inr ⟨rfl, place, found, held⟩
  · rw [Function.update_of_ne same] at found
    exact .inl ⟨place, found, held⟩

theorem At.stays (there : At holds places other) (different : other ≠ thread) :
    At holds (Function.update places thread new) other := by
  obtain ⟨place, found, held⟩ := there
  exact ⟨place, (Function.update_of_ne different _ _).trans found, held⟩

theorem at_update_self (held : holds place) :
    At holds (Function.update places thread (some place)) thread :=
  ⟨place, Function.update_self .., held⟩

/-- Whoever comes to a place of the kind was at one, or nobody was. -/
theorem Only.update (only : Only holds places)
    (comes : ∀ place, new = some place → holds place →
      At holds places thread ∨ ∀ other, ¬At holds places other) :
    Only holds (Function.update places thread new) := by
  intro one two first second
  rcases at_update first with here | ⟨rfl, place, isNew, held⟩
  · rcases at_update second with there | ⟨rfl, place, isNew, held⟩
    · exact only one two here there
    · rcases comes place isNew held with was | nobody
      · exact only one two here was
      · exact absurd here (nobody one)
  · rcases at_update second with there | ⟨rfl, -⟩
    · rcases comes place isNew held with was | nobody
      · exact only one two was there
      · exact absurd there (nobody two)
    · rfl

theorem Only.left (only : Only holds places) (was : At holds places thread) (other : Thread) :
    ¬At holds (Function.update places thread none) other := by
  rintro ⟨place, found, held⟩
  by_cases same : other = thread
  · subst same
    rw [Function.update_self] at found
    cases found
  · rw [Function.update_of_ne same] at found
    exact same (only other thread ⟨place, found, held⟩ was)

theorem forall_update {known : Place Addr κ → Prop}
    (others : ∀ other place, other ≠ thread → places other = some place → known place)
    (moved : ∀ place, new = some place → known place) (other : Thread) (place : Place Addr κ)
    (there : Function.update places thread new other = some place) : known place := by
  by_cases same : other = thread
  · subst same
    rw [Function.update_self] at there
    exact moved place there
  · rw [Function.update_of_ne same] at there
    exact others other place same there

end

/-! ## Searches -/

section

variable [DecidableEq Thread] {locked : Bool} {state : State Thread Addr κ α β}
variable {path : List (Addr × α)} {thread : Thread} {new : Option (Place Addr κ)}

omit [DecidableEq Thread] in
theorem not_at_of_searching {holds : Place Addr κ → Prop}
    (other : ∀ place, Searching place → ¬holds place)
    (searching : ∀ place, state.places thread = some place → Searching place) :
    ¬At holds state.places thread := by
  rintro ⟨place, there, held⟩
  exact other place (searching place there) held

/-- Who searches adds nothing. -/
theorem Searching.only {place : Place Addr κ} (searching : Searching place) :
    (∀ addr, ¬Brings addr place) ∧ ¬Inside place ∧ ¬Locking place := by
  cases place <;> try cases searching
  exact ⟨fun _ => id, id, id⟩

/-- A thread outside or at a cell begins a search, goes on to another cell, or is done. -/
theorem Sound.seek (sound : Sound locked search state path)
    (searching : ∀ place, state.places thread = some place → Searching place)
    (moved : ∀ place, new = some place → Searching place ∧ Fits search state.list path place) :
    Sound locked search (state.move thread new) path where
  follows := sound.follows
  nodup := sound.nodup
  last := by
    refine sound.last.imp id fun ⟨other, addr, there⟩ => ⟨other, addr, ?_⟩
    refine (Function.update_of_ne ?_ _ _).trans there
    rintro rfl
    exact searching _ there
  fits := forall_update (fun other place _ => sound.fits other place)
    fun place isNew => (moved place isNew).2
  apart addr := (sound.apart addr).update fun place isNew brings =>
    absurd brings ((moved place isNew).1.only.1 addr)
  owned addr there := by
    refine (sound.owned addr there).imp id fun ⟨other, brings⟩ => ⟨other, brings.stays ?_⟩
    rintro rfl
    exact not_at_of_searching (fun _ seeks => seeks.only.1 addr) searching brings
  alone := sound.alone.update fun place isNew inside =>
    absurd inside (moved place isNew).1.only.2.1
  guarded locks := by
    refine ⟨(sound.guarded locks).1, fun free other inside => ?_⟩
    rcases at_update inside with inside | ⟨-, place, isNew, inside⟩
    · exact (sound.guarded locks).2 free other inside
    · exact (moved place isNew).1.only.2.1 inside
  bare unlocked other locking := by
    rcases at_update locking with locking | ⟨-, place, isNew, locking⟩
    · exact sound.bare unlocked other locking
    · exact (moved place isNew).1.only.2.2 locking
  added := sound.added
  legal := sound.legal

omit [DecidableEq Thread] in
theorem Sound.answer (sound : Sound locked search state path) {query : κ} {answer : β}
    (right : answer = search.answer query (path.map Prod.snd)) :
    Sound locked search (state.answer query answer) path where
  __ := sound
  added := by
    rw [State.answer, addedTo_append]
    exact sound.added.trans (List.append_nil _).symm
  legal := by
    rw [right, sound.added]
    exact sound.legal.answered query

/-- A search follows a pointer to a cell behind those it has passed, or to the end. -/
theorem Sound.follow (sound : Sound locked search state path) {query : κ}
    (searching : ∀ place, state.places thread = some place → Searching place)
    (late : search.early query = none) {pointer : Option Addr}
    (ends : pointer = none → (path.map Prod.snd).findSome? (search.judge query) = none)
    (leads : ∀ addr, pointer = some addr → Passed (search.judge query) path addr) :
    Sound locked search (state.follow search thread query pointer) path := by
  cases pointer with
  | none =>
      refine (sound.seek searching fun _ isNew => by cases isNew).answer ?_
      rw [Search.answer, late]
      simp only
      rw [ends rfl]
      rfl
  | some addr =>
      refine sound.seek searching ?_
      rintro place ⟨⟩
      exact ⟨trivial, late, leads addr rfl⟩

end

/-! ## Additions -/

section

variable {list : Linked Addr α} {path : List (Addr × α)} {place : Place Addr κ} {addr : Addr}
variable {value : α}

/-- A cell that is brought is there already. -/
theorem Fits.brought (fits : Fits search list path place) (brings : Brings addr place) :
    addr ∉ path.map Prod.fst ∧ ∃ value, list.cells addr = some ⟨value, none⟩ := by
  cases place <;> cases brings <;> exact fits

variable [DecidableEq Addr]

theorem Fits.prepare (fits : Fits search list path place) (free : list.cells addr = none) :
    Fits search (list.prepare addr value) path place := by
  have kept {known : Addr} (brought : ∃ value, list.cells known = some ⟨value, none⟩) :
      ∃ value', (list.prepare addr value).cells known = some ⟨value', none⟩ := by
    obtain ⟨value', there⟩ := brought
    refine ⟨value', (Function.update_of_ne ?_ _ _).trans there⟩
    rintro rfl
    cases free.symm.trans there
  cases place with
  | wait known => exact ⟨fits.1, kept fits.2⟩
  | append known => exact ⟨fits.1, kept fits.2⟩
  | advance known => exact fits
  | leave => exact fits
  | visit query known => exact fits

/-- Who is not adding, and brings another cell, is not disturbed by a link. -/
theorem Fits.link (fits : Fits search list path place) (last : list.last = lastOf path)
    (outside : ¬Inside place) (other : ¬Brings addr place) :
    Fits search (list.link addr) (path ++ [(addr, value)]) place := by
  cases place with
  | wait known =>
      obtain ⟨fresh, value', there⟩ := fits
      refine ⟨?_, value', (link_cells_other last fresh).trans there⟩
      rw [List.map_append, List.mem_append, not_or]
      exact ⟨fresh, fun same => other (List.mem_singleton.mp same)⟩
  | visit query known => exact ⟨fits.1, fits.2.append _⟩
  | append | advance | leave => exact absurd trivial outside

end

section

variable [DecidableEq Thread] [DecidableEq Addr] {locked : Bool}
variable {state : State Thread Addr κ α β} {path : List (Addr × α)} {thread : Thread}
variable {addr : Addr} {value : α}

omit [DecidableEq Thread] [DecidableEq Addr] in
theorem Sound.fresh (sound : Sound locked search state path)
    (free : state.list.cells addr = none) : addr ∉ path.map Prod.fst := by
  intro member
  obtain ⟨cell, there⟩ := sound.follows.cell member
  cases free.symm.trans there

omit [DecidableEq Thread] [DecidableEq Addr] in
/-- Nobody brings a cell that is not there. -/
theorem Sound.not_brings (sound : Sound locked search state path)
    (free : state.list.cells addr = none) (other : Thread) :
    ¬At (Brings addr) state.places other := by
  rintro ⟨place, there, brings⟩
  obtain ⟨-, value, brought⟩ := (sound.fits other place there).brought brings
  cases free.symm.trans brought

omit [DecidableEq Addr] in
theorem begun (locked : Bool) (addr : Addr) :
    let place : Place Addr κ := if locked then .wait addr else .append addr
    Brings addr place ∧ (∀ known, Brings known place → known = addr) ∧
      (Inside place → locked = false) ∧ (Locking place → locked = true) := by
  cases locked
  · exact ⟨rfl, fun _ same => same.symm, fun _ => rfl, False.elim⟩
  · exact ⟨rfl, fun _ same => same.symm, False.elim, fun _ => rfl⟩

/-- A cell is prepared; without a lock, nobody else is adding. -/
theorem Sound.begin (sound : Sound locked search state path)
    (outside : state.places thread = none) (free : state.list.cells addr = none)
    (nobody : locked = false → ∀ other, ¬At Inside state.places other) :
    Sound locked search (state.begin locked thread value addr) path where
  follows := sound.follows.prepare free value
  nodup := sound.nodup
  last := by
    refine sound.last.imp id fun ⟨other, known, there⟩ => ⟨other, known, ?_⟩
    refine (Function.update_of_ne ?_ _ _).trans there
    rintro rfl
    cases outside.symm.trans there
  fits := by
    refine forall_update (fun other place _ there => (sound.fits other place there).prepare free)
      ?_
    rintro place ⟨⟩
    have prepared : ∃ value', (state.list.prepare addr value).cells addr = some ⟨value', none⟩ :=
      ⟨value, Function.update_self ..⟩
    cases locked
    · exact ⟨sound.fresh free, prepared⟩
    · exact ⟨sound.fresh free, prepared⟩
  apart known := by
    refine (sound.apart known).update ?_
    rintro place ⟨⟩ brings
    rw [(begun locked addr).2.1 known brings]
    exact .inr (sound.not_brings free)
  owned known there := by
    by_cases same : known = addr
    · subst same
      exact .inr ⟨thread, at_update_self (begun locked known).1⟩
    · have was : (state.list.cells known).isSome := by
        rw [← there]
        exact congrArg Option.isSome (Function.update_of_ne same _ _).symm
      refine (sound.owned known was).imp id fun ⟨other, brings⟩ => ⟨other, brings.stays ?_⟩
      rintro rfl
      obtain ⟨place, found, -⟩ := brings
      cases outside.symm.trans found
  alone := by
    refine sound.alone.update ?_
    rintro place ⟨⟩ inside
    exact .inr (nobody ((begun locked addr).2.2.1 inside))
  guarded locks := by
    refine ⟨(sound.guarded locks).1, fun open' other inside => ?_⟩
    rcases at_update inside with inside | ⟨-, place, ⟨⟩, inside⟩
    · exact (sound.guarded locks).2 open' other inside
    · cases locks.symm.trans ((begun locked addr).2.2.1 inside)
  bare unlocked other locking := by
    rcases at_update locking with locking | ⟨-, place, ⟨⟩, locking⟩
    · exact sound.bare unlocked other locking
    · cases unlocked.symm.trans ((begun locked addr).2.2.2 locking)
  added := sound.added
  legal := sound.legal

omit [DecidableEq Addr] in
/-- The lock is taken: nobody else is adding. -/
theorem Sound.pend (sound : Sound locked search state path)
    (here : state.places thread = some (.wait addr)) (free : 0 < state.lock) :
    Sound locked search
      { state.move thread (some (.append addr)) with lock := state.lock - 1 } path where
  follows := sound.follows
  nodup := sound.nodup
  last := by
    refine sound.last.imp id fun ⟨other, known, there⟩ => ⟨other, known, ?_⟩
    refine (Function.update_of_ne ?_ _ _).trans there
    rintro rfl
    cases here.symm.trans there
  fits := by
    refine forall_update (fun other place _ => sound.fits other place) ?_
    rintro place ⟨⟩
    exact sound.fits thread (.wait addr) here
  apart known := by
    refine (sound.apart known).update ?_
    rintro place ⟨⟩ brings
    exact .inl ⟨_, here, brings⟩
  owned known there := by
    refine (sound.owned known there).imp id fun ⟨other, brings⟩ => ⟨other, ?_⟩
    by_cases same : other = thread
    · subst same
      obtain ⟨place, found, brings⟩ := brings
      cases here.symm.trans found
      exact at_update_self brings
    · exact brings.stays same
  alone := by
    refine sound.alone.update ?_
    rintro place ⟨⟩ -
    cases mode : locked
    · exact absurd ⟨_, here, trivial⟩ (sound.bare mode thread)
    · exact .inr ((sound.guarded mode).2 free)
  guarded locks := by
    have most := (sound.guarded locks).1
    refine ⟨Nat.le_trans (Nat.sub_le ..) most, fun left => ?_⟩
    have : 0 < state.lock - 1 := left
    omega
  bare unlocked other locking := by
    rcases at_update locking with locking | ⟨-, place, ⟨⟩, locking⟩
    · exact sound.bare unlocked other locking
    · exact locking
  added := sound.added
  legal := sound.legal

omit [DecidableEq Thread] [DecidableEq Addr] in
/-- Nobody has linked a cell that is not yet the last. -/
theorem Sound.last_of_append (sound : Sound locked search state path)
    (here : state.places thread = some (.append addr)) : state.list.last = lastOf path := by
  rcases sound.last with last | ⟨other, known, there⟩
  · exact last
  · cases sound.alone thread other ⟨_, here, trivial⟩ ⟨_, there, trivial⟩
    cases here.symm.trans there

/-- A cell is linked, and with it its value is in the list. -/
theorem Sound.link (sound : Sound locked search state path)
    (here : state.places thread = some (.append addr))
    (there : state.list.cells addr = some ⟨value, none⟩) :
    Sound locked search
      { state.move thread (some (.advance addr)) with
        list := state.list.link addr
        events := state.events ++ [.added value] } (path ++ [(addr, value)]) where
  follows := sound.follows.link sound.nodup (sound.last_of_append here) there
    ((sound.fits thread _ here).brought rfl).1
  nodup := by
    rw [List.map_append, List.nodup_append]
    refine ⟨sound.nodup, List.nodup_singleton _, ?_⟩
    rintro known member _ last rfl
    cases List.mem_singleton.mp last
    exact ((sound.fits thread _ here).brought rfl).1 member
  last := .inr ⟨thread, addr, Function.update_self ..⟩
  fits := by
    refine forall_update (fun other place different found => ?_) ?_
    · refine (sound.fits other place found).link (sound.last_of_append here) (fun inside => ?_)
        fun brings => ?_
      · exact different (sound.alone other thread ⟨_, found, inside⟩ ⟨_, here, trivial⟩)
      · exact different (sound.apart addr other thread ⟨_, found, brings⟩ ⟨_, here, rfl⟩)
    · rintro place ⟨⟩
      exact lastOf_append path (addr, value)
  apart known := (sound.apart known).update fun place isNew brings => by
    cases isNew
    cases brings
  owned known found := by
    have was : (state.list.cells known).isSome := by
      rw [← link_cells_isSome state.list addr known]
      exact found
    rw [List.map_append]
    rcases sound.owned known was with member | ⟨other, brings⟩
    · exact .inl (List.mem_append_left _ member)
    by_cases same : other = thread
    · subst same
      obtain ⟨place, found', brings⟩ := brings
      cases here.symm.trans found'
      cases brings
      exact .inl (List.mem_append_right _ (List.mem_singleton.mpr rfl))
    · exact .inr ⟨other, brings.stays same⟩
  alone := sound.alone.update fun _ _ _ => .inl ⟨_, here, trivial⟩
  guarded locks := by
    refine ⟨(sound.guarded locks).1, fun free other inside => ?_⟩
    rcases at_update inside with inside | ⟨rfl, -⟩
    · exact (sound.guarded locks).2 free other inside
    · exact (sound.guarded locks).2 free other ⟨_, here, trivial⟩
  bare unlocked other locking := by
    rcases at_update locking with locking | ⟨-, place, ⟨⟩, locking⟩
    · exact sound.bare unlocked other locking
    · exact locking
  added := by
    rw [List.map_append, addedTo_append, sound.added]
    rfl
  legal := sound.legal.added value

omit [DecidableEq Addr] in
/-- Who leaves a place of those who add, and leaves the cells alone. -/
theorem Sound.owned_leave (sound : Sound locked search state path) {place : Place Addr κ}
    (here : state.places thread = some place) (empty : ∀ known, ¬Brings known place)
    (new : Option (Place Addr κ)) (known : Addr) (there : (state.list.cells known).isSome) :
    known ∈ path.map Prod.fst ∨
      ∃ other, At (Brings known) (Function.update state.places thread new) other := by
  refine (sound.owned known there).imp id fun ⟨other, brings⟩ => ⟨other, brings.stays ?_⟩
  rintro rfl
  exact not_at_of_not here (empty known) brings

omit [DecidableEq Addr] in
/-- The pointer to the last cell is set, and whoever adds next finds it. -/
theorem Sound.advance (sound : Sound locked search state path)
    (here : state.places thread = some (.advance addr)) :
    Sound locked search
      { state.move thread (if locked then some .leave else none) with
        list := state.list.advance addr } path where
  follows := sound.follows
  nodup := sound.nodup
  last := .inl (sound.fits thread _ here).symm
  fits := by
    refine forall_update (fun other place _ there => ?_) ?_
    · have fits := sound.fits other place there
      cases place <;> exact fits
    · cases locked
      · rintro place ⟨⟩
      · rintro place ⟨⟩
        exact trivial
  apart known := by
    refine (sound.apart known).update ?_
    cases locked
    · rintro place ⟨⟩
    · rintro place ⟨⟩ brings
      cases brings
  owned := sound.owned_leave here (fun _ => id) _
  alone := sound.alone.update fun _ _ _ => .inl ⟨_, here, trivial⟩
  guarded locks := by
    refine ⟨(sound.guarded locks).1, fun free other inside => ?_⟩
    rcases at_update inside with inside | ⟨rfl, -⟩
    · exact (sound.guarded locks).2 free other inside
    · exact (sound.guarded locks).2 free other ⟨_, here, trivial⟩
  bare unlocked other locking := by
    rcases at_update locking with locking | ⟨-, place, isNew, -⟩
    · exact sound.bare unlocked other locking
    · rw [unlocked] at isNew
      cases isNew
  added := sound.added
  legal := sound.legal

omit [DecidableEq Addr] in
/-- The lock is given back by the one who has it. -/
theorem Sound.leave (sound : Sound locked search state path)
    (here : state.places thread = some .leave) :
    Sound locked search { state.move thread none with lock := state.lock + 1 } path where
  follows := sound.follows
  nodup := sound.nodup
  last := by
    refine sound.last.imp id fun ⟨other, known, there⟩ => ⟨other, known, ?_⟩
    refine (Function.update_of_ne ?_ _ _).trans there
    rintro rfl
    cases here.symm.trans there
  fits := forall_update (fun other place _ => sound.fits other place) nofun
  apart known := (sound.apart known).update nofun
  owned := sound.owned_leave here (fun _ => id) _
  alone := sound.alone.update nofun
  guarded locks := by
    have taken : state.lock = 0 := by
      by_contra free
      exact (sound.guarded locks).2 (Nat.pos_of_ne_zero free) thread ⟨_, here, trivial⟩
    refine ⟨Nat.succ_le_succ (Nat.le_of_eq taken), fun _ other inside => ?_⟩
    exact sound.alone.left ⟨_, here, trivial⟩ other inside
  bare unlocked other locking := by
    rcases at_update locking with locking | ⟨-, place, ⟨⟩, -⟩
    exact sound.bare unlocked other locking
  added := sound.added
  legal := sound.legal

end

/-! ## Runs -/

section

variable [DecidableEq Thread] [DecidableEq Addr] {locked : Bool}
variable {state next : State Thread Addr κ α β} {path : List (Addr × α)}

/-- A thread at its place does what keeps the list sound. -/
theorem Sound.proceed (sound : Sound locked search state path) {thread : Thread}
    {place : Place Addr κ} (here : state.places thread = some place)
    (taken : state.proceed locked search thread place = some next) :
    ∃ path', Sound locked search next path' := by
  cases place with
  | wait addr =>
      rw [State.proceed] at taken
      split at taken
      · cases taken
      · rename_i held
        cases taken
        exact ⟨path, sound.pend here (Nat.pos_of_ne_zero held)⟩
  | append addr =>
      obtain ⟨value, there⟩ := ((sound.fits thread _ here).brought rfl).2
      rw [State.proceed, there] at taken
      cases taken
      exact ⟨_, sound.link here there⟩
  | advance addr =>
      cases taken
      exact ⟨path, sound.advance here⟩
  | leave =>
      cases taken
      exact ⟨path, sound.leave here⟩
  | visit query addr =>
      obtain ⟨late, passed⟩ := sound.fits thread _ here
      obtain ⟨cell, there, settles, ends, leads⟩ := passed.visit sound.follows
      have searching : ∀ place, state.places thread = some place → Searching place := by
        intro place found
        cases here.symm.trans found
        exact trivial
      rw [State.proceed, there, Option.map_some, Option.some.injEq] at taken
      subst taken
      cases settled : search.judge query cell.value with
      | some answer =>
          refine ⟨path, (sound.seek searching fun _ isNew => by cases isNew).answer ?_⟩
          rw [Search.answer, late]
          simp only
          rw [settles answer settled]
          rfl
      | none =>
          exact ⟨path, sound.follow searching late (ends settled) fun addr => leads addr settled⟩

/-- Without a lock, nobody begins to add while somebody else does. -/
def Alone (locked : Bool) (state : State Thread Addr κ α β) : Action Thread Addr κ α → Prop
  | .add _ _ (some _) => locked = false → ∀ other, ¬At Inside state.places other
  | _ => True

theorem Sound.step (sound : Sound locked search state path) {action : Action Thread Addr κ α}
    (alone : Alone locked state action) (taken : step locked search state action = some next) :
    ∃ path', Sound locked search next path' := by
  cases action with
  | add thread value block =>
      cases outside : state.places thread with
      | some place => simp [SharedList.step, outside] at taken
      | none =>
          cases block with
          | none =>
              simp only [SharedList.step, outside, Option.some.injEq] at taken
              exact ⟨path, taken ▸ sound⟩
          | some addr =>
              simp only [SharedList.step, outside, Option.ite_none_left_eq_some,
                Option.some.injEq] at taken
              obtain ⟨unused, rfl⟩ := taken
              exact ⟨path, sound.begin outside (Option.not_isSome_iff_eq_none.mp unused) alone⟩
  | look thread query =>
      cases outside : state.places thread with
      | some place => simp [SharedList.step, outside] at taken
      | none =>
          have searching : ∀ place, state.places thread = some place → Searching place := by
            intro place found
            cases outside.symm.trans found
          cases early : search.early query with
          | some answer =>
              simp only [SharedList.step, outside, early, Option.some.injEq] at taken
              subst taken
              refine ⟨path, sound.answer ?_⟩
              rw [Search.answer, early]
          | none =>
              simp only [SharedList.step, outside, early, Option.some.injEq] at taken
              subst taken
              refine ⟨path, sound.follow searching early (fun ends => ?_) fun addr leads => ?_⟩
              · have nothing := sound.follows
                rw [ends] at nothing
                rw [nothing.nil]
                rfl
              · exact Passed.first (leads ▸ sound.follows)
  | go thread =>
      cases here : state.places thread with
      | none => simp [SharedList.step, here] at taken
      | some place =>
          simp only [SharedList.step, here] at taken
          exact sound.proceed here taken

end

end PeridotSw.Machine.SharedList

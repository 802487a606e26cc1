import Mathlib.Logic.Function.Basic

/-!
# Custody of items

Holders hold at most one item each.  The items in custody are those that must not be lost:
each is held by exactly one holder, and nothing else is held.  An item enters custody with
the holder that gets it, moves from one holder to another, and leaves custody when its
holder gives it up.  Books list the items that have entered and those that have left.
-/

namespace PeridotSw.Machine.Ledger

variable {Holder Item : Type}

structure Custody (holding : Holder → Option Item) (live : Item → Prop) : Prop where
  live_of_held : ∀ holder item, holding holder = some item → live item
  single : ∀ one other item, holding one = some item → holding other = some item → one = other
  kept : ∀ item, live item → ∃ holder, holding holder = some item

variable {holding : Holder → Option Item} {live live' : Item → Prop} {holder other : Holder}
  {item : Item}

theorem custody_empty : Custody (fun _ : Holder => (none : Option Item)) fun _ => False where
  live_of_held := nofun
  single := nofun
  kept := nofun

theorem Custody.congr (custody : Custody holding live) (same : ∀ item, live' item ↔ live item) :
    Custody holding live' where
  live_of_held holder item held := (same item).mpr (custody.live_of_held holder item held)
  single := custody.single
  kept item alive := custody.kept item ((same item).mp alive)

/-- An item in custody is held once. -/
theorem Custody.existsUnique (custody : Custody holding live) (alive : live item) :
    ∃! holder, holding holder = some item := by
  obtain ⟨holder, held⟩ := custody.kept item alive
  exact ⟨holder, held, fun other held' => custody.single other holder item held' held⟩

variable [DecidableEq Holder]

theorem Custody.gain (custody : Custody holding live) (empty : holding holder = none)
    (fresh : ¬live item) (after : ∀ any, live' any ↔ any = item ∨ live any) :
    Custody (Function.update holding holder (some item)) live' where
  live_of_held one any held := by
    by_cases here : one = holder
    · rw [here, Function.update_self] at held
      exact (after any).mpr (.inl (Option.some.inj held).symm)
    · rw [Function.update_of_ne here] at held
      exact (after any).mpr (.inr (custody.live_of_held one any held))
  single one two any first second := by
    by_cases here : one = holder
    · by_cases there : two = holder
      · rw [here, there]
      · rw [here, Function.update_self] at first
        rw [Function.update_of_ne there] at second
        cases first
        exact absurd (custody.live_of_held two item second) fresh
    · by_cases there : two = holder
      · rw [there, Function.update_self] at second
        rw [Function.update_of_ne here] at first
        cases second
        exact absurd (custody.live_of_held one item first) fresh
      · rw [Function.update_of_ne here] at first
        rw [Function.update_of_ne there] at second
        exact custody.single one two any first second
  kept any alive := by
    rcases (after any).mp alive with rfl | before
    · exact ⟨holder, Function.update_self ..⟩
    · obtain ⟨one, held⟩ := custody.kept any before
      have apart : one ≠ holder := by
        rintro rfl
        rw [empty] at held
        cases held
      exact ⟨one, by rw [Function.update_of_ne apart, held]⟩

theorem Custody.lose (custody : Custody holding live) (held : holding holder = some item)
    (after : ∀ any, live' any ↔ any ≠ item ∧ live any) :
    Custody (Function.update holding holder none) live' where
  live_of_held one any found := by
    by_cases here : one = holder
    · rw [here, Function.update_self] at found
      cases found
    · rw [Function.update_of_ne here] at found
      refine (after any).mpr ⟨?_, custody.live_of_held one any found⟩
      rintro rfl
      exact here (custody.single one holder any found held)
  single one two any first second := by
    by_cases here : one = holder
    · rw [here, Function.update_self] at first
      cases first
    · by_cases there : two = holder
      · rw [there, Function.update_self] at second
        cases second
      · rw [Function.update_of_ne here] at first
        rw [Function.update_of_ne there] at second
        exact custody.single one two any first second
  kept any alive := by
    obtain ⟨different, before⟩ := (after any).mp alive
    obtain ⟨one, found⟩ := custody.kept any before
    have apart : one ≠ holder := by
      rintro rfl
      rw [held] at found
      exact different (Option.some.inj found).symm
    exact ⟨one, by rw [Function.update_of_ne apart, found]⟩

theorem Custody.move (custody : Custody holding live) (held : holding holder = some item)
    (empty : holding other = none) :
    Custody (Function.update (Function.update holding holder none) other (some item)) live := by
  have given : Custody (Function.update holding holder none) fun any => any ≠ item ∧ live any :=
    custody.lose held fun _ => Iff.rfl
  have apart : other ≠ holder := by
    rintro rfl
    rw [held] at empty
    cases empty
  refine given.gain ?_ (fun both => both.1 rfl) fun any => ?_
  · rw [Function.update_of_ne apart, empty]
  · by_cases same : any = item
    · rw [same]
      exact iff_of_true (custody.live_of_held holder item held) (.inl rfl)
    · simp [same]

/-! ## Books -/

/-- Every item that has entered and not left is held once; none has left twice. -/
structure Books (holding : Holder → Option Item) (entered left : List Item) : Prop where
  custody : Custody holding fun item => item ∈ entered ∧ item ∉ left
  once : left.Nodup
  listed : ∀ item ∈ left, item ∈ entered

variable {entered left : List Item}

omit [DecidableEq Holder] in
theorem books_empty : Books (fun _ : Holder => (none : Option Item)) [] [] where
  custody := custody_empty.congr fun _ => by simp
  once := List.nodup_nil
  listed := nofun

theorem Books.enter (books : Books holding entered left) (empty : holding holder = none)
    (fresh : item ∉ entered) :
    Books (Function.update holding holder (some item)) (entered ++ [item]) left where
  custody := by
    refine books.custody.gain empty (fun live => fresh live.1) fun any => ?_
    have alive : item ∉ left := fun inside => fresh (books.listed item inside)
    by_cases same : any = item
    · simp [same, alive]
    · simp [same]
  once := books.once
  listed any inside := List.mem_append_left _ (books.listed any inside)

theorem Books.leave (books : Books holding entered left) (held : holding holder = some item) :
    Books (Function.update holding holder none) entered (left ++ [item]) where
  custody := by
    refine books.custody.lose held fun any => ?_
    rw [List.mem_append, List.mem_singleton, not_or]
    constructor
    · rintro ⟨inside, alive, different⟩
      exact ⟨different, inside, alive⟩
    · rintro ⟨different, inside, alive⟩
      exact ⟨inside, alive, different⟩
  once := by
    have alive := (books.custody.live_of_held holder item held).2
    refine List.nodup_append.mpr ⟨books.once, by simp, ?_⟩
    rintro any inside other (_ | ⟨_, ⟨⟩⟩) rfl
    exact alive inside
  listed any inside := by
    rcases List.mem_append.mp inside with before | now
    · exact books.listed any before
    · rw [List.mem_singleton.mp now]
      exact (books.custody.live_of_held holder item held).1

theorem Books.move (books : Books holding entered left) (held : holding holder = some item)
    (empty : holding other = none) :
    Books (Function.update (Function.update holding holder none) other (some item)) entered
      left where
  custody := books.custody.move held empty
  once := books.once
  listed := books.listed

/-- Holders pass items on among themselves, and give up the items of a list. -/
inductive Deals : (Holder → Option Item) → List Item → (Holder → Option Item) → Prop where
  | done (holding : Holder → Option Item) : Deals holding [] holding
  | move {holding after : Holder → Option Item} {given : List Item} (holder other : Holder)
      (item : Item) (held : holding holder = some item) (empty : holding other = none)
      (rest : Deals
        (Function.update (Function.update holding holder none) other (some item)) given after) :
      Deals holding given after
  | give {holding after : Holder → Option Item} {given : List Item} (holder : Holder)
      (item : Item) (held : holding holder = some item)
      (rest : Deals (Function.update holding holder none) given after) :
      Deals holding (item :: given) after

theorem Deals.trans {first second third : Holder → Option Item} {given later : List Item}
    (deals : Deals first given second) (rest : Deals second later third) :
    Deals first (given ++ later) third := by
  induction deals with
  | done holding => exact rest
  | move holder other item held empty _ ih => exact .move holder other item held empty (ih rest)
  | give holder item held _ ih => exact .give holder item held (ih rest)

theorem Books.deals (books : Books holding entered left) {given : List Item}
    {after : Holder → Option Item} (deals : Deals holding given after) :
    Books after entered (left ++ given) := by
  induction deals generalizing left with
  | done holding =>
      rw [List.append_nil]
      exact books
  | move holder other item held empty rest ih => exact ih (books.move held empty)
  | give holder item held rest ih =>
      have later := ih (books.leave held)
      rwa [List.append_assoc] at later

variable {Group : Type} [DecidableEq Group]

theorem uncurry_update (holding : Group → Holder → Option Item) (group : Group) (holder : Holder)
    (value : Option Item) :
    Function.update (Function.uncurry holding) (group, holder) value =
      Function.uncurry
        (Function.update holding group (Function.update (holding group) holder value)) := by
  funext ⟨one, two⟩
  by_cases same : one = group
  · subst same
    by_cases here : two = holder <;> simp [Function.uncurry_apply_pair, Function.update, here]
  · simp [Function.uncurry_apply_pair, Function.update, same]

/-- One group of holders deals among itself. -/
theorem Deals.group {holding : Group → Holder → Option Item} {group : Group}
    {given : List Item} {after : Holder → Option Item}
    (deals : Deals (holding group) given after) :
    Deals (Function.uncurry holding) given
      (Function.uncurry (Function.update holding group after)) := by
  generalize start : holding group = before at deals
  induction deals generalizing holding with
  | done before =>
      rw [← start, Function.update_eq_self]
      exact .done _
  | move holder other item held empty rest ih =>
      subst start
      have next := ih (Function.update_self group
        (Function.update (Function.update (holding group) holder none) other (some item)) holding)
      rw [Function.update_idem] at next
      refine .move (group, holder) (group, other) item held empty ?_
      rw [uncurry_update, uncurry_update, Function.update_self, Function.update_idem]
      exact next
  | give holder item held rest ih =>
      subst start
      have next := ih (Function.update_self group (Function.update (holding group) holder none)
        holding)
      rw [Function.update_idem] at next
      refine .give (group, holder) item held ?_
      rw [uncurry_update]
      exact next

end PeridotSw.Machine.Ledger

import Mathlib.Data.List.Basic
import Mathlib.Data.List.Nodup
import Mathlib.Logic.Function.Basic

/-!
# Linked lists that grow at their end

Cells lie in a memory and point to the next cell.  A list is reached from its first cell and
remembers its last; a new cell is written before anything points to it.  What a list holds is
the path along its pointers.
-/

namespace PeridotSw.Machine.LinkedList

structure Cell (Addr α : Type) where
  value : α
  next : Option Addr

/-- The memory of all cells, and the two pointers of a list. -/
structure Linked (Addr α : Type) where
  cells : Addr → Option (Cell Addr α)
  first : Option Addr
  last : Option Addr

variable {Addr α : Type}

def Linked.empty : Linked Addr α where
  cells _ := none
  first := none
  last := none

/-! ## Operations -/

section

variable [DecidableEq Addr]

/-- A new cell that nothing points to. -/
def Linked.prepare (list : Linked Addr α) (addr : Addr) (value : α) : Linked Addr α :=
  { list with cells := Function.update list.cells addr (some ⟨value, none⟩) }

/-- The last cell comes to point to the new one; in an empty list, the first pointer. -/
def Linked.link (list : Linked Addr α) (addr : Addr) : Linked Addr α :=
  match list.last with
  | none => { list with first := some addr }
  | some last =>
      { list with
        cells := Function.update list.cells last
          ((list.cells last).map fun cell => { cell with next := some addr }) }

def Linked.advance (list : Linked Addr α) (addr : Addr) : Linked Addr α :=
  { list with last := some addr }

end

/-! ## Paths -/

/-- The cells from a pointer to the end of the list, with their values. -/
def Path (cells : Addr → Option (Cell Addr α)) : Option Addr → List (Addr × α) → Prop
  | pointer, [] => pointer = none
  | pointer, entry :: rest =>
      pointer = some entry.1 ∧
        ∃ next, cells entry.1 = some ⟨entry.2, next⟩ ∧ Path cells next rest

def lastOf (path : List (Addr × α)) : Option Addr := path.getLast?.map Prod.fst

theorem lastOf_append (front : List (Addr × α)) (entry : Addr × α) :
    lastOf (front ++ [entry]) = some entry.1 := by
  rw [lastOf, List.getLast?_concat, Option.map_some]

variable {cells other : Addr → Option (Cell Addr α)} {pointer : Option Addr}
variable {path : List (Addr × α)}

theorem Path.cell (follows : Path cells pointer path) {addr : Addr}
    (member : addr ∈ path.map Prod.fst) : ∃ cell, cells addr = some cell := by
  induction path generalizing pointer with
  | nil => cases member
  | cons entry rest ih =>
      obtain ⟨-, next, here, later⟩ := follows
      rcases List.mem_cons.mp member with rfl | further
      · exact ⟨_, here⟩
      · exact ih later further

/-- Only the cells of a path matter to it. -/
theorem Path.congr (follows : Path cells pointer path)
    (same : ∀ addr ∈ path.map Prod.fst, other addr = cells addr) : Path other pointer path := by
  induction path generalizing pointer with
  | nil => exact follows
  | cons entry rest ih =>
      obtain ⟨start, next, here, later⟩ := follows
      rw [List.map_cons, List.forall_mem_cons] at same
      exact ⟨start, next, same.1.trans here, ih later same.2⟩

/-- At a cell of a path its value is read, and the pointer to the next. -/
theorem Path.at {seen rest : List (Addr × α)} {entry : Addr × α}
    (follows : Path cells pointer (seen ++ entry :: rest)) :
    ∃ next, cells entry.1 = some ⟨entry.2, next⟩ ∧ Path cells next rest := by
  induction seen generalizing pointer with
  | nil => exact follows.2
  | cons first seen ih =>
      obtain ⟨-, next, -, later⟩ := follows
      exact ih later

theorem Path.nil (follows : Path cells none path) : path = [] := by
  cases path with
  | nil => rfl
  | cons entry rest => cases follows.1

/-! ## Growing -/

section

variable [DecidableEq Addr] {list : Linked Addr α} {addr : Addr} {value : α}

theorem Path.prepare (follows : Path list.cells list.first path) (free : list.cells addr = none)
    (value : α) : Path (list.prepare addr value).cells (list.prepare addr value).first path := by
  refine follows.congr fun known member => Function.update_of_ne ?_ _ _
  rintro rfl
  obtain ⟨cell, there⟩ := follows.cell member
  rw [free] at there
  cases there

/-- The cell behind a path is set to point to a new one. -/
theorem Path.extend {entry : Addr × α} {front : List (Addr × α)}
    (follows : Path cells pointer (front ++ [entry]))
    (nodup : ((front ++ [entry]).map Prod.fst).Nodup) (there : cells addr = some ⟨value, none⟩)
    (apart : addr ≠ entry.1) :
    Path (Function.update cells entry.1
      ((cells entry.1).map fun cell => { cell with next := some addr })) pointer
      (front ++ [entry] ++ [(addr, value)]) := by
  induction front generalizing pointer with
  | nil =>
      obtain ⟨start, next, here, -⟩ := follows
      refine ⟨start, some addr, ?_, rfl, none, ?_, rfl⟩
      · rw [Function.update_self, here]
        rfl
      · exact (Function.update_of_ne apart _ _).trans there
  | cons first front ih =>
      obtain ⟨start, next, here, later⟩ := follows
      rw [List.cons_append, List.map_cons, List.nodup_cons] at nodup
      have differs : first.1 ≠ entry.1 := by
        intro same
        exact nodup.1 (List.mem_map.mpr ⟨entry, List.mem_append_right _ (List.mem_singleton.mpr rfl),
          same.symm⟩)
      exact ⟨start, next, (Function.update_of_ne differs _ _).trans here, ih later nodup.2⟩

/-- Linking a prepared cell makes the path longer by it. -/
theorem Path.link (follows : Path list.cells list.first path)
    (nodup : (path.map Prod.fst).Nodup) (last : list.last = lastOf path)
    (there : list.cells addr = some ⟨value, none⟩) (fresh : addr ∉ path.map Prod.fst) :
    Path (list.link addr).cells (list.link addr).first (path ++ [(addr, value)]) := by
  rcases path.eq_nil_or_concat' with rfl | ⟨front, entry, rfl⟩
  · rw [Linked.link, last]
    exact ⟨rfl, none, there, rfl⟩
  · rw [lastOf_append] at last
    rw [Linked.link, last]
    refine follows.extend nodup there fun same => fresh ?_
    rw [same]
    exact List.mem_map.mpr ⟨entry, List.mem_append_right _ (List.mem_singleton.mpr rfl), rfl⟩

/-- Linking leaves the cells alone that are no part of the list. -/
theorem link_cells_other (last : list.last = lastOf path) {known : Addr}
    (outside : known ∉ path.map Prod.fst) : (list.link addr).cells known = list.cells known := by
  rcases path.eq_nil_or_concat' with rfl | ⟨front, entry, rfl⟩
  · rw [Linked.link, last]
    rfl
  · rw [lastOf_append] at last
    rw [Linked.link, last]
    refine Function.update_of_ne (fun same => outside ?_) _ _
    rw [same]
    exact List.mem_map.mpr ⟨entry, List.mem_append_right _ (List.mem_singleton.mpr rfl), rfl⟩

/-- No cell comes or goes. -/
theorem link_cells_isSome (list : Linked Addr α) (addr known : Addr) :
    ((list.link addr).cells known).isSome = (list.cells known).isSome := by
  unfold Linked.link
  split
  · rfl
  · rename_i last _
    by_cases same : known = last
    · subst same
      simp only [Function.update_self, Option.isSome_map]
    · simp only [Function.update_of_ne same]

end

/-! ## Searching -/

/-- A search along a list: some questions are answered without it; a cell may settle the
question; and there is an answer for the end of the list. -/
structure Search (κ α β : Type) where
  early : κ → Option β
  judge : κ → α → Option β
  atEnd : κ → β

variable {κ β : Type}

def Search.answer (search : Search κ α β) (query : κ) (values : List α) : β :=
  match search.early query with
  | some answer => answer
  | none => (values.findSome? (search.judge query)).getD (search.atEnd query)

/-- The cells before this one do not settle the question. -/
def Passed (judge : α → Option β) (path : List (Addr × α)) (addr : Addr) : Prop :=
  ∃ seen value rest, path = seen ++ (addr, value) :: rest ∧ ∀ entry ∈ seen, judge entry.2 = none

/-- A search is not disturbed by what is put at the end. -/
theorem Passed.append {judge : α → Option β} {addr : Addr} (passed : Passed judge path addr)
    (more : List (Addr × α)) : Passed judge (path ++ more) addr := by
  obtain ⟨seen, value, rest, rfl, none⟩ := passed
  exact ⟨seen, value, rest ++ more, by simp, none⟩

theorem Passed.first {judge : α → Option β} {addr : Addr} (follows : Path cells (some addr) path) :
    Passed judge path addr := by
  cases path with
  | nil => cases follows
  | cons entry rest =>
      cases follows.1
      exact ⟨[], entry.2, rest, rfl, nofun⟩

/-- What is passed leaves the answer to the rest. -/
theorem findSome_skip {judge : α → Option β} {seen : List (Addr × α)}
    (none : ∀ entry ∈ seen, judge entry.2 = none) (values : List α) :
    (seen.map Prod.snd ++ values).findSome? judge = values.findSome? judge := by
  rw [List.findSome?_append]
  have skipped : (seen.map Prod.snd).findSome? judge = Option.none := by
    rw [List.findSome?_eq_none_iff]
    intro value member
    obtain ⟨entry, there, rfl⟩ := List.mem_map.mp member
    exact none entry there
  rw [skipped, Option.none_or]

/-- A search at a cell of a path: the cell settles the question; or it is the last, and the
question is settled for the whole list; or the search passes on to the next cell. -/
theorem Passed.visit {judge : α → Option β} {addr : Addr} (follows : Path cells pointer path)
    (passed : Passed judge path addr) :
    ∃ cell, cells addr = some cell ∧
      (∀ answer, judge cell.value = some answer →
        (path.map Prod.snd).findSome? judge = some answer) ∧
      (judge cell.value = none → cell.next = none →
        (path.map Prod.snd).findSome? judge = none) ∧
      ∀ next, judge cell.value = none → cell.next = some next → Passed judge path next := by
  obtain ⟨seen, value, rest, rfl, skips⟩ := passed
  obtain ⟨next, here, later⟩ := follows.at
  refine ⟨⟨value, next⟩, here, fun answer settled => ?_, fun unsettled ended => ?_,
    fun onward unsettled goes => ?_⟩
  · rw [List.map_append, findSome_skip skips, List.map_cons, List.findSome?_cons, settled]
  · cases ended
    cases rest with
    | nil => rw [List.map_append, findSome_skip skips, List.map_cons, List.findSome?_cons,
        unsettled, List.map_nil, List.findSome?_nil]
    | cons entry rest => cases later.1
  · cases goes
    cases rest with
    | nil => cases later
    | cons entry rest =>
        cases later.1
        refine ⟨seen ++ [(addr, value)], entry.2, rest, by simp, ?_⟩
        rw [List.forall_mem_append]
        exact ⟨skips, List.forall_mem_singleton.mpr unsettled⟩

end PeridotSw.Machine.LinkedList

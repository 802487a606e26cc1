import Mathlib.Data.List.Basic
import Mathlib.Data.Nat.Notation

/-!
# Path names

A path name is a byte string cut into components by a separator.  Its lexical resolution
drops empty components and single dots; a double dot takes away the component in front of
it, does nothing at the root, and stays where a relative name has nothing in front of it.
-/

namespace PeridotSw.Machine.PathName

def separator : UInt8 := 0x2f
def dot : List UInt8 := [0x2e]
def dotdot : List UInt8 := [0x2e, 0x2e]

/-- The components that have a meaning. -/
def components (path : List UInt8) : List (List UInt8) :=
  (path.splitOn separator).filter fun component => component ≠ [] ∧ component ≠ dot

/-- A resolved path. -/
structure Location where
  absolute : Bool
  names : List (List UInt8)
  deriving DecidableEq

def descend (absolute : Bool) (names : List (List UInt8)) (component : List UInt8) :
    List (List UInt8) :=
  if component = dotdot then
    if names = [] ∨ names.getLast? = some dotdot then
      if absolute then names else names ++ [dotdot]
    else
      names.dropLast
  else
    names ++ [component]

def resolve (path : List UInt8) : Location :=
  let absolute := path.head? = some separator
  ⟨absolute, (components path).foldl (descend absolute) []⟩

/-- The same place, or one reached from it by going down only. -/
def Below (base place : Location) : Prop :=
  place.absolute = base.absolute ∧
    ∃ rest, place.names = base.names ++ rest ∧ dotdot ∉ rest

/-- From `depth` components down, the double dots never lead above the start. -/
def Stays : Nat → List (List UInt8) → Prop
  | _, [] => True
  | depth, component :: rest =>
      if component = dotdot then 0 < depth ∧ Stays (depth - 1) rest else Stays (depth + 1) rest

@[simp] theorem components_nil : components [] = [] := by
  simp [components]

theorem components_append (front back : List UInt8) :
    components (front ++ separator :: back) = components front ++ components back := by
  unfold components
  rw [List.splitOn_append_cons_self, List.filter_append]

/-- Components that stay below a place lead to somewhere below it. -/
theorem foldl_descend_below (absolute : Bool) (base inner : List (List UInt8))
    (plain : dotdot ∉ inner) {more : List (List UInt8)} (stays : Stays inner.length more) :
    ∃ rest, more.foldl (descend absolute) (base ++ inner) = base ++ rest ∧ dotdot ∉ rest := by
  induction more generalizing inner with
  | nil => exact ⟨inner, rfl, plain⟩
  | cons component more ih =>
      rw [List.foldl_cons]
      unfold Stays at stays
      unfold descend
      by_cases up : component = dotdot
      · rw [if_pos up] at stays ⊢
        obtain ⟨deep, stays⟩ := stays
        obtain ⟨front, last, rfl⟩ :=
          List.eq_nil_or_concat inner |>.resolve_left (List.length_pos_iff.mp deep)
        rw [List.concat_eq_append] at plain stays ⊢
        have other : last ≠ dotdot := fun same => plain (by simp [same])
        rw [← List.append_assoc, if_neg (by simp [other]), List.dropLast_concat]
        refine ih front (fun listed => plain (by simp [listed])) ?_
        rw [List.length_append, List.length_singleton, Nat.add_sub_cancel] at stays
        exact stays
      · rw [if_neg up] at stays ⊢
        rw [List.append_assoc]
        refine ih (inner ++ [component]) ?_ ?_
        · simp [plain, Ne.symm up]
        · rw [List.length_append]
          exact stays

/-- Nothing leads above the root. -/
theorem foldl_descend_root (names : List (List UInt8)) (plain : dotdot ∉ names)
    (more : List (List UInt8)) : dotdot ∉ more.foldl (descend true) names := by
  induction more generalizing names with
  | nil => exact plain
  | cons component more ih =>
      refine ih _ ?_
      unfold descend
      split
      · split
        · exact plain
        · exact fun listed => plain (List.dropLast_subset _ listed)
      · simp [plain, Ne.symm ‹_›]

/-- What stays below a name, or is behind the root, is below it. -/
theorem below_of_stays (front back : List UInt8)
    (stays : resolve (front ++ [separator]) = ⟨true, []⟩ ∨ Stays 0 (components back)) :
    Below (resolve (front ++ [separator])) (resolve (front ++ separator :: back)) := by
  have head : (front ++ separator :: back).head? = (front ++ [separator]).head? := by
    cases front <;> rfl
  have whole : resolve (front ++ separator :: back) =
      ⟨(resolve (front ++ [separator])).absolute,
        (components back).foldl (descend (resolve (front ++ [separator])).absolute)
          (resolve (front ++ [separator])).names⟩ := by
    simp only [resolve, head, components_append, components_nil, List.append_nil,
      List.foldl_append]
  rw [whole]
  rcases stays with root | stays
  · rw [root]
    exact ⟨rfl, _, (List.nil_append _).symm, foldl_descend_root [] List.not_mem_nil _⟩
  · obtain ⟨rest, arrives, plain⟩ := foldl_descend_below
      (resolve (front ++ [separator])).absolute (resolve (front ++ [separator])).names []
      List.not_mem_nil stays
    rw [List.append_nil] at arrives
    exact ⟨rfl, rest, arrives, plain⟩

/-- A separator behind a name changes nothing. -/
theorem resolve_separator {path : List UInt8} (nonempty : path ≠ []) :
    resolve (path ++ [separator]) = resolve path := by
  have head : (path ++ [separator]).head? = path.head? := List.head?_append_of_ne_nil _ nonempty
  simp only [resolve, head, components_append, components_nil, List.append_nil]

theorem Below.refl (place : Location) : Below place place :=
  ⟨rfl, [], (List.append_nil _).symm, List.not_mem_nil⟩

end PeridotSw.Machine.PathName

import PeridotSw.Machine.PathName
import PeridotSw.Client.PathAccess

/-!
# Where a validated path leads

The check compares bytes and knows nothing of `.` and `..`.  A path it lets through begins
with the name of an entry that grants the access; it stays there only if the components
behind that name do not lead above it.
-/

namespace PeridotSw.Client.PathConfinement

open PeridotSw.Machine.Memory
open PeridotSw.Machine.PathName
open PeridotSw.Client.Paths
open PeridotSw.Client.PathAccess

/-- The place an entry stands for. -/
def entryLocation (entry : PathEntry) : Location :=
  if entry.flags &&& oDirectory ≠ 0 then resolve (entry.name ++ [slash]) else resolve entry.name

/-- A path that is let through leads to an entry that grants the access, or below it. -/
def Confined (entries : List PathEntry) (path : CString) (flags : Nat) : Prop :=
  peridotClientFsValidatePath entries path flags = 1 →
    ∃ entry ∈ entries, Grants entry flags ∧ Below (entryLocation entry) (resolve path.bytes)

variable {entry : PathEntry} {path : CString}

theorem below_of_covers (covers : Covers entry path) (nonempty : path.bytes ≠ [])
    (stays : entryLocation entry = ⟨true, []⟩ ∨
      Stays 0 (components (path.bytes.drop entry.name.length))) :
    Below (entryLocation entry) (resolve path.bytes) := by
  unfold entryLocation at stays ⊢
  rcases covers with same | ⟨directory, rest, whole⟩
  · rw [same]
    split
    · rw [show slash = separator from rfl, resolve_separator nonempty]
      exact Below.refl _
    · exact Below.refl _
  · rw [if_pos directory] at stays ⊢
    rw [List.append_assoc, List.singleton_append] at whole
    rw [← whole, List.drop_left] at stays
    rw [← whole]
    have behind : components (slash :: rest) = components rest := by
      have parts := components_append [] rest
      rw [components_nil] at parts
      exact parts
    rw [behind] at stays
    exact below_of_stays entry.name rest stays

/-- An entry that grants the access covers a path that is let through, and the path leads to
it or below it if what is behind its name does not lead above it. -/
theorem peridotClientFsValidatePath_stays {entries : List PathEntry} {path : CString} {flags : Nat}
    (valid : peridotClientFsValidatePath entries path flags = 1) :
    ∃ entry ∈ entries, Grants entry flags ∧ Covers entry path ∧
      (entryLocation entry = ⟨true, []⟩ ∨
          Stays 0 (components (path.bytes.drop entry.name.length)) →
        Below (entryLocation entry) (resolve path.bytes)) := by
  have nonempty : path.bytes ≠ [] := by
    intro empty
    rw [peridotClientFsValidatePath, empty] at valid
    cases valid
  rw [validatePath_eq nonempty, validateEntries_iff] at valid
  obtain ⟨⟨entry, found, grants⟩, -⟩ := valid
  have reaches : Reaches entry path := by simpa using List.find?_some found
  exact ⟨entry, List.mem_of_find?_eq_some found, grants, reaches.1,
    below_of_covers reaches.1 nonempty⟩

/-- Down, up again and down from a directory. -/
theorem peridotClientFsValidatePath_stays_downUp :
    ∃ entry ∈ [(⟨oRdwr ||| oDirectory, [0x2f, 0x61]⟩ : PathEntry)], Grants entry 0 ∧
      Covers entry (.of [0x2f, 0x61, 0x2f, 0x62, 0x2f, 0x2e, 0x2e, 0x2f, 0x63] rfl) ∧
      (entryLocation entry = ⟨true, []⟩ ∨
          Stays 0 (components ([0x2f, 0x61, 0x2f, 0x62, 0x2f, 0x2e, 0x2e, 0x2f, 0x63].drop
            entry.name.length)) →
        Below (entryLocation entry)
          (resolve [0x2f, 0x61, 0x2f, 0x62, 0x2f, 0x2e, 0x2e, 0x2f, 0x63])) :=
  @peridotClientFsValidatePath_stays [⟨oRdwr ||| oDirectory, [0x2f, 0x61]⟩]
    (.of [0x2f, 0x61, 0x2f, 0x62, 0x2f, 0x2e, 0x2e, 0x2f, 0x63] rfl) 0 (by decide)

/-- From a directory that may be read back up and into another. -/
theorem not_confined_dotdot :
    ¬Confined
      (pathEntries (fun _ => true) (.of [0x2f, 0x61, 0x2f] rfl) (.of [] rfl) (.of [] rfl) [])
      (.of [0x2f, 0x61, 0x2f, 0x2e, 0x2e, 0x2f, 0x62] rfl) 0 := by
  intro confined
  obtain ⟨entry, listed, -, -, rest, names, -⟩ := confined (by decide)
  have only : entry = ⟨oRdwr ||| oDirectory, [0x2f, 0x61]⟩ := by
    have all : pathEntries (fun _ => true) (.of [0x2f, 0x61, 0x2f] rfl) (.of [] rfl) (.of [] rfl) [] =
        [⟨oRdwr ||| oDirectory, [0x2f, 0x61]⟩] := by decide
    rw [all] at listed
    exact List.mem_singleton.mp listed
  have left : (resolve [0x2f, 0x61, 0x2f, 0x2e, 0x2e, 0x2f, 0x62]).names = [[0x62]] := by decide
  have right : (entryLocation ⟨oRdwr ||| oDirectory, [0x2f, 0x61]⟩).names = [[0x61]] := by decide
  rw [only, right] at names
  have same := (left.symm.trans names)
  cases same

end PeridotSw.Client.PathConfinement

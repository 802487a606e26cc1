import PeridotSw.Rubic.BootJson

/-!
# What the boot file's buffer holds

Before the file is read the buffer holds its name, and behind the file's bytes the rest of
the name stays.
-/

namespace PeridotSw.Rubic.BootBuffer

open PeridotSw.Machine.Memory
open PeridotSw.Machine.Checked
open PeridotSw.Rubic.Info (Storage)
open PeridotSw.Rubic.BootJson

variable {outside : Outside} {runtimes : List CString} {storages : List (Option Storage)}
  {stack : Vector UInt8 256} {storage : Storage}

/-! ## The name -/

/-- The name of the file in the buffer, in front of the last terminator. -/
def nameText (path : List UInt8) : List UInt8 :=
  path ++ (bootName ++ List.replicate (245 - path.length) 0)

theorem length_nameText {path : List UInt8} (short : path.length ≤ 245) :
    (nameText path).length = room := by
  have name : bootName.length = 10 := rfl
  rw [nameText, List.length_append, List.length_append, List.length_replicate, name, room]
  omega

/-- The buffer behind `strncpy`, which fills it with zeros. -/
def copiedText (path : List UInt8) : List UInt8 :=
  path.take room ++ 0 :: List.replicate (room - path.length) 0

theorem length_copiedText (path : List UInt8) : (copiedText path).length = room + 1 := by
  rw [copiedText, List.length_append, List.length_take, List.length_cons, List.length_replicate]
  omega

theorem cleared (stack : Vector UInt8 256) :
    storeAt stack.toList room [0] = .ok (stack.toList.take room ++ [0]) := by
  have size : stack.toList.length = room + 1 := stack.length_toList
  have none : stack.toList.drop (room + 1) = [] := List.drop_eq_nil_of_le (by omega)
  rw [storeAt_inside (by rw [size]; rfl), List.length_singleton, none, List.append_nil]

/-- `strncpy` into the buffer, whose last byte has been cleared. -/
theorem copied (stack : Vector UInt8 256) (path : List UInt8) :
    strncpy (stack.toList.take room ++ [0]) 0 path room = .ok (copiedText path) := by
  have size : stack.toList.length = room + 1 := stack.length_toList
  have front : (stack.toList.take room).length = room := by
    rw [List.length_take]
    omega
  have copy : ((path ++ List.replicate room 0).take room).length = room := by
    rw [List.length_take, List.length_append, List.length_replicate]
    omega
  rw [strncpy, storeAt_inside
      (by rw [List.length_append, front, copy, List.length_singleton]; omega),
    copy, List.take_zero, List.nil_append, Nat.zero_add, List.drop_left' front,
    List.take_append, List.take_replicate, Nat.min_eq_left (Nat.sub_le _ _), List.append_assoc,
    ← List.replicate_succ', List.replicate_succ]
  rfl

theorem strlen_copied (path : CString) :
    strlen (copiedText path.bytes) 0 = .ok (path.bytes.take room).length := by
  have passed : ∀ byte ∈ path.bytes.take room, decide (byte = 0) = false := fun byte listed =>
    decide_eq_false (path.nulFree byte (List.mem_of_mem_take listed))
  rw [strlen, List.drop_zero, copiedText, search_found passed (decide_eq_true rfl), ok_bind,
    Nat.zero_add, Nat.sub_zero]
  rfl

/-- The name of the file, when the path is not too long. -/
theorem named {path : CString} (short : path.bytes.length ≤ 245) :
    strncat (copiedText path.bytes) 0 bootName room = .ok (nameText path.bytes ++ [0]) := by
  have whole : path.bytes.take room = path.bytes := List.take_of_length_le (by rw [room]; omega)
  have size : (bootName.take room ++ [0]).length = 11 := rfl
  have split : 0 :: List.replicate (room - path.bytes.length) (0 : UInt8) =
      List.replicate 11 0 ++ List.replicate (245 - path.bytes.length) 0 := by
    rw [← List.replicate_succ, List.replicate_append_replicate, room]
    congr 1
    omega
  rw [strncat, strlen_copied, ok_bind, whole, Nat.zero_add,
    storeAt_inside (by rw [length_copiedText, size, room]; omega), copiedText, whole, size, split,
    List.take_left, ← List.drop_drop, List.drop_left, List.drop_left' List.length_replicate]
  simp only [nameText, List.append_assoc, List.cons_append, List.nil_append,
    ← List.replicate_succ', List.replicate_succ]
  rfl

/-- Behind a path that is too long the name does not fit. -/
theorem unnamed {path : CString} (long : 245 < path.bytes.length) :
    strncat (copiedText path.bytes) 0 bootName room = .error (.outside (room + 1)) := by
  have size : (bootName.take room ++ [0]).length = 11 := rfl
  rw [strncat, strlen_copied, ok_bind, Nat.zero_add, storeAt_outside, length_copiedText]
  rw [length_copiedText, size, List.length_take, room]
  omega

/-! ## The file -/

def overlay (bytes text : List UInt8) : List UInt8 := bytes ++ text.drop bytes.length

theorem length_over {bytes text : List UInt8} (fits : bytes.length ≤ text.length) :
    (overlay bytes text).length = text.length := by
  rw [overlay, List.length_append, List.length_drop]
  omega

theorem over_more {bytes text : List UInt8} (more : List UInt8)
    (fits : bytes.length + more.length ≤ text.length) :
    storeAt (overlay bytes text ++ [0]) bytes.length more =
      .ok (overlay (bytes ++ more) text ++ [0]) := by
  have size : (overlay bytes text ++ [0]).length = text.length + 1 := by
    rw [List.length_append, length_over (by omega)]
    rfl
  have spelled : overlay bytes text ++ [0] = bytes ++ (text.drop bytes.length ++ [0]) :=
    List.append_assoc _ _ _
  rw [storeAt_inside (by omega), spelled, List.take_left, ← List.drop_drop, List.drop_left,
    List.drop_append_of_le_length (by rw [List.length_drop]; omega), List.drop_drop, overlay,
    List.length_append]
  simp only [List.append_assoc]

theorem behind_flatten (part : List UInt8) (parts : List (List UInt8)) (count : Nat) :
    part.take count ++ (Delivery.behind count (part :: parts)).flatten =
      (part :: parts).flatten := by
  rw [Delivery.behind]
  split
  · rw [List.flatten_cons, ← List.append_assoc, List.take_append_drop]
    rfl
  · rw [List.take_of_length_le (by omega)]
    rfl

theorem behind_proper {parts : List (List UInt8)} (proper : ∀ part ∈ parts, part ≠ [])
    (count : Nat) : ∀ part ∈ Delivery.behind count parts, part ≠ [] := by
  intro part listed
  cases parts with
  | nil => cases listed
  | cons first parts =>
      rw [Delivery.behind] at listed
      split at listed
      case isTrue fewer =>
        obtain rfl | listed := List.mem_cons.mp listed
        · exact fun none => absurd (List.drop_eq_nil_iff.mp none) (by omega)
        · exact proper part (.tail _ listed)
      case isFalse => exact proper part (.tail _ listed)

/-- The loop around `read` fills the buffer with the file, as far as there is room. -/
theorem fill_reads {text : List UInt8} (size : text.length = room) (failed : Bool) {turns : Nat}
    {parts : List (List UInt8)} {bytes : List UInt8} (proper : ∀ part ∈ parts, part ≠ [])
    (fits : bytes.length ≤ room) (enough : room - bytes.length < turns) :
    fill failed turns parts (overlay bytes text ++ [0]) bytes.length =
      .ok (if failed ∧ (bytes ++ parts.flatten).length < room then none
        else some (overlay ((bytes ++ parts.flatten).take room) text ++ [0])) := by
  induction turns generalizing parts bytes with
  | zero => cases enough
  | succ turns ih =>
      rw [fill]
      unfold BootJson.read
      by_cases left : room - bytes.length = 0
      case pos =>
        have long : room ≤ (bytes ++ parts.flatten).length := by
          rw [List.length_append]
          omega
        have taken : (bytes ++ parts.flatten).take room = bytes :=
          List.take_left' (by omega)
        rw [if_pos left, if_neg (fun both => absurd both.2 (Nat.not_lt.mpr long)), taken]
      case neg =>
        rw [if_neg left]
        cases parts with
        | nil =>
            have short : bytes.length < room := by omega
            rw [List.flatten_nil, List.append_nil, List.take_of_length_le fits]
            cases failed with
            | true =>
                rw [if_pos (⟨rfl, short⟩ : true = true ∧ _)]
                rfl
            | false =>
                rw [if_neg (fun both : false = true ∧ _ => nomatch both.1)]
                rfl
        | cons part parts =>
            have given : (part.take (room - bytes.length)).length ≤ room - bytes.length :=
              List.length_take_le _ _
            have rest := behind_flatten part parts (room - bytes.length)
            cases taken : part.take (room - bytes.length) with
            | nil =>
                rw [List.take_eq_nil_iff] at taken
                exact absurd taken (not_or.mpr ⟨left, proper part (.head _)⟩)
            | cons byte more =>
                rw [taken] at given rest
                have stored := @over_more bytes text (byte :: more) (by omega)
                simp only [taken]
                rw [stored, ok_bind, ← List.length_append,
                  ih (behind_proper proper _) (by rw [List.length_append]; omega)
                    (by rw [List.length_append, List.length_cons]; omega),
                  List.append_assoc, rest]

/-! ## The whole -/

/-- The text in which the scanner looks: the file as far as there is room, and behind it the
rest of its name. -/
def bootText (path content : List UInt8) : List UInt8 :=
  overlay (content.take room) (nameText path)

theorem stringAt_name {path : CString} : stringAt (nameText path.bytes ++ [0]) 0 =
    .ok (path.bytes ++ bootName) := by
  have free : ∀ byte ∈ path.bytes ++ bootName, byte ≠ 0 := by
    intro byte listed
    obtain listed | listed := List.mem_append.mp listed
    · exact path.nulFree byte listed
    · rintro rfl
      exact absurd listed (by decide)
  refine @Ahead.stringAt_found _ 0 _ (List.replicate (245 - path.bytes.length) 0) ?_ free
  simp only [nameText, List.drop_zero, List.append_assoc, ← List.replicate_succ',
    List.replicate_succ]

theorem parseBootJson_short (found : findInternal storages = some storage)
    (short : storage.path.bytes.length ≤ 245) :
    parseBootJson outside runtimes storages stack =
      match outside.openFile (storage.path.bytes ++ bootName) with
      | none => .ok ⟨none, runtimes.head?⟩
      | some file =>
          if file.failed ∧ file.content.length < room then
            .ok ⟨none, runtimes.head?⟩
          else
            parse outside runtimes storage
              (bootText storage.path.bytes file.content ++ [0]) := by
  rw [parseBootJson, found]
  simp only [cleared, copied, named short, stringAt_name, ok_bind]
  cases outside.openFile (storage.path.bytes ++ bootName) with
  | none => rfl
  | some file =>
      have filled := @fill_reads _ (length_nameText short) file.failed (room + 1) file.parts []
        file.proper (Nat.zero_le _) (Nat.lt_succ_self _)
      have start : overlay [] (nameText storage.path.bytes) = nameText storage.path.bytes := rfl
      rw [start, List.nil_append, List.length_nil] at filled
      simp only [filled, ok_bind]
      by_cases broken : file.failed = true ∧ file.content.length < room
      · have same : file.failed = true ∧ file.parts.flatten.length < room := broken
        simp only [if_pos broken, if_pos same]
        rfl
      · have same : ¬ (file.failed = true ∧ file.parts.flatten.length < room) := broken
        simp only [if_neg broken, if_neg same]
        rfl

theorem parseBootJson_long (found : findInternal storages = some storage)
    (long : 245 < storage.path.bytes.length) :
    parseBootJson outside runtimes storages stack = .error (.outside (room + 1)) := by
  rw [parseBootJson, found]
  simp only [cleared, copied, unnamed long, ok_bind, error_bind]

end PeridotSw.Rubic.BootBuffer

import PeridotSw.Machine.Memory

/-!
# Byte arrays with checked bounds

An array is the list of its bytes.  A read or a write beyond its end stops the computation
and names the index, so that a computation that returns has stayed inside.  The functions
of `<string.h>` are given on such arrays, and what they do is told from the bytes that lie
ahead of a pointer, up to a terminator at the very end of the array.
-/

namespace PeridotSw.Machine.Checked

open PeridotSw.Machine.Memory

/-- Why a computation stops before it returns: an access outside the array, a loop that was
cut off, or an error the program itself has found. -/
inductive Stop where
  | outside (index : Nat)
  | endless
  | rejected
  deriving DecidableEq

variable {α β : Type}

@[simp] theorem ok_bind (value : α) (rest : α → Except Stop β) :
    ((.ok value : Except Stop α) >>= rest) = rest value := rfl

@[simp] theorem error_bind (stop : Stop) (rest : α → Except Stop β) :
    ((.error stop : Except Stop α) >>= rest) = .error stop := rfl

/-! ## Access -/

def byteAt (array : List UInt8) (index : Nat) : Except Stop UInt8 :=
  match array[index]? with
  | some byte => .ok byte
  | none => .error (.outside index)

def storeAt (array : List UInt8) (index : Nat) (bytes : List UInt8) :
    Except Stop (List UInt8) :=
  if index + bytes.length ≤ array.length then
    .ok (array.take index ++ bytes ++ array.drop (index + bytes.length))
  else
    .error (.outside array.length)

theorem storeAt_inside {array bytes : List UInt8} {index : Nat}
    (inside : index + bytes.length ≤ array.length) :
    storeAt array index bytes =
      .ok (array.take index ++ bytes ++ array.drop (index + bytes.length)) :=
  if_pos inside

theorem storeAt_outside {array bytes : List UInt8} {index : Nat}
    (outside : array.length < index + bytes.length) :
    storeAt array index bytes = .error (.outside array.length) :=
  if_neg (Nat.not_le.mpr outside)

def guarded (array : List UInt8) : Access α → Except Stop α
  | .done value => .ok value
  | .load index next =>
      match array[index]? with
      | some byte => guarded array (next byte)
      | none => .error (.outside index)

/-- The memory an array is part of. -/
def memory (array : List UInt8) : Mem := fun index => array[index]?.getD 0

/-- The loop of the functions that look for a byte. -/
def search (stop : UInt8 → Bool) : List UInt8 → Nat → Except Stop Nat
  | [], index => .error (.outside index)
  | byte :: rest, index => if stop byte then .ok index else search stop rest (index + 1)

/-! ## `<string.h>` -/

def strlen (array : List UInt8) (s : Nat) : Except Stop Nat := do
  return (← search (· = 0) (array.drop s) s) - s

def strchr (array : List UInt8) (s : Nat) (char : UInt8) : Except Stop (Option Nat) := do
  let found ← search (fun byte => byte = char ∨ byte = 0) (array.drop s) s
  return if (← byteAt array found) = char then some found else none

def strpbrk (array : List UInt8) (s : Nat) (accept : List UInt8) :
    Except Stop (Option Nat) := do
  let found ← search (fun byte => byte ∈ accept ∨ byte = 0) (array.drop s) s
  return if (← byteAt array found) = 0 then none else some found

def strspn (array : List UInt8) (s : Nat) (accept : List UInt8) : Except Stop Nat := do
  return (← search (· ∉ accept) (array.drop s) s) - s

/-- `strncpy`, from a string elsewhere. -/
def strncpy (array : List UInt8) (dest : Nat) (src : List UInt8) (count : Nat) :
    Except Stop (List UInt8) :=
  storeAt array dest ((src ++ List.replicate count 0).take count)

def strncat (array : List UInt8) (dest : Nat) (src : List UInt8) (count : Nat) :
    Except Stop (List UInt8) := do
  storeAt array (dest + (← strlen array dest)) (src.take count ++ [0])

def stringAt (array : List UInt8) (s : Nat) : Except Stop (List UInt8) := do
  return (array.drop s).take (← strlen array s)

/-! ## What lies ahead of a pointer -/

/-- The bytes from a pointer to the end of the array, where a terminator lies. -/
def Ahead (array : List UInt8) (index : Nat) (text : List UInt8) : Prop :=
  array.drop index = text ++ [0]

variable {array text front : List UInt8} {index : Nat} {byte : UInt8}

namespace Ahead

theorem size (ahead : Ahead array index text) : index + text.length + 1 = array.length := by
  have lengths := congrArg List.length ahead
  rw [List.length_drop, List.length_append, List.length_singleton] at lengths
  omega

theorem skip (ahead : Ahead array index (front ++ text)) :
    Ahead array (index + front.length) text := by
  rw [Ahead, ← List.drop_drop, ahead, List.append_assoc, List.drop_left]

theorem next (ahead : Ahead array index (byte :: text)) : Ahead array (index + 1) text :=
  @skip array text [byte] index ahead

theorem last (ahead : Ahead array index text) : Ahead array (index + text.length) [] :=
  @skip array [] text index ((List.append_nil text).symm ▸ ahead)

theorem byteAt_cons (ahead : Ahead array index (byte :: text)) :
    byteAt array index = .ok byte := by
  have first := congrArg List.head? ahead
  rw [List.head?_drop] at first
  rw [byteAt, first]
  rfl

theorem byteAt_nil (ahead : Ahead array index []) : byteAt array index = .ok 0 := by
  have first := congrArg List.head? ahead
  rw [List.head?_drop] at first
  rw [byteAt, first]
  rfl

theorem byteAt_head (ahead : Ahead array index text) :
    byteAt array index = .ok (text.head?.getD 0) := by
  cases text with
  | nil => exact ahead.byteAt_nil
  | cons byte rest => exact ahead.byteAt_cons

/-- Behind the terminator there is nothing. -/
theorem drop_past (ahead : Ahead array index []) : array.drop (index + 1) = [] := by
  apply List.drop_eq_nil_of_le
  exact Nat.le_of_eq ahead.size.symm

theorem byteAt_past (ahead : Ahead array index []) :
    byteAt array (index + 1) = .error (.outside array.length) := by
  rw [byteAt, ← List.head?_drop, ahead.drop_past, ← ahead.size]
  rfl

theorem put (ahead : Ahead array index (front ++ byte :: text)) (new : UInt8) :
    ∃ stored, storeAt array (index + front.length) [new] = .ok stored ∧
      Ahead stored index (front ++ new :: text) := by
  have size := ahead.size
  rw [List.length_append, List.length_cons] at size
  refine ⟨_, if_pos (by rw [List.length_singleton]; omega), ?_⟩
  have taken : (array.take index).length = index := by
    rw [List.length_take]
    omega
  have behind : array.drop (index + front.length + 1) = text ++ [0] :=
    ahead.skip.next
  have kept : array.take (index + front.length) = array.take index ++ front := by
    rw [List.take_add, ahead, List.append_assoc, List.take_left]
  rw [Ahead, List.length_singleton, behind, kept, List.append_assoc, List.append_assoc,
    List.append_assoc, List.drop_left' taken]
  rfl

/-- The terminator at the end lies ahead of every place in front of it. -/
theorem anywhere (ahead : Ahead array index text) {place : Nat}
    (inside : place < array.length) : ∃ rest, Ahead array place rest := by
  have size := ahead.size
  have ends : array = array.take (index + text.length) ++ [0] := by
    rw [← ahead.last.trans (List.nil_append [0]), List.take_append_drop]
  refine ⟨(array.take (index + text.length)).drop place, ?_⟩
  have whole := congrArg (List.drop place) ends
  rw [List.drop_append_of_le_length (by rw [List.length_take]; omega)] at whole
  exact whole

end Ahead

/-! ## Searches -/

theorem search_found {stop : UInt8 → Bool} {rest : List UInt8}
    (passed : ∀ other ∈ front, stop other = false) (here : stop byte = true) (index : Nat) :
    search stop (front ++ byte :: rest) index = .ok (index + front.length) := by
  induction front generalizing index with
  | nil => exact if_pos here
  | cons first others ih =>
      have missed : ¬ stop first = true := by
        rw [passed first (.head _)]
        exact Bool.false_ne_true
      rw [List.cons_append, search, if_neg missed,
        ih (fun other listed => passed other (.tail _ listed)), List.length_cons]
      congr 1
      omega

/-- A search either stops somewhere in the bytes ahead or passes them all. -/
theorem stops_or_passes (stop : UInt8 → Bool) (text : List UInt8) :
    (∀ other ∈ text, stop other = false) ∨
      ∃ front byte rest, text = front ++ byte :: rest ∧ stop byte = true ∧
        ∀ other ∈ front, stop other = false := by
  induction text with
  | nil => exact .inl nofun
  | cons first others ih =>
      cases here : stop first with
      | true => exact .inr ⟨[], first, others, rfl, here, nofun⟩
      | false =>
          obtain passed | ⟨front, byte, rest, same, found, passed⟩ := ih
          · exact .inl (List.forall_mem_cons.mpr ⟨here, passed⟩)
          · refine .inr ⟨first :: front, byte, rest, ?_, found, ?_⟩
            · rw [same]
              rfl
            · exact List.forall_mem_cons.mpr ⟨here, passed⟩

/-! ## The functions on what lies ahead -/

namespace Ahead

/-- A search that stops at terminators ends on a byte of the text or on the last
terminator. -/
theorem search_ends (ahead : Ahead array index text) {stop : UInt8 → Bool}
    (stops : stop 0 = true) :
    (search stop (array.drop index) index = .ok (index + text.length) ∧
      ∀ other ∈ text, stop other = false) ∨
      ∃ front byte rest, text = front ++ byte :: rest ∧ stop byte = true ∧
        (∀ other ∈ front, stop other = false) ∧
        search stop (array.drop index) index = .ok (index + front.length) := by
  rw [Ahead] at ahead
  rw [ahead]
  obtain passed | ⟨front, byte, rest, rfl, here, passed⟩ := stops_or_passes stop text
  · exact .inl ⟨search_found passed stops index, passed⟩
  · refine .inr ⟨front, byte, rest, rfl, here, passed, ?_⟩
    rw [List.append_assoc]
    exact search_found passed here index

theorem strchr_found {char : UInt8} {rest : List UInt8}
    (ahead : Ahead array index (front ++ char :: rest))
    (free : ∀ other ∈ front, other ≠ char ∧ other ≠ 0) :
    strchr array index char = .ok (some (index + front.length)) := by
  have passed : ∀ other ∈ front, decide (other = char ∨ other = 0) = false := fun other listed =>
    decide_eq_false (not_or.mpr (free other listed))
  have found := @search_found front char _ (rest ++ [0]) passed
    (decide_eq_true (Or.inl rfl)) index
  rw [Ahead, List.append_assoc] at ahead
  rw [strchr, ahead, List.cons_append, found, ok_bind,
    (@skip array (char :: rest) front index (by rw [Ahead, ahead, List.append_assoc])).byteAt_cons,
    ok_bind, if_pos rfl]
  rfl

theorem strchr_cases (ahead : Ahead array index text) {char : UInt8} (proper : char ≠ 0) :
    strchr array index char = .ok none ∨
      ∃ front rest, text = front ++ char :: rest ∧
        (∀ other ∈ front, other ≠ char ∧ other ≠ 0) ∧
        strchr array index char = .ok (some (index + front.length)) := by
  obtain ⟨found, -⟩ | ⟨front, byte, rest, rfl, here, passed, found⟩ :=
    @search_ends _ _ _ ahead (fun byte => byte = char ∨ byte = 0) (decide_eq_true (Or.inr rfl))
  · left
    have last := ahead.last
    rw [strchr, found, ok_bind, last.byteAt_nil, ok_bind, if_neg (Ne.symm proper)]
    rfl
  · obtain rfl | rfl := of_decide_eq_true here
    · right
      have free : ∀ other ∈ front, other ≠ byte ∧ other ≠ 0 := fun other listed =>
        not_or.mp (of_decide_eq_false (passed other listed))
      exact ⟨front, rest, rfl, free, ahead.strchr_found free⟩
    · left
      rw [strchr, found, ok_bind, ahead.skip.byteAt_cons, ok_bind, if_neg (Ne.symm proper)]
      rfl

theorem strpbrk_found {accept rest : List UInt8}
    (ahead : Ahead array index (front ++ byte :: rest)) (accepted : byte ∈ accept)
    (proper : byte ≠ 0) (free : ∀ other ∈ front, other ∉ accept ∧ other ≠ 0) :
    strpbrk array index accept = .ok (some (index + front.length)) := by
  have passed : ∀ other ∈ front, decide (other ∈ accept ∨ other = 0) = false :=
    fun other listed => decide_eq_false (not_or.mpr (free other listed))
  have found := @search_found front byte _ (rest ++ [0]) passed
    (decide_eq_true (Or.inl accepted)) index
  have here := ahead.skip.byteAt_cons
  rw [Ahead, List.append_assoc] at ahead
  rw [strpbrk, ahead, List.cons_append, found, ok_bind, here, ok_bind, if_neg proper]
  rfl

/-- A byte that is not looked for is passed. -/
theorem strpbrk_step {accept : List UInt8} (ahead : Ahead array index (byte :: text))
    (other : byte ∉ accept) (proper : byte ≠ 0) :
    strpbrk array index accept = strpbrk array (index + 1) accept := by
  have missed : ¬ decide (byte ∈ accept ∨ byte = 0) = true := by
    rw [decide_eq_true_iff]
    exact not_or.mpr ⟨other, proper⟩
  have rest : array.drop (index + 1) = text ++ [0] := ahead.next
  rw [Ahead] at ahead
  rw [strpbrk, ahead, List.cons_append, search, if_neg missed, ← rest]
  rfl

theorem strpbrk_cases (ahead : Ahead array index text) {accept : List UInt8}
    (proper : 0 ∉ accept) :
    (strpbrk array index accept = .ok none ∧
      ∃ front rest, text ++ [0] = front ++ 0 :: rest ∧ ∀ other ∈ front, other ∉ accept) ∨
      ∃ front byte rest, text = front ++ byte :: rest ∧ byte ∈ accept ∧
        (∀ other ∈ front, other ∉ accept ∧ other ≠ 0) ∧
        strpbrk array index accept = .ok (some (index + front.length)) := by
  obtain ⟨found, passed⟩ | ⟨front, byte, rest, rfl, here, passed, found⟩ :=
    @search_ends _ _ _ ahead (fun byte => byte ∈ accept ∨ byte = 0) (decide_eq_true (Or.inr rfl))
  · left
    have last := ahead.last
    refine ⟨?_, text, [], rfl, fun other listed =>
      (not_or.mp (of_decide_eq_false (passed other listed))).1⟩
    rw [strpbrk, found, ok_bind, last.byteAt_nil, ok_bind, if_pos rfl]
    rfl
  · have free : ∀ other ∈ front, other ∉ accept ∧ other ≠ 0 := fun other listed =>
      not_or.mp (of_decide_eq_false (passed other listed))
    obtain accepted | rfl := of_decide_eq_true here
    · right
      refine ⟨front, byte, rest, rfl, accepted, free, ?_⟩
      exact ahead.strpbrk_found accepted (fun zero => proper (zero ▸ accepted)) free
    · left
      refine ⟨?_, front, rest ++ [0], by rw [List.append_assoc, List.cons_append],
        fun other listed => (free other listed).1⟩
      rw [strpbrk, found, ok_bind, ahead.skip.byteAt_cons, ok_bind, if_pos rfl]
      rfl

theorem strspn_found {accept rest : List UInt8} (ahead : Ahead array index (front ++ rest))
    (all : ∀ other ∈ front, other ∈ accept) (proper : 0 ∉ accept)
    (ends : ∀ byte ∈ rest.head?, byte ∉ accept) :
    strspn array index accept = .ok front.length := by
  have passed : ∀ other ∈ front, decide (other ∉ accept) = false := fun other listed =>
    decide_eq_false (not_not_intro (all other listed))
  rw [Ahead, List.append_assoc] at ahead
  rw [strspn, ahead]
  cases rest with
  | nil =>
      rw [List.nil_append, search_found passed (decide_eq_true proper), ok_bind,
        Nat.add_sub_cancel_left]
      rfl
  | cons byte rest =>
      rw [List.cons_append, search_found passed (decide_eq_true (ends byte rfl)), ok_bind,
        Nat.add_sub_cancel_left]
      rfl

/-- A string that a terminator ends in front of the last one, or there. -/
theorem stringAt_found {string rest : List UInt8} (held : array.drop index = string ++ 0 :: rest)
    (free : ∀ other ∈ string, other ≠ 0) : stringAt array index = .ok string := by
  have passed : ∀ other ∈ string, decide (other = 0) = false := fun other listed =>
    decide_eq_false (free other listed)
  rw [stringAt, strlen, held, search_found passed (decide_eq_true rfl), ok_bind,
    Nat.add_sub_cancel_left]
  exact congrArg Except.ok List.take_left

theorem stringAt_returns (ahead : Ahead array index text) :
    ∃ string, stringAt array index = .ok string := by
  obtain ⟨found, -⟩ | ⟨front, -, -, -, -, -, found⟩ :=
    @search_ends _ _ _ ahead (· = 0) (decide_eq_true rfl)
  · exact ⟨_, by rw [stringAt, strlen, found]; rfl⟩
  · exact ⟨_, by rw [stringAt, strlen, found]; rfl⟩

end Ahead

/-- A search behind the terminator leaves the array. -/
theorem strpbrk_past (ahead : Ahead array index []) (accept : List UInt8) :
    strpbrk array (index + 1) accept = .error (.outside array.length) := by
  rw [strpbrk, ahead.drop_past, ← ahead.size]
  rfl

/-! ## Reading computations -/

theorem guarded_of_within {program : Access α}
    (inside : program.Within (memory array) fun index => index < array.length) :
    guarded array program = .ok (program.eval (memory array)) := by
  induction program with
  | done value => rfl
  | load index next ih =>
      have here : index < array.length := inside index (.head _)
      have byte : memory array index = array[index] := by
        rw [memory, List.getElem?_eq_getElem here]
        rfl
      rw [guarded, List.getElem?_eq_getElem here, Access.eval, ← byte]
      exact ih _ fun other touched => inside other (.tail _ touched)

theorem strcmp_guarded (ahead : Ahead array index text) (key : CString) :
    guarded array (strcmpEq key.bytes index) =
      .ok ((strcmpEq key.bytes index).eval (memory array)) := by
  have size := ahead.size
  apply guarded_of_within
  refine strcmpEq_within key.nulFree (by omega) ?_
  have last := ahead.last.byteAt_nil
  have place : index + text.length = array.length - 1 := by omega
  rw [byteAt, place, List.getElem?_eq_getElem (by omega)] at last
  rw [memory, List.getElem?_eq_getElem (by omega)]
  exact Except.ok.inj last

theorem holds_memory {string rest : List UInt8} (held : array.drop index = string ++ rest) :
    Holds (memory array) index string := by
  intro place bound
  rw [memory, ← List.getElem?_drop, held, List.getElem?_append_left bound,
    List.getElem?_eq_getElem bound]
  rfl

/-- `strcmp` of a constant and a string of the array. -/
theorem strcmp_string (ahead : Ahead array index text) (key : CString) {string : CString}
    {rest : List UInt8} (held : array.drop index = string.bytes ++ 0 :: rest) :
    guarded array (strcmpEq key.bytes index) = .ok (decide (key = string)) := by
  rw [strcmp_guarded ahead]
  have there : Holds (memory array) index (string.bytes ++ [0]) :=
    @holds_memory array index _ rest (by rw [held, List.append_assoc]; rfl)
  congr 1
  rw [Bool.eq_iff_iff, decide_eq_true_iff]
  exact eval_strcmpEq there

end PeridotSw.Machine.Checked

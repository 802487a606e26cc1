import Mathlib.Logic.Function.Basic
import PeridotSw.Machine.Word

/-!
# Byte memories and computations that read them

A memory gives a byte at every index.  `Access` is a computation that may read
memory: it either returns or names one index and continues with the byte found
there.  From one such computation both its value and the list of the indices it
touched are obtained, so that statements about results and statements about
confinement speak of the same program.
-/

namespace PeridotSw.Machine.Memory

open PeridotSw.Machine.Word

abbrev Mem := Nat → UInt8

/-- A computation reading single bytes of a memory. -/
inductive Access (α : Type) where
  | done (value : α)
  | load (index : Nat) (next : UInt8 → Access α)

namespace Access

variable {α β : Type}

def bind : Access α → (α → Access β) → Access β
  | .done value, rest => rest value
  | .load index next, rest => .load index (fun byte => (next byte).bind rest)

instance : Monad Access where
  pure := Access.done
  bind := Access.bind

def byte (index : Nat) : Access UInt8 := .load index .done

def eval (mem : Mem) : Access α → α
  | .done value => value
  | .load index next => (next (mem index)).eval mem

/-- The indices a computation touches in a memory, in order. -/
def reads (mem : Mem) : Access α → List Nat
  | .done _ => []
  | .load index next => index :: (next (mem index)).reads mem

/-- Every index touched lies in the given region. -/
def Within (mem : Mem) (region : Nat → Prop) (program : Access α) : Prop :=
  ∀ index ∈ program.reads mem, region index

@[simp] theorem eval_pure (mem : Mem) (value : α) :
    (pure value : Access α).eval mem = value := rfl

@[simp] theorem eval_byte (mem : Mem) (index : Nat) :
    (byte index).eval mem = mem index := rfl

@[simp] theorem eval_bind (mem : Mem) (program : Access α) (rest : α → Access β) :
    (program >>= rest).eval mem = (rest (program.eval mem)).eval mem := by
  induction program with
  | done value => rfl
  | load index next ih => exact ih (mem index)

@[simp] theorem reads_pure (mem : Mem) (value : α) :
    (pure value : Access α).reads mem = [] := rfl

@[simp] theorem reads_byte (mem : Mem) (index : Nat) :
    (byte index).reads mem = [index] := rfl

@[simp] theorem reads_bind (mem : Mem) (program : Access α) (rest : α → Access β) :
    (program >>= rest).reads mem =
      program.reads mem ++ (rest (program.eval mem)).reads mem := by
  induction program with
  | done value => rfl
  | load index next ih => exact congrArg (List.cons index) (ih (mem index))

@[simp] theorem within_pure (mem : Mem) (region : Nat → Prop) (value : α) :
    (pure value : Access α).Within mem region := by
  simp [Within]

@[simp] theorem within_byte (mem : Mem) (region : Nat → Prop) (index : Nat) :
    (byte index).Within mem region ↔ region index := by
  simp [Within]

@[simp] theorem within_bind (mem : Mem) (region : Nat → Prop) (program : Access α)
    (rest : α → Access β) :
    (program >>= rest).Within mem region ↔
      program.Within mem region ∧ (rest (program.eval mem)).Within mem region := by
  simp only [Within, reads_bind, List.mem_append]
  constructor
  · intro inside
    exact ⟨fun index touched => inside index (.inl touched),
      fun index touched => inside index (.inr touched)⟩
  · rintro ⟨first, second⟩ index (touched | touched)
    · exact first index touched
    · exact second index touched

/-- A computation cannot tell apart two memories that agree wherever it reads. -/
theorem eval_congr {first second : Mem} {program : Access α}
    (agree : ∀ index ∈ program.reads first, first index = second index) :
    program.eval second = program.eval first ∧
      program.reads second = program.reads first := by
  induction program with
  | done value => exact ⟨rfl, rfl⟩
  | load index next ih =>
      have here : first index = second index := agree index (.head _)
      have rest := ih (first index) (fun other touched => agree other (.tail _ touched))
      simp only [eval, reads, ← here]
      exact ⟨rest.1, congrArg (List.cons index) rest.2⟩

/-- A computation confined to a region depends on the memory of that region only. -/
theorem Within.eval_eq {first second : Mem} {region : Nat → Prop} {program : Access α}
    (confined : program.Within first region)
    (agree : ∀ index, region index → first index = second index) :
    program.eval second = program.eval first :=
  (eval_congr fun index touched => agree index (confined index touched)).1

end Access

/-! ## Byte strings held in memory -/

/-- A NUL-free byte string: what a C string holds before its terminator. -/
structure CString where
  bytes : List UInt8
  nulFree : ∀ byte ∈ bytes, byte ≠ 0
  deriving DecidableEq

/-- A string constant. -/
@[simp] def CString.of (bytes : List UInt8) (nulFree : bytes.all (· != 0) = true) : CString where
  bytes := bytes
  nulFree byte listed := by simpa using List.all_eq_true.mp nulFree byte listed

def Holds (mem : Mem) (base : Nat) (bytes : List UInt8) : Prop :=
  ∀ index (bound : index < bytes.length), mem (base + index) = bytes[index]

def slice (mem : Mem) (base count : Nat) : List UInt8 :=
  (List.range count).map fun index => mem (base + index)

@[simp] theorem length_slice (mem : Mem) (base count : Nat) :
    (slice mem base count).length = count := by
  simp [slice]

theorem holds_slice (mem : Mem) (base count : Nat) :
    Holds mem base (slice mem base count) := by
  intro index bound
  simp [slice]

theorem slice_eq_of_holds {mem : Mem} {base : Nat} {bytes : List UInt8}
    (held : Holds mem base bytes) : slice mem base bytes.length = bytes := by
  apply List.ext_getElem (length_slice mem base bytes.length)
  intro index _ bound
  simpa [slice] using held index bound

theorem slice_cons (mem : Mem) (base count : Nat) :
    slice mem base (count + 1) = mem base :: slice mem (base + 1) count := by
  simp [slice, List.range_succ_eq_map, Function.comp_def, Nat.add_assoc, Nat.add_comm 1]

@[simp] theorem holds_nil (mem : Mem) (base : Nat) : Holds mem base [] := by
  intro index bound
  cases bound

@[simp] theorem holds_cons (mem : Mem) (base : Nat) (byte : UInt8) (bytes : List UInt8) :
    Holds mem base (byte :: bytes) ↔ mem base = byte ∧ Holds mem (base + 1) bytes := by
  constructor
  · intro held
    refine ⟨held 0 (Nat.zero_lt_succ _), ?_⟩
    intro index bound
    have here := held (index + 1) (Nat.succ_lt_succ bound)
    simpa [Nat.add_assoc, Nat.add_comm 1 index] using here
  · rintro ⟨head, tail⟩ index bound
    cases index with
    | zero => exact head
    | succ index =>
        have here := tail index (Nat.lt_of_succ_lt_succ bound)
        simpa [Nat.add_assoc, Nat.add_comm 1 index] using here

@[simp] theorem holds_append (mem : Mem) (base : Nat) (first second : List UInt8) :
    Holds mem base (first ++ second) ↔
      Holds mem base first ∧ Holds mem (base + first.length) second := by
  induction first generalizing base with
  | nil => simp
  | cons byte rest ih =>
      simp only [List.cons_append, holds_cons, ih, List.length_cons, and_assoc]
      rw [Nat.add_right_comm, Nat.add_assoc]

/-- Two memories that agree on a string hold it alike. -/
theorem Holds.congr {first second : Mem} {base : Nat} {bytes : List UInt8}
    (held : Holds first base bytes)
    (agree : ∀ index, base ≤ index → index < base + bytes.length →
      second index = first index) :
    Holds second base bytes := by
  intro index bound
  rw [agree (base + index) (Nat.le_add_right _ _) (Nat.add_lt_add_left bound _)]
  exact held index bound

/-! ## Stores -/

/-- Copy bytes into memory, as `memcpy` to `base` does. -/
def write (mem : Mem) (base : Nat) (bytes : List UInt8) : Mem :=
  fun index => if base ≤ index then bytes[index - base]?.getD (mem index) else mem index

theorem write_outside {mem : Mem} {base index : Nat} {bytes : List UInt8}
    (outside : index < base ∨ base + bytes.length ≤ index) :
    write mem base bytes index = mem index := by
  unfold write
  split
  · rw [List.getElem?_eq_none (by omega)]
    rfl
  · rfl

theorem holds_write (mem : Mem) (base : Nat) (bytes : List UInt8) :
    Holds (write mem base bytes) base bytes := by
  intro index bound
  unfold write
  rw [if_pos (Nat.le_add_right _ _), Nat.add_sub_cancel_left, List.getElem?_eq_getElem bound]
  rfl

/-- A byte stored right behind a slice makes it longer. -/
theorem slice_write_end (mem : Mem) (base count : Nat) (byte : UInt8) :
    slice (write mem (base + count) [byte]) base (count + 1) = slice mem base count ++ [byte] := by
  have kept : ∀ index ∈ List.range count,
      write mem (base + count) [byte] (base + index) = mem (base + index) := by
    intro index listed
    have low := List.mem_range.mp listed
    exact write_outside (.inl (by omega))
  have stored : write mem (base + count) [byte] (base + count) = byte :=
    holds_write mem (base + count) [byte] 0 Nat.zero_lt_one
  rw [slice, List.range_succ, List.map_append, List.map_congr_left kept, List.map_singleton, stored]
  rfl

/-- A store leaves every string outside the written range in place. -/
theorem Holds.write_disjoint {mem : Mem} {base at' : Nat} {bytes stored : List UInt8}
    (held : Holds mem base bytes)
    (apart : at' + stored.length ≤ base ∨ base + bytes.length ≤ at') :
    Holds (write mem at' stored) base bytes :=
  held.congr fun index low high => write_outside (by omega)

/-- Storing over the middle of a string held in memory. -/
theorem Holds.overwrite {mem : Mem} {base : Nat} {front middle back : List UInt8}
    (held : Holds mem base (front ++ middle ++ back)) {stored : List UInt8}
    (size : stored.length = middle.length) :
    Holds (write mem (base + front.length) stored) base (front ++ stored ++ back) := by
  simp only [holds_append, List.length_append, size] at held ⊢
  refine ⟨⟨held.1.1.write_disjoint (.inr (Nat.le_refl _)), holds_write mem _ stored⟩, ?_⟩
  exact held.2.write_disjoint (.inl (by omega))

/-! ## Words and strings read from memory -/

def word (mem : Mem) (base : Nat) : Nat :=
  le32 (mem base) (mem (base + 1)) (mem (base + 2)) (mem (base + 3))

theorem word_lt (mem : Mem) (base : Nat) : word mem base < 2 ^ 32 := le32_lt _ _ _ _

theorem word_of_holds {mem : Mem} {base value : Nat} (bound : value < 2 ^ 32)
    (held : Holds mem base (bytes32 value)) : word mem base = value := by
  simp only [bytes32, holds_cons, holds_nil, and_true] at held
  obtain ⟨h0, h1, h2, h3⟩ := held
  rw [word, h0, h1, h2, h3, le32_byteAt bound]

theorem word_write_self (mem : Mem) (base : Nat) {value : Nat} (bound : value < 2 ^ 32) :
    word (write mem base (bytes32 value)) base = value :=
  word_of_holds bound (holds_write mem base (bytes32 value))

/-- A store behind a word leaves the word alone. -/
theorem word_write_behind {mem : Mem} {base place : Nat} (behind : base + 4 ≤ place)
    (bytes : List UInt8) : word (write mem place bytes) base = word mem base := by
  have untouched (index : Nat) (low : index < place) : write mem place bytes index = mem index :=
    write_outside (.inl low)
  simp only [word]
  rw [untouched base (by omega), untouched (base + 1) (by omega),
    untouched (base + 2) (by omega), untouched (base + 3) (by omega)]

/-- `strnlen`: the number of bytes before the first NUL, at most `max`. -/
def strnlen (base : Nat) : Nat → Access Nat
  | 0 => pure 0
  | max + 1 => do
      if (← Access.byte base) = 0 then
        pure 0
      else
        pure ((← strnlen (base + 1) max) + 1)

/-- `strcmp(key, base) == 0` for a NUL-free key. -/
def strcmpEq : List UInt8 → Nat → Access Bool
  | [], base => do
      pure ((← Access.byte base) == 0)
  | byte :: rest, base => do
      if (← Access.byte base) = byte then
        strcmpEq rest (base + 1)
      else
        pure false

/-- `strcmp` stops at a terminator that ends a region. -/
theorem strcmpEq_within {mem : Mem} {key : List UInt8} (nulFree : ∀ byte ∈ key, byte ≠ 0)
    {base behind : Nat} (inside : base < behind) (terminated : mem (behind - 1) = 0) :
    (strcmpEq key base).Within mem fun index => index < behind := by
  induction key generalizing base with
  | nil => simp [strcmpEq, inside]
  | cons byte rest ih =>
      by_cases same : mem base = byte
      · have positive : mem base ≠ 0 := same ▸ nulFree byte (.head _)
        have further : base + 1 < behind := by
          rcases Nat.lt_or_eq_of_le (Nat.succ_le_of_lt inside) with below | last
          · exact below
          · exact absurd (by rw [← terminated, ← last]; rfl) positive
        have inner := ih (fun other listed => nulFree other (.tail _ listed)) further
        simp [strcmpEq, inside, same, inner]
      · simp [strcmpEq, inside, same]

/-- `strnlen` finds the terminator of a string that is shorter than its limit. -/
theorem eval_strnlen {mem : Mem} {base max : Nat} {text : CString}
    (held : Holds mem base (text.bytes ++ [0])) (bound : text.bytes.length < max) :
    (strnlen base max).eval mem = text.bytes.length := by
  obtain ⟨bytes, nulFree⟩ := text
  induction bytes generalizing base max with
  | nil =>
      cases max with
      | zero => cases bound
      | succ max =>
          have stop : mem base = 0 := (holds_cons ..).mp held |>.1
          simp [strnlen, stop]
  | cons byte rest ih =>
      cases max with
      | zero => cases bound
      | succ max =>
          obtain ⟨here, behind⟩ := (holds_cons ..).mp held
          have positive : mem base ≠ 0 := here ▸ nulFree byte (.head _)
          have inner := ih (fun other listed => nulFree other (.tail _ listed)) behind
            (Nat.lt_of_succ_lt_succ bound)
          simp [strnlen, positive, inner]

/-- `strcmp` tells NUL-free strings apart. -/
theorem eval_strcmpEq {mem : Mem} {base : Nat} {key text : CString}
    (held : Holds mem base (text.bytes ++ [0])) :
    (strcmpEq key.bytes base).eval mem = true ↔ key = text := by
  obtain ⟨keyBytes, keyFree⟩ := key
  obtain ⟨bytes, nulFree⟩ := text
  rw [CString.mk.injEq]
  induction keyBytes generalizing base bytes with
  | nil =>
      cases bytes with
      | nil =>
          have stop : mem base = 0 := (holds_cons ..).mp held |>.1
          simp [strcmpEq, stop]
      | cons byte rest =>
          have here : mem base = byte := (holds_cons ..).mp held |>.1
          have positive : byte ≠ 0 := nulFree byte (.head _)
          simp [strcmpEq, here, positive]
  | cons first others ih =>
      cases bytes with
      | nil =>
          have stop : mem base = 0 := (holds_cons ..).mp held |>.1
          have positive : ¬ 0 = first := fun zero => keyFree first (.head _) zero.symm
          simp [strcmpEq, stop, positive]
      | cons byte rest =>
          obtain ⟨here, behind⟩ := (holds_cons ..).mp held
          have inner := ih (fun other listed => keyFree other (.tail _ listed)) rest
            (fun other listed => nulFree other (.tail _ listed)) behind
          by_cases same : byte = first
          · simp [strcmpEq, here, same, inner]
          · have other : ¬ first = byte := fun equal => same equal.symm
            simp [strcmpEq, here, same, other]

end PeridotSw.Machine.Memory

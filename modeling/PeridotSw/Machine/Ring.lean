import PeridotSw.Machine.Memory

/-!
# Ring buffers

A ring is a block of `capacity` bytes used in a circle.  A transfer that reaches the
end of the block goes on at its beginning, so it is made in at most two pieces.  What
the ring holds is the list of bytes from one offset on; the two operations on it are
to append behind the last byte and to drop bytes in front.
-/

namespace PeridotSw.Machine.Ring

open PeridotSw.Machine.Memory
open PeridotSw.Machine.Word

def ringSlice (buffer : Mem) (capacity start count : Nat) : List UInt8 :=
  (List.range count).map fun index => buffer ((start + index) % capacity)

/-- A transfer of `first` bytes from `start` on and `second` at the beginning. -/
structure Pieces (capacity start first second : Nat) : Prop where
  start_lt : start < capacity
  inside : start + first ≤ capacity
  total : first + second ≤ capacity
  wraps : second = 0 ∨ start + first = capacity

def fetchPieces (buffer : Mem) (start first second : Nat) : List UInt8 :=
  slice buffer start first ++ slice buffer 0 second

def storePieces (buffer : Mem) (start first second : Nat) (bytes : List UInt8) : Mem :=
  write (write buffer start (bytes.take first)) 0 ((bytes.drop first).take second)

/-- The adjustment of a length, an `int`, to the two stretches that are available. -/
def adjust (len avail1 avail2 : Int) : Int × Int :=
  if len < avail1 then
    (len, 0)
  else
    let rest := wrap (len - avail1)
    (avail1, if rest < avail2 then rest else avail2)

variable {buffer : Mem} {capacity start first second : Nat}

/-- One turn around the ring at most. -/
theorem mod_turn {place capacity : Nat} (bound : place < 2 * capacity) :
    place % capacity = if place < capacity then place else place - capacity := by
  split
  · exact Nat.mod_eq_of_lt ‹_›
  · rw [Nat.mod_eq_sub_mod (by omega), Nat.mod_eq_of_lt (by omega)]

@[simp] theorem length_ringSlice (buffer : Mem) (capacity start count : Nat) :
    (ringSlice buffer capacity start count).length = count := by
  simp [ringSlice]

theorem ringSlice_append (buffer : Mem) (capacity start count more : Nat) :
    ringSlice buffer capacity start (count + more) =
      ringSlice buffer capacity start count ++
        ringSlice buffer capacity ((start + count) % capacity) more := by
  unfold ringSlice
  rw [List.range_add, List.map_append, List.map_map]
  congr 1
  refine List.map_congr_left fun index _ => ?_
  simp [Nat.add_assoc]

theorem ringSlice_congr {other : Mem} {count : Nat}
    (same : ∀ index < count,
      buffer ((start + index) % capacity) = other ((start + index) % capacity)) :
    ringSlice buffer capacity start count = ringSlice other capacity start count :=
  List.map_congr_left fun index inside => same index (List.mem_range.mp inside)

/-- The place of the byte `index` of a transfer. -/
theorem Pieces.place (pieces : Pieces capacity start first second) {index : Nat}
    (inside : index < capacity) :
    (start + index) % capacity =
      if start + index < capacity then start + index else start + index - capacity :=
  mod_turn (by
    have bound := pieces.start_lt
    omega)

/-- Two pieces are one stretch of the ring. -/
theorem fetchPieces_eq (pieces : Pieces capacity start first second) :
    fetchPieces buffer start first second =
      ringSlice buffer capacity start (first + second) := by
  obtain ⟨start_lt, inside, total, wraps⟩ := pieces
  rw [ringSlice_append]
  unfold fetchPieces slice ringSlice
  congr 1
  · refine List.map_congr_left fun index listed => ?_
    have bound := List.mem_range.mp listed
    rw [Nat.mod_eq_of_lt (by omega)]
  · refine List.map_congr_left fun index listed => ?_
    have bound := List.mem_range.mp listed
    have turned : start + first = capacity := wraps.resolve_left (by omega)
    rw [turned, Nat.mod_self, Nat.mod_eq_of_lt (show 0 + index < capacity by omega)]

/-- The bytes of a transfer arrive in their places. -/
theorem storePieces_inside (pieces : Pieces capacity start first second) {bytes : List UInt8}
    (size : bytes.length = first + second) :
    ringSlice (storePieces buffer start first second bytes) capacity start (first + second) =
      bytes := by
  have firstSize : (bytes.take first).length = first := by
    rw [List.length_take]
    omega
  have secondSize : (bytes.drop first).length = second := by
    rw [List.length_drop]
    omega
  have total := pieces.total
  have inside := pieces.inside
  have front : slice (storePieces buffer start first second bytes) start first =
      bytes.take first := by
    have apart : 0 + ((bytes.drop first).take second).length ≤ start := by
      rw [List.length_take, secondSize, Nat.min_self]
      rcases pieces.wraps with none | turned <;> omega
    have held := (holds_write buffer start (bytes.take first)).write_disjoint (.inl apart)
    have same := slice_eq_of_holds held
    rw [firstSize] at same
    exact same
  have back : slice (storePieces buffer start first second bytes) 0 second =
      bytes.drop first := by
    have held := slice_eq_of_holds
      (holds_write (write buffer start (bytes.take first)) 0 ((bytes.drop first).take second))
    rw [List.length_take, secondSize, Nat.min_self,
      List.take_of_length_le (Nat.le_of_eq secondSize)] at held
    rw [storePieces, List.take_of_length_le (Nat.le_of_eq secondSize)]
    exact held
  rw [← fetchPieces_eq pieces, fetchPieces, front, back, List.take_append_drop]

/-- A transfer leaves the places behind it alone, all the way round. -/
theorem storePieces_outside (pieces : Pieces capacity start first second) {bytes : List UInt8}
    {index : Nat} (behind : first + second ≤ index) (inside : index < capacity) :
    storePieces buffer start first second bytes ((start + index) % capacity) =
      buffer ((start + index) % capacity) := by
  rw [pieces.place inside]
  obtain ⟨start_lt, ends, total, wraps⟩ := pieces
  have firstSize := List.length_take_le first bytes
  have secondSize := List.length_take_le second (bytes.drop first)
  unfold storePieces
  split
  · rw [write_outside (by omega), write_outside (by omega)]
  · rw [write_outside (by omega), write_outside (by omega)]

/-- The pieces of a transfer add up to as much as there is, and are taken in order. -/
theorem adjust_spec {len avail1 avail2 : Nat} (fits : len < 2 ^ 31) :
    ∃ first second : Nat, adjust len avail1 avail2 = (↑first, ↑second) ∧
      first + second = min len (avail1 + avail2) ∧ first ≤ avail1 ∧ second ≤ avail2 ∧
      (second = 0 ∨ first = avail1) := by
  unfold adjust
  by_cases short : (len : Int) < avail1
  · rw [if_pos short]
    exact ⟨len, 0, rfl, by omega, by omega, Nat.zero_le _, .inl rfl⟩
  · rw [if_neg short]
    dsimp only
    rw [wrap_of_range (by omega) (by omega)]
    by_cases rest : (len : Int) - avail1 < avail2
    · rw [if_pos rest]
      exact ⟨avail1, len - avail1, by rw [Int.ofNat_sub (by omega)], by omega,
        Nat.le_refl _, by omega, .inr rfl⟩
    · rw [if_neg rest]
      exact ⟨avail1, avail2, rfl, by omega, Nat.le_refl _, Nat.le_refl _, .inr rfl⟩

/-- So adjusted, a transfer into or out of two stretches of the ring is made in pieces. -/
theorem adjust_pieces {len avail1 avail2 : Nat} (fits : len < 2 ^ 31)
    (stretches : Pieces capacity start avail1 avail2) :
    ∃ first second : Nat, adjust len avail1 avail2 = (↑first, ↑second) ∧
      first + second = min len (avail1 + avail2) ∧ Pieces capacity start first second := by
  obtain ⟨first, second, adjusted, sum, low, high, wraps⟩ := @adjust_spec len avail1 avail2 fits
  have inside := stretches.inside
  have total := stretches.total
  refine ⟨first, second, adjusted, sum, stretches.start_lt, by omega, by omega, ?_⟩
  rcases wraps with none | all
  · exact .inl none
  · rcases stretches.wraps with none | turned
    · exact .inl (by omega)
    · exact .inr (by omega)

/-- The second piece is fetched only if there is one. -/
theorem fetchPieces_if (buffer : Mem) (start first second : Nat) :
    (slice buffer start first ++ if (0 : Int) < (second : Nat) then slice buffer 0 second else []) =
      fetchPieces buffer start first second := by
  unfold fetchPieces
  split
  · rfl
  · have none : second = 0 := by omega
    rw [none]
    rfl

/-- The second piece is stored only if there is one. -/
theorem storePieces_if (buffer : Mem) (start first second : Nat) (bytes : List UInt8) :
    (if (0 : Int) < (second : Nat) then
        write (write buffer start (bytes.take first)) 0 ((bytes.drop first).take second)
      else write buffer start (bytes.take first)) =
      storePieces buffer start first second bytes := by
  unfold storePieces
  split
  · rfl
  · have none : second = 0 := by omega
    funext place
    rw [none, List.take_zero]
    exact (@write_outside _ _ _ [] (.inr (Nat.zero_le place))).symm

/-- Only the bytes of the two pieces are looked at. -/
theorem storePieces_take (buffer : Mem) (start first second : Nat) (bytes : List UInt8) :
    storePieces buffer start first second (bytes.take (first + second)) =
      storePieces buffer start first second bytes := by
  unfold storePieces
  rw [List.take_take, List.drop_take, List.take_take, Nat.min_eq_left (Nat.le_add_right _ _),
    Nat.add_sub_cancel_left, Nat.min_self]

/-- With a power of two for its capacity, masking an offset reduces it. -/
theorem and_pred_eq_mod {log : Nat} (power : capacity = 2 ^ log) (place : Nat) :
    place &&& (capacity - 1) = place % capacity := by
  rw [power, Nat.and_two_pow_sub_one_eq_mod]

/-- The mask of a capacity. -/
theorem unsigned_pred (positive : 0 < capacity) (bound : capacity ≤ 2 ^ 32) :
    unsigned ((capacity : Int) - 1) = capacity - 1 := by
  rw [unsigned_of_nonneg (by omega) (by omega)]
  omega

/-! ## What a ring holds -/

/-- The ring holds these bytes between its two offsets. -/
structure Holding (buffer : Mem) (capacity read write : Nat) (queue : List UInt8) : Prop where
  read_lt : read < capacity
  write_eq : write = (read + queue.length) % capacity
  room : queue.length ≤ capacity
  bytes : ringSlice buffer capacity read queue.length = queue

variable {read write : Nat} {queue : List UInt8}

theorem Holding.write_lt (holding : Holding buffer capacity read write queue) :
    write < capacity := by
  rw [holding.write_eq]
  exact Nat.mod_lt _ (Nat.zero_lt_of_lt holding.read_lt)

/-- The offsets tell how many bytes are held, up to one turn. -/
theorem Holding.offsets (holding : Holding buffer capacity read write queue) :
    write = read + queue.length ∨ write + capacity = read + queue.length := by
  have bound := holding.read_lt
  have room := holding.room
  have turn := mod_turn (show read + queue.length < 2 * capacity by omega)
  rw [← holding.write_eq] at turn
  split at turn <;> omega

/-- Bytes stored behind the last one, where there is room, are appended. -/
theorem Holding.push (holding : Holding buffer capacity read write queue)
    (pieces : Pieces capacity write first second) {bytes : List UInt8}
    (size : bytes.length = first + second) (room : queue.length + bytes.length ≤ capacity) :
    Holding (storePieces buffer write first second bytes) capacity read
      ((write + bytes.length) % capacity) (queue ++ bytes) where
  read_lt := holding.read_lt
  write_eq := by
    rw [holding.write_eq, Nat.mod_add_mod, List.length_append, Nat.add_assoc]
  room := by
    rw [List.length_append]
    exact room
  bytes := by
    have kept : ringSlice (storePieces buffer write first second bytes) capacity read
        queue.length = queue := by
      conv_rhs => rw [← holding.bytes]
      refine ringSlice_congr fun index inside => ?_
      have turned : (read + index) % capacity =
          (write + (capacity - queue.length + index)) % capacity := by
        have around : read + queue.length + (capacity - queue.length + index) =
            read + index + capacity := by
          have limit := holding.room
          omega
        rw [holding.write_eq, Nat.mod_add_mod, around, Nat.add_mod_right]
      rw [turned]
      exact storePieces_outside pieces (by omega) (by omega)
    rw [List.length_append, ringSlice_append, kept, ← holding.write_eq, size,
      storePieces_inside pieces size]

/-- What has been pushed before stays in its place. -/
theorem Holding.push_keeps (holding : Holding buffer capacity read write queue)
    (pieces : Pieces capacity write first second) {bytes : List UInt8}
    (size : bytes.length = first + second) (room : queue.length + bytes.length ≤ capacity)
    {index : Nat} (inside : index < queue.length) :
    storePieces buffer write first second bytes ((read + index) % capacity) =
      buffer ((read + index) % capacity) := by
  have before := holding.bytes
  have after := (holding.push pieces size room).bytes
  rw [List.length_append, ringSlice_append] at after
  have same := (List.append_inj after (by simp)).1.trans before.symm
  have each := List.map_inj_left.mp same
  exact each index (List.mem_range.mpr inside)

/-- Moving the read offset drops bytes in front. -/
theorem Holding.pop (holding : Holding buffer capacity read write queue) {count : Nat}
    (enough : count ≤ queue.length) :
    ringSlice buffer capacity read count = queue.take count ∧
      Holding buffer capacity ((read + count) % capacity) write (queue.drop count) := by
  obtain ⟨more, size⟩ := Nat.exists_eq_add_of_le enough
  have parts := holding.bytes
  rw [size, ringSlice_append] at parts
  have whole : queue.take count ++ queue.drop count = queue := List.take_append_drop ..
  have split := List.append_inj (parts.trans whole.symm) (by
    rw [length_ringSlice, List.length_take, Nat.min_eq_left enough])
  have rest : (queue.drop count).length = more := by
    rw [List.length_drop]
    omega
  refine ⟨split.1, ?_⟩
  exact
    { read_lt := Nat.mod_lt _ (Nat.zero_lt_of_lt holding.read_lt)
      write_eq := by rw [holding.write_eq, Nat.mod_add_mod, rest, Nat.add_assoc, ← size]
      room := by
        have limit := holding.room
        omega
      bytes := by rw [rest]; exact split.2 }

theorem holding_nil (buffer : Mem) {capacity place : Nat} (inside : place < capacity) :
    Holding buffer capacity place place [] where
  read_lt := inside
  write_eq := (Nat.mod_eq_of_lt inside).symm
  room := Nat.zero_le _
  bytes := rfl

end PeridotSw.Machine.Ring

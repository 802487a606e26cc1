import PeridotSw.Bridge.Mkpipe
import PeridotSw.Bridge.Pipe
import PeridotSw.Fifo.Bounded

/-!
# The capacities of rings

`named_fifo_create` and `peridot_sw_hostbridge_gen2_mkpipe` round the size that is asked for up
to a power of two, in 32 bits, and allocate as many bytes behind the header.  Above `2 ^ 31`
nothing is left of the size; the rounding of a pipe takes 0 to 0 as well, and 1 to 1, which is
no room for a byte in a ring that keeps one free.
-/

namespace PeridotSw.Bridge.RingCapacities

open PeridotSw.Machine.Memory
open PeridotSw.Machine.Word
open PeridotSw.Machine.Ring
open PeridotSw.Machine.Roundup
open PeridotSw.Bridge.Channel
open PeridotSw.Bridge.Mkpipe
open PeridotSw.Bridge.Pipe (HostbridgePipe pipeFree pipeStore)
open PeridotSw.Fifo.NamedFifo (NamedFifoDev fifoCapacity fifoCapacity_eq namedFifoCreate
  namedFifoMinimumSize)
open PeridotSw.Fifo.Bounded (heldCount)

/-! ## Calls -/

/-- The sizes of the structures, `malloc`, which gives an address and what is found there, and
`alt_dev_reg`. -/
structure Platform where
  sizeofDev : Nat
  sizeofPipe : Nat
  sizeofChannel : Nat
  malloc : Nat → Option (Nat × Mem)
  altDevReg : NamedFifoDev → Int

/-- A call that creates a ring. -/
inductive RingCall where
  | namedFifoCreate (name : CString) (size : Nat)
  | mkpipe (state : State) (channel : UInt8) (outputFd inputFd : Int) (inputCapacity : Nat)

def RingCall.size : RingCall → Nat
  | .namedFifoCreate _ size => size
  | .mkpipe _ _ _ _ inputCapacity => inputCapacity

namespace Platform

variable (platform : Platform)

/-- What `named_fifo_create` allocates. -/
def fifoAmount (name : CString) (size : Nat) : Nat :=
  unsigned (platform.sizeofDev + fifoCapacity size + (name.bytes.length + 1))

/-- What `peridot_sw_hostbridge_gen2_mkpipe` allocates. -/
def pipeAmount (inputFd : Int) (inputCapacity : Nat) : Nat :=
  if 0 ≤ inputFd then unsigned (platform.sizeofPipe + roundupPow2 inputCapacity)
  else platform.sizeofChannel

def createFifo (name : CString) (size : Nat) : Option NamedFifoDev :=
  namedFifoCreate platform.sizeofDev (fun amount => (platform.malloc amount).map Prod.snd) name size

theorem createFifo_eq (name : CString) (size : Nat) :
    platform.createFifo name size = (platform.malloc (platform.fifoAmount name size)).map
      fun block => ⟨⟨false, false, false⟩, 0, 0, fifoCapacity size, 0, 0, block.2⟩ := by
  unfold createFifo namedFifoCreate fifoAmount
  rw [Option.map_map]
  rfl

def createPipe (state : State) (channel : UInt8) (outputFd inputFd : Int)
    (inputCapacity : Nat) : State × Int :=
  peridotSwHostbridgeGen2Mkpipe state channel outputFd inputFd inputCapacity
    ((platform.malloc (platform.pipeAmount inputFd inputCapacity)).map Prod.fst)

/-- The call returns 0; of a pipe the input side is asked for. -/
def Accepts : RingCall → Prop
  | .namedFifoCreate name size =>
      ∃ dev, platform.createFifo name size = some dev ∧ platform.altDevReg dev = 0
  | .mkpipe state channel outputFd inputFd inputCapacity =>
      0 ≤ inputFd ∧ (platform.createPipe state channel outputFd inputFd inputCapacity).2 = 0

def Stores (capacity : Nat) : RingCall → Prop
  | .namedFifoCreate name size =>
      ∃ dev, platform.createFifo name size = some dev ∧ dev.capacity = capacity
  | .mkpipe state channel outputFd inputFd inputCapacity =>
      ∃ pipe, findChannel (platform.createPipe state channel outputFd inputFd
        inputCapacity).1.bridge.registry channel = some (pipeChannel channel inputFd pipe capacity)

def amount : RingCall → Nat
  | .namedFifoCreate name size => platform.fifoAmount name size
  | .mkpipe _ _ _ inputFd inputCapacity => platform.pipeAmount inputFd inputCapacity

/-- What a ring of this capacity needs: the header, the ring, and the name of a FIFO. -/
def needed (capacity : Nat) : RingCall → Nat
  | .namedFifoCreate name _ => platform.sizeofDev + capacity + (name.bytes.length + 1)
  | .mkpipe _ _ _ _ _ => platform.sizeofPipe + capacity

end Platform

/-- The capacity a ring has at least. -/
def RingCall.least : RingCall → Nat
  | .namedFifoCreate _ _ => namedFifoMinimumSize
  | .mkpipe _ _ _ _ _ => 0

/-- Some FIFO of the capacity holds a byte; a new pipe of the capacity takes one. -/
def RingCall.HoldsByte (capacity : Nat) : RingCall → Prop
  | .namedFifoCreate _ _ => ∃ dev : NamedFifoDev, dev.capacity = capacity ∧
      dev.readOffset < capacity ∧ dev.writeOffset < capacity ∧ 0 < heldCount dev
  | .mkpipe _ _ _ _ _ => ∀ (pipe : HostbridgePipe) (byte : UInt8),
      (pipeStore capacity pipe [byte] 0 0).1 = 1

/-- The capacity is right for the call. -/
structure Right (platform : Platform) (call : RingCall) (capacity : Nat) : Prop where
  power : ∃ log, capacity = 2 ^ log
  enough : call.size ≤ capacity
  least : call.least ≤ capacity
  whole : platform.amount call = platform.needed capacity call
  holdsByte : call.HoldsByte capacity

/-- The power of two a ring should have for its capacity. -/
def RingCall.room (call : RingCall) : Nat := 2 ^ Nat.clog 2 (max call.least call.size)

/-- The size can be rounded up in 32 bits, to what holds a byte beside the one kept free, and
all of it can be asked of `malloc`. -/
structure Within (platform : Platform) (call : RingCall) : Prop where
  small : call.size ≤ 2 ^ 31
  two : 2 ≤ max call.least call.size
  fits : platform.needed call.room call < 2 ^ 32

/-! ## The capacity that is stored -/

/-- What the code rounds the size to. -/
def RingCall.rounded : RingCall → Nat
  | .namedFifoCreate _ size => fifoCapacity size
  | .mkpipe _ _ _ _ inputCapacity => roundupPow2 inputCapacity

theorem roundupPow2_eq {x : Nat} (positive : 0 < x) (bound : x < 2 ^ 32) :
    roundupPow2 x = unsigned (2 ^ Nat.clog 2 x : Nat) := by
  unfold roundupPow2
  have pred : (x : Int) - 1 = ((x - 1 : Nat) : Int) := by omega
  rw [pred, unsigned_natCast (by omega), ← smear_pred positive (by omega)]
  rfl

theorem rounded_eq {call : RingCall} (bound : call.size < 2 ^ 32)
    (positive : 0 < max call.least call.size) : call.rounded = unsigned call.room := by
  cases call with
  | namedFifoCreate name size => exact fifoCapacity_eq bound
  | mkpipe state channel outputFd inputFd inputCapacity =>
      have same : max 0 inputCapacity = inputCapacity := Nat.zero_max inputCapacity
      have pending : 0 < inputCapacity := same ▸ positive
      change roundupPow2 inputCapacity = unsigned (2 ^ Nat.clog 2 (max 0 inputCapacity) : Nat)
      rw [same]
      exact roundupPow2_eq pending bound

theorem least_le (call : RingCall) : call.least ≤ 256 := by
  cases call with
  | namedFifoCreate name size => exact Nat.le_refl 256
  | mkpipe state channel outputFd inputFd inputCapacity => exact Nat.zero_le 256

theorem le_room (call : RingCall) : max call.least call.size ≤ call.room :=
  Nat.le_pow_clog Nat.one_lt_two _

theorem room_le {call : RingCall} (small : call.size ≤ 2 ^ 31) : call.room ≤ 2 ^ 31 := by
  have covers : max call.least call.size ≤ 2 ^ 31 :=
    Nat.max_le.mpr ⟨Nat.le_trans (least_le call) (by decide), small⟩
  exact Nat.pow_le_pow_right (by decide) (Nat.clog_le_of_le_pow covers)

theorem rounded_small {call : RingCall} (small : call.size ≤ 2 ^ 31)
    (positive : 0 < max call.least call.size) : call.rounded = call.room := by
  rw [rounded_eq (by omega) positive]
  exact unsigned_natCast (Nat.lt_of_le_of_lt (room_le small) (by decide))

theorem rounded_large {call : RingCall} (large : 2 ^ 31 < call.size)
    (bound : call.size < 2 ^ 32) : call.rounded = 0 := by
  have covers : 2 ^ 31 < max call.least call.size := Nat.lt_of_lt_of_le large (Nat.le_max_right ..)
  have top : max call.least call.size ≤ 2 ^ 32 :=
    Nat.max_le.mpr ⟨Nat.le_trans (least_le call) (by decide), Nat.le_of_lt bound⟩
  rw [rounded_eq bound (by omega), RingCall.room, clog_eq_top covers top]
  rfl

section Accepted

variable {platform : Platform} {call : RingCall}

theorem stores_iff (accepted : platform.Accepts call) (capacity : Nat) :
    platform.Stores capacity call ↔ capacity = call.rounded := by
  cases call with
  | namedFifoCreate name size =>
      obtain ⟨dev, created, -⟩ := accepted
      have same : dev.capacity = fifoCapacity size := by
        rw [platform.createFifo_eq] at created
        obtain ⟨block, -, rfl⟩ := Option.map_eq_some_iff.mp created
        rfl
      constructor
      · rintro ⟨other, is, stored⟩
        cases created.symm.trans is
        exact stored.symm.trans same
      · exact fun is => ⟨dev, created, same.trans is.symm⟩
  | mkpipe state channel outputFd inputFd inputCapacity =>
      obtain ⟨input, success⟩ := accepted
      have performed : (Call.mkpipe channel outputFd inputFd inputCapacity
          ((platform.malloc (platform.pipeAmount inputFd inputCapacity)).map Prod.fst)).perform
            state = some (platform.createPipe state channel outputFd inputFd inputCapacity).1 :=
        if_pos success.ge
      obtain ⟨registry, registered, bridge, -⟩ := perform_bridge performed
      have found := findChannel_register registered
      have known := congrArg BridgeState.registry bridge
      rw [← show _ = registry from known] at found
      constructor
      · rintro ⟨pipe, is⟩
        have same := Option.some.inj (is.symm.trans found)
        simp only [Call.channel, pipeChannel, input, if_true] at same
        injection same with _ _ same
        injection same with same
        injection same with same
        injection same
      · rintro rfl
        exact ⟨_, found⟩

theorem amount_eq (accepted : platform.Accepts call) :
    platform.amount call = unsigned (platform.needed call.rounded call) := by
  cases call with
  | namedFifoCreate name size => rfl
  | mkpipe state channel outputFd inputFd inputCapacity => exact if_pos accepted.1

end Accepted

/-! ## A byte in the ring -/

/-- A new pipe takes a byte unless all its places have to stay free. -/
theorem pipeStore_byte {capacity : Nat} (two : 2 ≤ capacity) (bound : capacity ≤ 2 ^ 31)
    (pipe : HostbridgePipe) (byte : UInt8) : (pipeStore capacity pipe [byte] 0 0).1 = 1 := by
  have free : pipeFree capacity 0 0 = (((capacity - 1 : Nat) : Int), 0) := by
    unfold pipeFree
    dsimp only
    rw [if_pos (Int.le_refl 0), if_pos (by decide)]
    congr 1
    unfold wrap signed unsigned
    omega
  unfold pipeStore
  rw [free]
  dsimp only
  rw [if_neg (by omega)]
  dsimp only
  by_cases only : capacity = 2
  · subst only
    rfl
  · have less : (([byte].length : Nat) : Int) < ((capacity - 1 : Nat) : Int) := by
      rw [List.length_singleton]
      omega
    unfold adjust
    rw [if_pos less]
    rfl

theorem holdsByte_room {call : RingCall} (small : call.size ≤ 2 ^ 31)
    (two : 2 ≤ max call.least call.size) : call.HoldsByte call.room := by
  have roomy : 2 ≤ call.room := Nat.le_trans two (le_room call)
  cases call with
  | namedFifoCreate name size =>
      have positive := Nat.lt_of_lt_of_le Nat.two_pos roomy
      exact ⟨⟨⟨true, false, false⟩, 0, 0, _, 0, 0, fun _ => 0⟩, rfl, positive, positive,
        positive⟩
  | mkpipe state channel outputFd inputFd inputCapacity => exact pipeStore_byte roomy (room_le small)

/-! ## When the capacity is right -/

theorem two_of_right {platform : Platform} {call : RingCall}
    (right : Right platform call call.rounded) : 2 ≤ max call.least call.size := by
  cases call with
  | namedFifoCreate name size => exact Nat.le_trans (by decide) (Nat.le_max_left 256 size)
  | mkpipe state channel outputFd inputFd inputCapacity =>
      refine Nat.le_trans ?_ (Nat.le_max_right ..)
      change 2 ≤ inputCapacity
      match inputCapacity, right with
      | 0, right =>
          obtain ⟨log, power⟩ := right.power
          exact absurd power.symm (Nat.two_pow_pos log).ne'
      | 1, right =>
          have refused : (pipeStore (roundupPow2 1) ⟨0, 0, 0, fun _ => 0⟩ [0] 0 0).1 ≠ 1 := by
            decide
          exact absurd (right.holdsByte ⟨0, 0, 0, fun _ => 0⟩ 0) refused
      | inputCapacity + 2, _ => exact Nat.le_add_left 2 inputCapacity

/-- Of an accepted call exactly one capacity is stored; it is right if and only if the size is
within the range, and what is needed can be allocated. -/
theorem right_iff_within {platform : Platform} {call : RingCall} (bound : call.size < 2 ^ 32)
    (accepted : platform.Accepts call) :
    (∃ capacity, (∀ other, platform.Stores other call ↔ other = capacity) ∧
      Right platform call capacity) ↔ Within platform call := by
  constructor
  · rintro ⟨capacity, stored, right⟩
    have same : capacity = call.rounded := (stores_iff accepted _).mp ((stored _).mpr rfl)
    subst same
    have two := two_of_right right
    have small : call.size ≤ 2 ^ 31 := by
      by_contra large
      have enough := right.enough
      rw [rounded_large (Nat.not_le.mp large) bound] at enough
      omega
    refine ⟨small, two, ?_⟩
    rw [← rounded_small small (by omega), ← right.whole, amount_eq accepted]
    exact unsigned_lt _
  · intro within
    have same := rounded_small within.small (Nat.lt_of_lt_of_le Nat.two_pos within.two)
    have amount := amount_eq accepted
    rw [same] at amount
    refine ⟨call.room, fun other => ?_,
      { power := ⟨_, rfl⟩
        enough := Nat.le_trans (Nat.le_max_right ..) (le_room call)
        least := Nat.le_trans (Nat.le_max_left ..) (le_room call)
        whole := amount.trans (unsigned_natCast within.fits)
        holdsByte := holdsByte_room within.small within.two }⟩
    rw [stores_iff accepted, same]

/-- A platform with plausible sizes, where `malloc` fails from `2 ^ 31` bytes on. -/
def board : Platform where
  sizeofDev := 60
  sizeofPipe := 36
  sizeofChannel := 16
  malloc := fun amount => if amount < 2 ^ 31 then some (0x1000, fun _ => 0) else none
  altDevReg := fun _ => 0

theorem right_iff_within_fifo :
    board.Accepts (.namedFifoCreate (.of [0x66] rfl) 1000) ∧
      ((∃ capacity, (∀ other, board.Stores other (.namedFifoCreate (.of [0x66] rfl) 1000) ↔
          other = capacity) ∧ Right board (.namedFifoCreate (.of [0x66] rfl) 1000) capacity) ↔
        Within board (.namedFifoCreate (.of [0x66] rfl) 1000)) :=
  have accepted : board.Accepts (.namedFifoCreate (.of [0x66] rfl) 1000) := ⟨_, rfl, rfl⟩
  ⟨accepted, right_iff_within (by decide) accepted⟩

/-- A FIFO just above `2 ^ 31` and a pipe of no size are accepted, with capacity 0. -/
theorem not_right_zero :
    (board.Accepts (.namedFifoCreate (.of [0x66] rfl) (2 ^ 31 + 1)) ∧
        board.Accepts (.mkpipe (initial fun _ => ⟨none, 0, 0⟩) 5 (-1) 3 0)) ∧
      ¬(∃ capacity, board.Stores capacity (.namedFifoCreate (.of [0x66] rfl) (2 ^ 31 + 1)) ∧
        Right board (.namedFifoCreate (.of [0x66] rfl) (2 ^ 31 + 1)) capacity) ∧
      ¬∃ capacity, board.Stores capacity (.mkpipe (initial fun _ => ⟨none, 0, 0⟩) 5 (-1) 3 0) ∧
        Right board (.mkpipe (initial fun _ => ⟨none, 0, 0⟩) 5 (-1) 3 0) capacity := by
  have fifo : board.Accepts (.namedFifoCreate (.of [0x66] rfl) (2 ^ 31 + 1)) := ⟨_, rfl, rfl⟩
  have pipe : board.Accepts (.mkpipe (initial fun _ => ⟨none, 0, 0⟩) 5 (-1) 3 0) :=
    ⟨by decide, rfl⟩
  refine ⟨⟨fifo, pipe⟩, ?_, ?_⟩
  · rintro ⟨capacity, stored, right⟩
    have zero : capacity = 0 := (stores_iff fifo capacity).mp stored
    exact absurd right.enough (by rw [zero]; decide)
  · rintro ⟨capacity, stored, right⟩
    have zero : capacity = 0 := (stores_iff pipe capacity).mp stored
    obtain ⟨log, power⟩ := right.power
    exact absurd (power.symm.trans zero) (Nat.two_pow_pos log).ne'

end PeridotSw.Bridge.RingCapacities

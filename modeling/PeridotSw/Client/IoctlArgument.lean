import Mathlib.Data.List.Flatten
import PeridotSw.Client.ResultRooms
import PeridotSw.Rpc.Parameters

/-!
# The argument of `ioctl`

`peridot_client_fs_ioctl` calls `ioctl` with the pointer in `arg_output`, which is set to the
copy of the argument in the result.  Without an argument that `bson_get_binary` accepts it is
not set at all.
-/

namespace PeridotSw.Client.IoctlArgument

open PeridotSw.Machine.Memory
open PeridotSw.Machine.Word
open PeridotSw.Machine.Noted
open PeridotSw.Bson.Read
open PeridotSw.Bson.Write
open PeridotSw.Bson.Document
open PeridotSw.Bson.Walk (readUnalignedInt_lt)
open PeridotSw.Bson.Lookup
open PeridotSw.Bson.Pointers
open PeridotSw.Client.Handlers
open PeridotSw.Client.Constructions
open PeridotSw.Client.ResultRooms
open PeridotSw.Rpc.Reply (into jsonrpcErrInvalidRequest offsetAt)
open PeridotSw.Rpc.ReplyLaw (first position position_cases)
open PeridotSw.Rpc.Parameters

/-! ## The call -/

/-- A call of `ioctl`, and what the block of the result holds at that time. -/
structure IoctlCall where
  fd : Int
  req : Int
  pointer : Nat
  doc : Mem

/-- What `ioctl` returns and sets `errno` to, and what the block of the result holds then. -/
structure Answer where
  value : Int32
  errno : Int32
  after : Mem

/-- What the handler has called, what it returns and `errno` behind it. -/
structure Run where
  calls : List IoctlCall
  returned : Option Mem
  errno : Int32

/-- `result_len`, converted for `malloc`. -/
def resultSize (arg : Option (List UInt8)) : Nat :=
  unsigned (wrap (bsonEmptySize + measureInt32 keyResult + measureResponse arg))

/-- `arg_output`: the address of the binary in the block at `base`, or what the variable holds
at the beginning. -/
def argOutput (garbage base : Nat) (block : Mem) : Option (List UInt8) → Nat
  | some input =>
      base + (bsonSetBinaryGeneric (some (bsonCreateEmptyDocument block)) keyResponse
        input.length).2.2.getD 0
  | none => garbage

/-- The call for a block at `base`. -/
def callWith (garbage base : Nat) (block : Mem) (fd req : Int) (arg : Option (List UInt8)) :
    IoctlCall :=
  ⟨fd, req, argOutput garbage base block arg, (controlStages arg block).2⟩

section

variable (outside : Outside) (heap : Nat → Option (Nat × Mem)) (control : IoctlCall → Answer)
  (memories : Memories) (garbage : Nat)

/-- `peridot_client_fs_ioctl`, its parameters being read; `heap` gives blocks with their
addresses. -/
def controlRun (fd req : Int) (arg : Option (List UInt8)) : Run :=
  match heap (resultSize arg) with
  | none => ⟨[], none, enomem⟩
  | some (base, block) =>
      let call := callWith garbage base block fd req arg
      let answer := control call
      if answer.value < 0 then
        ⟨[call], none, answer.errno⟩
      else
        ⟨[call], some (into answer.after (bsonSetInt32 (some answer.after) keyResult answer.value)),
          answer.errno⟩

/-- `peridot_client_fs_ioctl`. -/
def ioctlRun (stale : Fin 3 → Int) (params : Option Nat) : Through Run := do
  let props ← getProps memories params
    [⟨keyFd, stale 0⟩, ⟨keyReq, stale 1⟩, ⟨keyArg, stale 2⟩]
  if props.1 < 0 then
    pure ⟨[], none, jsonrpcErrInvalidRequest⟩
  else
    match ← peridotClientFsGetFd outside memories params (offsetAt props.2 0) with
    | .error errno => pure ⟨[], none, errno⟩
    | .ok found => do
        let req ← getInt32 memories params (offsetAt props.2 1) (-1)
        let arg ← getBinary memories params (offsetAt props.2 2)
        if req < 0 then
          pure ⟨[], none, jsonrpcErrInvalidParams⟩
        else
          pure (controlRun heap control garbage found.2 req
            (arg.map fun binary => slice memories.input binary.1 binary.2.toNat))

end

/-! ## The law -/

def argOf (content : Elements) : Option (List UInt8) :=
  match first keyArg content with
  | some (.binary _ bytes) => some bytes
  | _ => none

/-- What `bson_get_binary` gives of it. -/
def given (content : Elements) : Option (List UInt8) :=
  (argOf content).filter fun bytes => !bytes.isEmpty

/-- The parameters name an open handle, whose descriptor is this. -/
def Opened (outside : Outside) (content : Elements) (fd : Int) : Prop :=
  ∃ vfd, first keyFd content = some (.int32 vfd) ∧ 0 ≤ vfd.toInt ∧
    outside.vfdList[vfd.toInt.toNat]? = some fd ∧ 0 ≤ fd

/-- `ioctl` modifies no bytes of the block at `base` but those of the argument it is given. -/
def OnlyModifies (control : IoctlCall → Answer) (base : Nat) (arg : Option (List UInt8)) : Prop :=
  ∀ call index, ¬(call.pointer ≤ base + index ∧
      base + index < call.pointer + (arg.getD []).length) →
    (control call).after index = call.doc index

/-- The pointer is to a copy of the argument in the document, `NULL` without one. -/
def Points (base : Nat) (call : IoctlCall) (place : Nat) : Option (List UInt8) → Prop
  | some input => call.pointer = base + place ∧ Holds call.doc place input ∧
      ((place + input.length : Nat) : Int) < bsonMeasureDocument call.doc
  | none => call.pointer = 0

/-- The response in the reply: the bytes of the argument as they are now. -/
def responseAt (after : Mem) (place : Nat) : Option (List UInt8) → Value
  | some input => .binary 0 (slice after place input.length)
  | none => .null

/-- `ioctl` is called once, with a pointer to the argument, and a success is replied to with
what it has left there and what it has returned. -/
def Lawful (control : IoctlCall → Answer) (base : Nat) (arg : Option (List UInt8)) (fd req : Int)
    (run : Run) : Prop :=
  ∃ call place, run.calls = [call] ∧ call.fd = fd ∧ call.req = req ∧ Points base call place arg ∧
    (0 ≤ (control call).value → ∃ final, run.returned = some final ∧
      HoldsDocument final 0 (.append (.append .empty keyResponse
        (responseAt (control call).after place arg)) keyResult (.int32 (control call).value)))

/-! ## Reading the parameters -/

variable {outside : Outside} {heap : Nat → Option (Nat × Mem)} {control : IoctlCall → Answer}
  {memories : Memories} {content : Elements} {source : Mem} {sum : Int} {params base : Nat}
  {block : Mem} {fd : Int} {req : Int32}

theorem element_of_first {content : Elements} {key : CString} {value : Value}
    (found : first key content = some value) : value.element key ∈ content.list := by
  match content with
  | .empty => cases found
  | .append front other last =>
      rw [first] at found
      rw [Elements.list]
      cases earlier : first key front with
      | some value' =>
          rw [earlier] at found
          cases found
          exact List.mem_append_left _ (element_of_first earlier)
      | none =>
          rw [earlier] at found
          by_cases same : other = key
          · rw [if_pos same] at found
            cases found
            exact List.mem_append_right _ (same ▸ List.mem_singleton_self _)
          · rw [if_neg same] at found
            cases found

/-- Different elements of a document do not take more bytes than the document. -/
theorem length_elements_le {elements : List Element} (distinct : elements.Nodup)
    (subset : elements ⊆ content.list) :
    (elements.flatMap Element.bytes).length ≤ content.encode.length := by
  obtain ⟨order, same, inside⟩ := List.subperm_of_subset distinct subset
  rw [Elements.encode_eq_flatMap, ← (same.flatMap_right Element.bytes).length_eq]
  exact (inside.flatMap Element.bytes).length_le

theorem value_getFd (built : Built content source sum)
    (held : HoldsDocument memories.input params content) (opened : Opened outside content fd) :
    ∃ vfd, (peridotClientFsGetFd outside memories (some params)
      (position content keyFd)).value = .ok (vfd, fd) := by
  obtain ⟨vfd, named, nonneg, found, open'⟩ := opened
  have number : (bsonGetInt32 (some params) (position content keyFd) (-1)).eval memories.input =
      vfd.toInt := by
    rw [getInt32_eq built held, numberUnder, named]
  have known : ¬ position content keyFd < 0 := by
    rcases position_cases held keyFd with ⟨absent, -⟩ | ⟨_, offset, -, -, place, -⟩
    · rw [named] at absent
      cases absent
    · rw [place]
      exact Int.not_lt.mpr (Int.natCast_nonneg offset)
  refine ⟨vfd.toInt, ?_⟩
  rw [peridotClientFsGetFd, if_neg known, Noting.value_bind]
  simp only [getInt32, number, found]
  rw [if_neg (by omega)]
  rfl

theorem value_getArg (held : HoldsDocument memories.input params content) :
    ((bsonGetBinary (some params) (position content keyArg)).eval memories.input).map
      (fun binary => slice memories.input binary.1 binary.2.toNat) = given content := by
  rcases getBinary_cases held keyArg with
    ⟨subtype, bytes, place, found, nonempty, got, bytes'⟩ | ⟨absent, got⟩
  · have copied : slice memories.input place (bytes.length : Int).toNat = bytes :=
      slice_eq_of_holds bytes'
    rw [got, given, argOf, found, Option.map_some, copied]
    cases bytes with
    | nil => exact absurd rfl nonempty
    | cons byte rest => rfl
  · rw [got, given, argOf]
    split
    case h_1 subtype bytes found =>
      rw [absent subtype bytes found]
      rfl
    case h_2 => rfl

/-- The handler comes to its call with the argument that is given. -/
theorem value_ioctlRun (built : Built content source sum)
    (held : HoldsDocument memories.input params content) (opened : Opened outside content fd)
    (asked : first keyReq content = some (.int32 req)) (nonneg : 0 ≤ req.toInt)
    (garbage : Nat) (stale : Fin 3 → Int) :
    (ioctlRun outside heap control memories garbage stale (some params)).value =
      controlRun heap control garbage fd req.toInt (given content) := by
  have distinct : [keyFd, keyReq, keyArg].Nodup := by decide
  obtain ⟨count, props⟩ := @eval_props _ _ _ held [⟨keyFd, stale 0⟩, ⟨keyReq, stale 1⟩,
    ⟨keyArg, stale 2⟩] distinct
  obtain ⟨vfd, descriptor⟩ := @value_getFd outside _ _ _ _ _ _ built held opened
  have number : (bsonGetInt32 (some params) (position content keyReq) (-1)).eval memories.input =
      req.toInt := by
    rw [getInt32_eq built held, numberUnder, asked]
  have arg := value_getArg held
  have zeroth : offsetAt (positions content [keyFd, keyReq, keyArg]) 0 =
    position content keyFd := rfl
  have second : offsetAt (positions content [keyFd, keyReq, keyArg]) 1 =
    position content keyReq := rfl
  have third : offsetAt (positions content [keyFd, keyReq, keyArg]) 2 =
    position content keyArg := rfl
  simp only [ioctlRun, Noting.value_bind, Noting.value_ite, getProps, props, List.map_cons,
    List.map_nil, zeroth, second, third, descriptor, getInt32, getBinary, number, arg]
  rw [if_neg (Int.not_lt.mpr (Int.natCast_nonneg _)), if_neg (Int.not_lt.mpr nonneg)]
  rfl

/-- An argument leaves room for what the reply has besides it. -/
theorem room_of_given (held : HoldsDocument memories.input params content)
    (opened : Opened outside content fd) (asked : first keyReq content = some (.int32 req))
    {input : List UInt8} (arg : argOf content = some input) : input.length + 32 < 2 ^ 31 := by
  obtain ⟨vfd, named, -⟩ := opened
  obtain ⟨subtype, found⟩ : ∃ subtype, first keyArg content = some (.binary subtype input) := by
    unfold argOf at arg
    split at arg
    case h_1 subtype bytes found =>
      cases arg
      exact ⟨subtype, found⟩
    case h_2 => cases arg
  let elements := [(Value.int32 vfd).element keyFd, (Value.int32 req).element keyReq,
    (Value.binary subtype input).element keyArg]
  have distinct : elements.Nodup :=
    List.Nodup.of_map Element.key (show [keyFd, keyReq, keyArg].Nodup by decide)
  have subset : elements ⊆ content.list := by
    intro element member
    simp only [elements, List.mem_cons, List.not_mem_nil, or_false] at member
    rcases member with rfl | rfl | rfl
    · exact element_of_first named
    · exact element_of_first asked
    · exact element_of_first found
  have total := length_elements_le distinct subset
  have bound := held.2
  have size : (elements.flatMap Element.bytes).length = input.length + 27 := by
    simp only [elements, List.flatMap_cons, List.flatMap_nil, List.append_nil, List.length_append,
      length_element_bytes, Value.element, Value.encode, length_bytes32, List.length_cons]
    change 2 + 4 + 2 + (3 + 4 + 2 + (3 + (4 + (input.length + 1)) + 2)) = _
    omega
  omega

/-! ## The call and the reply -/

theorem calls_controlRun {garbage : Nat} {req : Int} {arg : Option (List UInt8)}
    (granted : heap (resultSize arg) = some (base, block)) :
    (controlRun heap control garbage fd req arg).calls =
      [callWith garbage base block fd req arg] := by
  rw [controlRun, granted]
  dsimp only
  split <;> rfl

theorem returned_controlRun {garbage : Nat} {req : Int} {arg : Option (List UInt8)}
    (granted : heap (resultSize arg) = some (base, block))
    (success : 0 ≤ (control (callWith garbage base block fd req arg)).value) :
    let answer := control (callWith garbage base block fd req arg)
    (controlRun heap control garbage fd req arg).returned =
      some (into answer.after (bsonSetInt32 (some answer.after) keyResult answer.value)) := by
  dsimp only
  rw [controlRun, granted]
  dsimp only
  rw [if_neg (Int32.not_lt.mpr success)]

/-! ## With an argument -/

section

variable {input : List UInt8}

theorem place_eq (room : input.length + 32 < 2 ^ 31) (block : Mem) :
    (bsonSetBinaryGeneric (some (bsonCreateEmptyDocument block)) keyResponse input.length).2.2 =
      some 19 :=
  binary_place (.empty block) (show 0 + 5 + (8 + (input.length + 5) + 2) < 2 ^ 31 by omega)

/-- The document at the time of the call. -/
theorem holds_before (room : input.length + 32 < 2 ^ 31) (block : Mem) :
    HoldsDocument (controlStages (some input) block).2 0
        (.append .empty keyResponse (.binary 0 input)) ∧
      Holds (controlStages (some input) block).2 19 input := by
  have stage := @stage_binary block keyResponse input
    (show 0 + 5 + (8 + (input.length + 5) + 2) < 2 ^ 31 by omega)
  obtain ⟨sum, built⟩ := stage.built
  refine ⟨built.holds.1, ?_⟩
  simp only [controlStages, place_eq room, Option.getD_some]
  exact holds_write _ _ _

/-- What only modifies the argument leaves the document with another binary. -/
theorem after_eq (room : input.length + 32 < 2 ^ 31) {call : IoctlCall}
    (pointer : call.pointer = base + 19) (doc : call.doc = (controlStages (some input) block).2)
    (only : OnlyModifies control base (some input)) :
    (control call).after =
      modified (some input) (slice (control call).after 19 input.length) block := by
  funext index
  simp only [modified, place_eq room, Option.getD_some]
  by_cases inside : 19 ≤ index ∧ index < 19 + input.length
  · have held := holds_write (controlStages (some input) block).2 19
      (slice (control call).after 19 input.length) (index - 19) (by rw [length_slice]; omega)
    have same := holds_slice (control call).after 19 input.length (index - 19)
      (by rw [length_slice]; omega)
    rw [Nat.add_sub_cancel' inside.1] at held same
    rw [held, same]
  · rw [write_outside (by rw [length_slice]; omega), ← doc]
    exact only call index (by rw [pointer, Option.getD_some]; omega)

/-- The document that is replied. -/
theorem holds_reply (room : input.length + 32 < 2 ^ 31) {call : IoctlCall}
    (pointer : call.pointer = base + 19) (doc : call.doc = (controlStages (some input) block).2)
    (only : OnlyModifies control base (some input)) (value : Int32) :
    HoldsDocument
      (into (control call).after (bsonSetInt32 (some (control call).after) keyResult value)) 0
      (.append (.append .empty keyResponse (responseAt (control call).after 19 (some input)))
        keyResult (.int32 value)) := by
  have small : 5 + responseSize (some input) < 2 ^ 31 := by
    change 5 + (8 + (input.length + 5) + 2) < _
    omega
  have sized := length_slice (control call).after 19 input.length
  have length := length_single_binary keyResponse (slice (control call).after 19 input.length)
  have stage := (@stages_control (some input) small block).2
    (slice (control call).after 19 input.length) fun _ same => by cases same; exact sized
  rw [← after_eq room pointer doc only] at stage
  have final := @Stage.set _ _ _ keyResult _ _ stage (.int32 value) (by
    rw [response, length, sized]
    change 8 + (input.length + 5) + 2 + 5 + 12 < _
    omega)
  obtain ⟨sum, built⟩ := final.built
  exact built.holds.1

/-- With an argument of at least one byte the law holds. -/
theorem lawful_controlRun (room : input.length + 32 < 2 ^ 31)
    (granted : heap (resultSize (some input)) = some (base, block))
    (only : OnlyModifies control base (some input)) (garbage : Nat) (req : Int) :
    Lawful control base (some input) fd req
      (controlRun heap control garbage fd req (some input)) := by
  have place := @place_eq input room block
  obtain ⟨held, copied⟩ := holds_before room block
  have pointer : (callWith garbage base block fd req (some input)).pointer = base + 19 := by
    simp only [callWith, argOutput, place, Option.getD_some]
  have length : (Elements.append .empty keyResponse (.binary 0 input)).encode.length =
      input.length + 15 := by
    rw [length_single_binary]
    change 8 + (input.length + 5) + 2 = _
    omega
  have declared : bsonMeasureDocument (controlStages (some input) block).2 =
      ((input.length + 20 : Nat) : Int) := by
    rw [bsonMeasureDocument, HoldsDocument.declared held, length]
    omega
  refine ⟨callWith garbage base block fd req (some input), 19, calls_controlRun granted, rfl, rfl,
    ⟨pointer, copied, ?_⟩, fun success => ⟨_, returned_controlRun granted success, ?_⟩⟩
  · rw [callWith, declared]
    omega
  · exact holds_reply room pointer rfl only _

end

/-! ## Without one -/

/-- The pointer is what the variable happened to hold, which may be anything. -/
theorem not_lawful_none (granted : heap (resultSize none) = some (base, block)) (fd req : Int)
    {arg : Option (List UInt8)} : ∃ garbage,
      ¬Lawful control base arg fd req (controlRun heap control garbage fd req none) := by
  cases arg with
  | none =>
      refine ⟨1, ?_⟩
      rintro ⟨call, place, called, -, -, null, -⟩
      rw [calls_controlRun granted] at called
      cases called
      exact absurd null (show 1 ≠ 0 by decide)
  | some input =>
      refine ⟨base + 2 ^ 31, ?_⟩
      rintro ⟨call, place, called, -, -, ⟨pointer, -, inside⟩, -⟩
      rw [calls_controlRun granted] at called
      cases called
      have bound := readUnalignedInt_lt (controlStages none block).2 0
      change ((place + input.length : Nat) : Int) <
        (readUnalignedInt 0).eval (controlStages none block).2 at inside
      change base + 2 ^ 31 = base + place at pointer
      omega

/-- Whatever `arg_output` holds at the beginning, the law holds exactly when there is an
argument and it is not empty. -/
theorem lawful_iff (built : Built content source sum)
    (held : HoldsDocument memories.input params content) (opened : Opened outside content fd)
    (asked : first keyReq content = some (.int32 req)) (nonneg : 0 ≤ req.toInt)
    (granted : heap (resultSize (given content)) = some (base, block))
    (only : OnlyModifies control base (argOf content)) (stale : Fin 3 → Int) :
    (∀ garbage, Lawful control base (argOf content) fd req.toInt
        (ioctlRun outside heap control memories garbage stale (some params)).value) ↔
      ∃ input, argOf content = some input ∧ input ≠ [] := by
  have ran (garbage : Nat) : (ioctlRun outside heap control memories garbage stale
      (some params)).value = controlRun heap control garbage fd req.toInt (given content) :=
    value_ioctlRun built held opened asked nonneg garbage stale
  simp only [ran]
  constructor
  · intro lawful
    cases accepted : given content with
    | none =>
        rw [accepted] at granted lawful
        obtain ⟨garbage, broken⟩ :=
          @not_lawful_none _ control _ _ granted fd req.toInt (argOf content)
        exact absurd (lawful garbage) broken
    | some input =>
        obtain ⟨arg, nonempty⟩ := Option.filter_eq_some_iff.mp accepted
        exact ⟨input, arg, by simpa using nonempty⟩
  · rintro ⟨input, arg, nonempty⟩ garbage
    have accepted : given content = some input := by
      rw [given, arg]
      simpa using nonempty
    rw [accepted] at granted ⊢
    rw [arg] at only ⊢
    exact lawful_controlRun (room_of_given held opened asked arg) granted only garbage req.toInt

def roomy (_ : Nat) : Option (Nat × Mem) := some (4096, fun _ => 0xcc)

def idle (call : IoctlCall) : Answer := ⟨0, 0, call.doc⟩

def withoutArgument : Elements :=
  .append (.append .empty keyFd (.int32 0)) keyReq (.int32 0)

def withArgument : Elements := .append withoutArgument keyArg (.binary 0 [1, 2])

theorem withoutArgument_built : ∃ source sum, Built withoutArgument source sum :=
  ⟨_, _, .append (.append (.empty fun _ => 0xaa) (.int32 0) (by decide)) (.int32 0) (by decide)⟩

theorem lawful_iff_withArgument :
    ∃ source sum, Built withArgument source sum ∧
      ((∀ garbage, Lawful idle 4096 (argOf withArgument) 3 0
          (ioctlRun twoBytesLeft roomy idle ⟨source, source⟩ garbage (fun _ => 99) (some 0)).value) ↔
        ∃ input, argOf withArgument = some input ∧ input ≠ []) := by
  obtain ⟨_, _, front⟩ := withoutArgument_built
  have built : Built withArgument _ _ := .append front (.binary [1, 2]) (by decide)
  have opened : Opened twoBytesLeft withArgument 3 := ⟨0, rfl, by decide, rfl, by decide⟩
  exact ⟨_, _, built, @lawful_iff twoBytesLeft roomy idle ⟨_, _⟩ withArgument _ _ 0 4096
    (fun _ => 0xcc) 3 0 built built.holds.1 opened rfl (by decide) rfl (fun _ _ _ => rfl)
    (fun _ => 99)⟩

/-- Without an argument `ioctl` is called with whatever `arg_output` holds. -/
theorem not_lawful_withoutArgument :
    ∃ source sum, Built withoutArgument source sum ∧ Opened twoBytesLeft withoutArgument 3 ∧
      OnlyModifies idle 4096 (argOf withoutArgument) ∧
      ¬∀ garbage, Lawful idle 4096 (argOf withoutArgument) 3 0
        (ioctlRun twoBytesLeft roomy idle ⟨source, source⟩ garbage (fun _ => 99) (some 0)).value := by
  obtain ⟨source, sum, built⟩ := withoutArgument_built
  have opened : Opened twoBytesLeft withoutArgument 3 := ⟨0, rfl, by decide, rfl, by decide⟩
  refine ⟨source, sum, built, opened, fun _ _ _ => rfl, fun lawful => ?_⟩
  obtain ⟨garbage, broken⟩ :=
    @not_lawful_none roomy idle 4096 (fun _ => 0xcc) rfl 3 0 (argOf withoutArgument)
  refine broken ?_
  have ran := @value_ioctlRun twoBytesLeft roomy idle ⟨source, source⟩ withoutArgument _ _ 0 3 0
    built built.holds.1 opened rfl (by decide) garbage (fun _ => 99)
  have now := lawful garbage
  rw [ran] at now
  exact now

end PeridotSw.Client.IoctlArgument

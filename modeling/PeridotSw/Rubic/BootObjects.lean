import PeridotSw.Rubic.BootBuffer
import PeridotSw.Rubic.BootScan

/-!
# Boot files that are flat objects

What a flat object names, and what `parse_boot_json` finds in it.  Its two tests behind a
member both pass a byte, so that no member is read behind the first one.
-/

namespace PeridotSw.Rubic.BootObjects

open PeridotSw.Machine.Memory
open PeridotSw.Machine.Checked
open PeridotSw.Rubic.Agent (keyRuntime keyFile)
open PeridotSw.Rubic.Info (Storage)
open PeridotSw.Rubic.BootBuffer
open PeridotSw.Rubic.BootJson
open PeridotSw.Rubic.BootScan

/-! ## Objects -/

structure Spaces where
  bytes : List UInt8
  blank : Blank bytes

/-- A key or a string value, without quotes and backslashes. -/
structure Plain where
  text : CString
  plain : ∀ byte ∈ text.bytes, byte ≠ quote ∧ byte ≠ backslash

def numeral : List UInt8 :=
  [0x2b, 0x2d, 0x2e, 0x30, 0x31, 0x32, 0x33, 0x34, 0x35, 0x36, 0x37, 0x38, 0x39, 0x45, 0x65]

structure Numeral where
  first : UInt8
  more : List UInt8
  proper : ∀ byte ∈ first :: more, byte ∈ numeral

inductive Datum where
  | string (text : Plain)
  | number (digits : Numeral)

def Datum.bytes : Datum → List UInt8
  | .string text => quote :: (text.text.bytes ++ [quote])
  | .number digits => digits.first :: digits.more

structure Field where
  before : Spaces
  key : Plain
  behind : Spaces
  after : Spaces
  datum : Datum
  trail : Spaces

def Field.bytes (field : Field) : List UInt8 :=
  field.before.bytes ++ quote :: (field.key.text.bytes ++ quote ::
    (field.behind.bytes ++ colon ::
      (field.after.bytes ++ (field.datum.bytes ++ field.trail.bytes))))

/-- An object with at least one member. -/
structure Object where
  lead : Spaces
  first : Field
  more : List Field
  trail : Spaces

def Object.fields (object : Object) : List Field := object.first :: object.more

def Object.bytes (object : Object) : List UInt8 :=
  object.lead.bytes ++ braceOpen :: (object.first.bytes ++
    (object.more.flatMap (comma :: ·.bytes) ++ braceClose :: object.trail.bytes))

/-! ## What an object names -/

/-- The string a member gives for a key. -/
def Field.stringFor (key : CString) (field : Field) : Option CString :=
  match field.datum with
  | .string text => if field.key.text = key then some text.text else none
  | .number _ => none

def lastString (key : CString) (fields : List Field) : Option CString :=
  (fields.filterMap (·.stringFor key)).getLast?

def namedRuntime (runtimes : List CString) (fields : List Field) : Option CString :=
  match lastString keyRuntime fields with
  | some name => runtimes.find? (· = name)
  | none => runtimes.head?

def fullPath (storage : Storage) (file : CString) : List UInt8 :=
  if file.bytes.head? = some slash then file.bytes
  else storage.path.bytes ++ [slash] ++ file.bytes

def namedPath (storage : Storage) (fields : List Field) : Option (List UInt8) :=
  (lastString keyFile fields).map (fullPath storage)

/-! ## One member -/

variable {object : Object} {field : Field} {locals : Locals} {runtimes : List CString}
  {storage : Storage} {outside : Outside} {buffer rest : List UInt8} {byte : UInt8}

theorem Plain.quotable (text : Plain) : Quotable text.text.bytes := fun byte listed =>
  ⟨(text.plain byte listed).1, text.text.nulFree byte listed⟩

theorem body_of_plain {bytes : List UInt8}
    (plain : ∀ byte ∈ bytes, byte ≠ quote ∧ byte ≠ backslash)
    (nulFree : ∀ byte ∈ bytes, byte ≠ 0) : Body bytes := by
  induction bytes with
  | nil => exact .empty
  | cons byte bytes ih =>
      obtain ⟨here, plain⟩ := List.forall_mem_cons.mp plain
      obtain ⟨proper, nulFree⟩ := List.forall_mem_cons.mp nulFree
      refine .plain ?_ proper (ih plain nulFree)
      simp [here.1, here.2]

theorem forall_of_all {bytes : List UInt8} {property : UInt8 → Prop} [DecidablePred property]
    (all : (bytes.all fun byte => decide (property byte)) = true) :
    ∀ byte ∈ bytes, property byte := fun byte listed =>
  of_decide_eq_true (List.all_eq_true.mp all byte listed)

theorem other_of_numeral (digits : Numeral) (trail : Spaces) :
    Other (digits.first :: (digits.more ++ trail.bytes)) := by
  have first : digits.first ∈ numeral := digits.proper _ (.head _)
  refine ⟨_, _, rfl, ?_, ?_, ?_⟩
  · intro same
    rw [same] at first
    exact absurd first (by decide)
  · intro space
    have apart : ∀ byte ∈ jsonSpaces, byte ∉ numeral := forall_of_all rfl
    exact apart _ space first
  · intro byte listed
    have apart : ∀ byte ∈ numeral ++ jsonSpaces, byte ∉ delimiters ∧ byte ≠ 0 :=
      forall_of_all rfl
    obtain listed | listed := List.mem_append.mp listed
    · exact apart byte (List.mem_append_left _ (digits.proper byte (.tail _ listed)))
    · exact apart byte (List.mem_append_right _ (trail.blank byte listed))

/-- What the variables hold behind a member: what it gives, or what they held before. -/
structure Taken (runtimes : List CString) (field : Field) (locals next : Locals) : Prop where
  runtime : next.runtime =
    match field.stringFor keyRuntime with
    | some name => runtimes.find? (· = name)
    | none => locals.runtime
  file : match field.stringFor keyFile with
    | some name => ∃ file rest, next.file = some file ∧
        next.buffer.drop file = name.bytes ++ 0 :: rest
    | none => next.file = locals.file

theorem stringFor_string {text : Plain} (given : field.datum = .string text) (key : CString) :
    field.stringFor key = if field.key.text = key then some text.text else none := by
  rw [Field.stringFor, given]

theorem stringFor_number {digits : Numeral} (given : field.datum = .number digits)
    (key : CString) : field.stringFor key = none := by
  rw [Field.stringFor, given]

/-- The use of a string member. -/
theorem assign_taken {text : Plain} (given : field.datum = .string text) {key val : Nat}
    {keyText valText keyRest valRest : List UInt8} (keyed : Ahead buffer key keyText)
    (valued : Ahead buffer val valText)
    (keyHeld : buffer.drop key = field.key.text.bytes ++ 0 :: keyRest)
    (valHeld : buffer.drop val = text.text.bytes ++ 0 :: valRest)
    (here : locals.buffer = buffer) :
    ∃ next, assign runtimes locals key val = .ok next ∧ next.buffer = buffer ∧
      next.input = locals.input ∧ Taken runtimes field locals next := by
  subst here
  rw [assign, strcmp_string keyed keyRuntime keyHeld, ok_bind,
    strcmp_string keyed keyFile keyHeld, findRuntime_string valued valHeld]
  by_cases isRuntime : keyRuntime = field.key.text
  · rw [if_pos (decide_eq_true isRuntime)]
    refine ⟨_, rfl, rfl, rfl, ?_, ?_⟩
    · rw [stringFor_string given, if_pos isRuntime.symm]
    · rw [stringFor_string given, if_neg (by rw [← isRuntime]; decide)]
  rw [if_neg (fun same => isRuntime (of_decide_eq_true same)), ok_bind]
  by_cases isFile : keyFile = field.key.text
  · rw [if_pos (decide_eq_true isFile)]
    refine ⟨_, rfl, rfl, rfl, ?_, ?_⟩
    · rw [stringFor_string given, if_neg (Ne.symm isRuntime)]
    · rw [stringFor_string given, if_pos isFile.symm]
      exact ⟨val, valRest, rfl, valHeld⟩
  · rw [if_neg (fun same => isFile (of_decide_eq_true same))]
    refine ⟨_, rfl, rfl, rfl, ?_, ?_⟩
    · rw [stringFor_string given, if_neg (Ne.symm isRuntime)]
    · rw [stringFor_string given, if_neg (Ne.symm isFile)]

/-- What lies behind the colon of a member. -/
def Field.tail (field : Field) : List UInt8 :=
  field.after.bytes ++ (field.datum.bytes ++ field.trail.bytes)

/-- The key of a member in the buffer, once it is terminated, with the colon. -/
def Field.head (field : Field) : List UInt8 :=
  field.key.text.bytes ++ 0 :: (field.behind.bytes ++ [colon])

theorem field_key (ahead : Ahead locals.buffer locals.input (field.bytes ++ rest)) :
    ∃ keyed key, readKey locals = .ok (keyed, key) ∧ keyed.runtime = locals.runtime ∧
      keyed.file = locals.file ∧ keyed.input = key + field.head.length ∧
      Ahead keyed.buffer key (field.head ++ (field.tail ++ rest)) := by
  have spelled : field.bytes ++ rest =
      field.before.bytes ++ quote :: (field.key.text.bytes ++ quote ::
        (field.behind.bytes ++ colon :: (field.tail ++ rest))) := by
    simp only [Field.bytes, Field.tail, List.append_assoc, List.cons_append]
  obtain ⟨stored, read, held⟩ := readKey_found field.before.blank field.key.quotable
    field.behind.blank (spelled ▸ ahead)
  refine ⟨_, _, read, rfl, rfl, ?_, ?_⟩
  · simp only [Field.head, List.length_append, List.length_cons, List.length_nil]
    omega
  · simpa only [Field.head, List.append_assoc, List.cons_append, List.nil_append] using held

theorem field_read (visible : byte ∉ jsonSpaces) (delimits : byte ∈ delimiters)
    (ahead : Ahead locals.buffer locals.input (field.bytes ++ byte :: rest)) :
    ∃ next, readMember runtimes locals = .ok next ∧
      Ahead next.buffer next.input (byte :: rest) ∧ Taken runtimes field locals next := by
  obtain ⟨keyed, key, read, sameRuntime, sameFile, place, held⟩ := field_key ahead
  rw [readMember_eq read]
  cases given : field.datum with
  | number digits =>
      have inside := held.skip
      rw [← place, Field.tail, given, Datum.bytes, List.append_assoc, List.append_assoc,
        List.cons_append, ← List.append_assoc digits.more, ← List.cons_append] at inside
      refine ⟨_, readValue_other field.after.blank (other_of_numeral digits field.trail) delimits
        inside key, inside.skip.skip, ?_, ?_⟩
      · rw [stringFor_number given]
        exact sameRuntime
      · rw [stringFor_number given]
        exact sameFile
  | string text =>
      have spelled : field.tail ++ byte :: rest = field.after.bytes ++ quote ::
          (text.text.bytes ++ quote :: (field.trail.bytes ++ byte :: rest)) := by
        simp only [Field.tail, given, Datum.bytes, List.append_assoc, List.cons_append,
          List.nil_append]
      rw [spelled] at held
      obtain ⟨stored, value, held⟩ := @readValue_string _ _ _ _ keyed runtimes field.head key
        field.after.blank (body_of_plain text.plain text.text.nulFree) field.trail.blank
        (flush_cons visible) place held key
      have valued := held.skip.skip.next
      rw [← place] at valued
      have keyHeld : ∃ rest, stored.drop key = field.key.text.bytes ++ 0 :: rest := by
        rw [held, Field.head, List.append_assoc, List.append_assoc, List.cons_append]
        exact ⟨_, rfl⟩
      have valHeld : ∃ rest, stored.drop (keyed.input + field.after.bytes.length + 1) =
          text.text.bytes ++ 0 :: rest := by
        rw [valued, List.append_assoc, List.cons_append]
        exact ⟨_, rfl⟩
      obtain ⟨keyRest, keyHeld⟩ := keyHeld
      obtain ⟨valRest, valHeld⟩ := valHeld
      obtain ⟨next, assigned, sameBuffer, sameInput, taken⟩ :=
        @assign_taken field _ runtimes stored text given _ _ _ _ _ _ held valued keyHeld valHeld
          (rfl : Locals.buffer { keyed with buffer := stored, input := _ } = stored)
      rw [value]
      refine ⟨next, assigned, ?_, ?_, ?_⟩
      · rw [sameBuffer, sameInput]
        exact valued.skip.next.skip
      · rw [taken.runtime, ← sameRuntime]
      · rw [← sameFile]
        exact taken.file

/-! ## The whole object -/

/-- What is returned for a file, if there is memory for it. -/
def granted (outside : Outside) (path : List UInt8) : Option (List UInt8) :=
  if outside.malloc (path.length + 1) then some path else none

theorem bootPath_string {file : Nat} {name : CString}
    (held : buffer.drop file = name.bytes ++ 0 :: rest) :
    bootPath outside storage buffer file = .ok (granted outside (fullPath storage name)) := by
  have first : byteAt buffer file = .ok (name.bytes.head?.getD 0) := by
    rw [byteAt, ← List.head?_drop, held]
    cases name.bytes <;> rfl
  rw [bootPath, first, ok_bind, Ahead.stringAt_found held name.nulFree, ok_bind]
  by_cases absolute : name.bytes.head? = some slash
  · rw [fullPath, if_pos absolute, absolute]
    rfl
  · have relative : ¬ name.bytes.head?.getD 0 = slash := by
      intro same
      cases head : name.bytes.head? with
      | none =>
          rw [head] at same
          exact absurd same (by decide)
      | some byte =>
          rw [head] at same absolute
          exact absolute (congrArg some same)
    have size : (storage.path.bytes ++ [slash] ++ name.bytes).length + 1 =
        storage.path.bytes.length + 1 + name.bytes.length + 1 := by
      rw [List.length_append, List.length_append, List.length_singleton]
    rw [if_neg relative, fullPath, if_neg absolute, granted, size]
    rfl

theorem lastString_single (key : CString) (field : Field) :
    lastString key [field] = field.stringFor key := by
  rw [lastString]
  cases given : field.stringFor key with
  | none => rw [List.filterMap_cons_none given]; rfl
  | some name => rw [List.filterMap_cons_some given]; rfl

theorem behind_first (object : Object) :
    ∃ byte rest, object.more.flatMap (comma :: ·.bytes) ++ braceClose :: object.trail.bytes =
        byte :: rest ∧
      (object.more = [] ∧ byte = braceClose ∨
        object.more ≠ [] ∧ byte = comma ∧ ∀ tail, (rest ++ tail).head?.getD 0 ≠ comma) := by
  cases object.more with
  | nil => exact ⟨_, _, rfl, .inl ⟨rfl, rfl⟩⟩
  | cons field more =>
      refine ⟨_, _, rfl, .inr ⟨List.cons_ne_nil _ _, rfl, fun tail => ?_⟩⟩
      rw [Field.bytes]
      cases spaces : field.before.bytes with
      | nil => exact (by decide : quote ≠ comma)
      | cons space others =>
          have blank : space ∈ jsonSpaces := field.before.blank space (by rw [spaces]; exact .head _)
          rintro same
          have comma : space = comma := same
          rw [comma] at blank
          exact absurd blank (by decide)

/-- The first member is read; behind it the object ends, or the text is rejected. -/
theorem first_read {input turns : Nat} {tail : List UInt8}
    (ahead : Ahead buffer input (object.first.bytes ++
      (object.more.flatMap (comma :: ·.bytes) ++ braceClose :: object.trail.bytes ++ tail))) :
    ∃ next, readMembers runtimes (turns + 1) ⟨buffer, input, runtimes.head?, none⟩ =
        .ok (next, object.more.isEmpty) ∧
      Taken runtimes object.first ⟨buffer, input, runtimes.head?, none⟩ next := by
  obtain ⟨byte, rest, spelled, kind⟩ := behind_first object
  rw [spelled, List.cons_append] at ahead
  obtain ⟨single, rfl⟩ | ⟨more, rfl, other⟩ := kind
  · obtain ⟨next, read, inside, taken⟩ :=
      @field_read object.first ⟨buffer, input, runtimes.head?, none⟩ runtimes _ braceClose
        (by decide) (by decide) ahead
    refine ⟨next, ?_, taken⟩
    rw [readMembers, read, single]
    simp only [separator_close inside, List.isEmpty_nil]
  · obtain ⟨next, read, inside, taken⟩ :=
      @field_read object.first ⟨buffer, input, runtimes.head?, none⟩ runtimes _ comma
        (by decide) (by decide) ahead
    refine ⟨next, ?_, taken⟩
    rw [readMembers, read, List.isEmpty_eq_false_iff.mpr more]
    simp only [separator_other (by decide : comma ≠ braceClose) inside (other tail)]

theorem namedRuntime_first {locals next : Locals} (start : locals.runtime = runtimes.head?)
    (taken : Taken runtimes field locals next) :
    next.runtime = namedRuntime runtimes [field] := by
  rw [taken.runtime, namedRuntime, lastString_single, start]

/-- What `parse_boot_json` makes of an object. -/
theorem parse_object {leftover : List UInt8}
    (ahead : Ahead buffer 0 (object.bytes ++ leftover)) :
    parse outside runtimes storage buffer =
      .ok ⟨if object.more = [] then (namedPath storage object.fields).bind (granted outside)
        else none, namedRuntime runtimes [object.first]⟩ := by
  rw [Object.bytes, List.append_assoc, List.cons_append, List.append_assoc] at ahead
  have skipped := strskip_blank ahead object.lead.blank (flush_cons (by decide))
  obtain ⟨turns, size⟩ := Nat.exists_eq_add_of_lt (Nat.lt_of_lt_of_eq (Nat.succ_pos _) ahead.size)
  rw [Nat.zero_add] at size
  obtain ⟨next, read, taken⟩ := @first_read object runtimes buffer _ turns _ ahead.skip.next
  rw [parse, skipped, ok_bind, expect_here ahead.skip, size]
  simp only [read, ok_bind]
  rw [← namedRuntime_first rfl taken]
  by_cases single : object.more = []
  · have given := taken.file
    rw [if_pos single, namedPath, Object.fields, single, lastString_single]
    cases named : object.first.stringFor keyFile with
    | none =>
        rw [named] at given
        simp only [given, List.isEmpty_nil]
        rfl
    | some name =>
        rw [named] at given
        obtain ⟨file, rest, same, held⟩ := given
        simp only [same, List.isEmpty_nil, bootPath_string held, ok_bind]
        rfl
  · rw [if_neg single, List.isEmpty_eq_false_iff.mpr single]
    rfl

theorem bind_granted_iff {named : Option (List UInt8)} :
    named.bind (granted outside) = named ↔
      ∀ path ∈ named, outside.malloc (path.length + 1) = true := by
  cases named with
  | none => exact iff_of_true rfl nofun
  | some path =>
      rw [Option.bind_some, granted]
      cases memory : outside.malloc (path.length + 1) with
      | true => exact iff_of_true rfl fun other same => Option.some.inj same ▸ memory
      | false =>
          refine iff_of_false nofun fun all => ?_
          rw [all path rfl] at memory
          cases memory

/-- The path and the runtime an object names are found exactly when the path of the storage
leaves room for the name of the file, there is memory for the path, and the object has one
member only, or the others change nothing. -/
theorem boot_object_iff {outside : Outside} {runtimes : List CString}
    {storages : List (Option Storage)} {stack : Vector UInt8 256} {storage : Storage}
    {file : Delivery} {object : Object} (found : findInternal storages = some storage)
    (opened : outside.openFile (storage.path.bytes ++ bootName) = some file)
    (whole : file.failed = false) (content : file.content = object.bytes)
    (short : object.bytes.length ≤ 255) :
    parseBootJson outside runtimes storages stack =
        .ok ⟨namedPath storage object.fields, namedRuntime runtimes object.fields⟩ ↔
      storage.path.bytes.length ≤ 245 ∧
        (∀ path ∈ namedPath storage object.fields, outside.malloc (path.length + 1) = true) ∧
        (object.more = [] ∨ lastString keyFile object.fields = none ∧
          namedRuntime runtimes object.fields = namedRuntime runtimes [object.first]) := by
  by_cases fits : storage.path.bytes.length ≤ 245
  case neg =>
    rw [parseBootJson_long found (by omega)]
    exact iff_of_false (by rintro ⟨⟩) fun both => fits both.1
  case pos =>
    have text : bootText storage.path.bytes object.bytes ++ [0] =
        (object.bytes ++ (nameText storage.path.bytes).drop object.bytes.length) ++ [0] := by
      rw [bootText, @List.take_of_length_le _ room _ short, overlay]
    have parsed := @parse_object object runtimes storage outside _
      ((nameText storage.path.bytes).drop object.bytes.length) (List.drop_zero.trans text)
    rw [parseBootJson_short found fits, opened]
    simp only [whole, content, parsed, Bool.false_eq_true, false_and, if_false,
      Except.ok.injEq, Outcome.mk.injEq]
    by_cases single : object.more = []
    · have only : object.fields = [object.first] := by rw [Object.fields, single]
      rw [if_pos single, bind_granted_iff, only]
      exact ⟨fun both => ⟨fits, both.1, .inl single⟩, fun all => ⟨all.2.1, rfl⟩⟩
    · rw [if_neg single]
      constructor
      · rintro ⟨noPath, sameRuntime⟩
        have none : lastString keyFile object.fields = none :=
          Option.map_eq_none_iff.mp noPath.symm
        exact ⟨fits, by simp [← noPath], .inr ⟨none, sameRuntime.symm⟩⟩
      · rintro ⟨-, -, several | ⟨none, sameRuntime⟩⟩
        · exact absurd several single
        · exact ⟨by rw [namedPath, none]; rfl, sameRuntime.symm⟩

/-! ## One member and two -/

def mnt : Storage := ⟨nameInternal, .of [slash, 0x6d, 0x6e, 0x74] (Eq.refl true)⟩

def noSpaces : Spaces := ⟨[], nofun⟩

def plainFile : Plain := ⟨keyFile, forall_of_all rfl⟩

def plainA : Plain := ⟨.of [0x61] rfl, forall_of_all rfl⟩

def stringField (key value : Plain) : Field :=
  ⟨noSpaces, key, noSpaces, noSpaces, .string value, noSpaces⟩

def oneMember : Object := ⟨noSpaces, stringField plainFile plainA, [], noSpaces⟩

def twoMembers : Object :=
  ⟨noSpaces, stringField plainA plainA, [stringField plainFile plainA], noSpaces⟩

def fileOf (object : Object) : Delivery where
  parts := [object.bytes]
  failed := false
  proper := List.forall_mem_singleton.mpr
    (List.append_ne_nil_of_right_ne_nil _ (List.cons_ne_nil _ _))

theorem boot_object_iff_oneMember :
    parseBootJson ⟨fun _ => some (fileOf oneMember), fun _ => true⟩ [] [some mnt]
      (Vector.replicate 256 0) = .ok ⟨some [slash, 0x6d, 0x6e, 0x74, slash, 0x61], none⟩ :=
  (@boot_object_iff ⟨fun _ => some (fileOf oneMember), fun _ => true⟩ [] [some mnt]
    (Vector.replicate 256 0) mnt (fileOf oneMember) oneMember rfl rfl rfl (List.append_nil _)
    (by decide)).mpr ⟨by decide, fun _ _ => rfl, .inl rfl⟩

theorem not_boot_object_twoMembers :
    parseBootJson ⟨fun _ => some (fileOf twoMembers), fun _ => true⟩ [] [some mnt]
        (Vector.replicate 256 0) ≠
      .ok ⟨namedPath mnt twoMembers.fields, namedRuntime [] twoMembers.fields⟩ := by
  decide +kernel

end PeridotSw.Rubic.BootObjects

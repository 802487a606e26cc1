import PeridotSw.Rubic.BootBuffer
import PeridotSw.Rubic.BootScan

/-!
# The bounds of the boot file's buffer

Three texts lead the scanner over the end of its buffer: one that ends where a value should
begin, one whose last byte is a backslash in a string value, and one that ends behind a
string value.  In front of these there may be any number of members, each followed by two
bytes of which the second is a comma.
-/

namespace PeridotSw.Rubic.BootBounds

open PeridotSw.Machine.Memory
open PeridotSw.Machine.Checked
open PeridotSw.Rubic.Info (Storage)
open PeridotSw.Rubic.BootBuffer
open PeridotSw.Rubic.BootJson
open PeridotSw.Rubic.BootScan

variable {text rest tail opening blank body behind bytes : List UInt8} {byte : UInt8}
  {locals : Locals} {runtimes : List CString}

/-! ## The texts -/

def Opens (opening : List UInt8) : Prop :=
  ∃ before key behind, Blank before ∧ Quotable key ∧ Blank behind ∧
    opening = before ++ quote :: (key ++ quote :: (behind ++ [colon]))

/-- A member, and the first byte behind it. -/
inductive Member : List UInt8 → UInt8 → Prop where
  | string {opening blank body behind : List UInt8} {byte : UInt8} : Opens opening →
      Blank blank → Body body → Blank behind → byte ∉ jsonSpaces →
      Member (opening ++ (blank ++ quote :: (body ++ quote :: behind))) byte
  | other {opening blank value : List UInt8} {byte : UInt8} : Opens opening → Blank blank →
      Other value → byte ∈ delimiters → Member (opening ++ (blank ++ value)) byte

/-- The texts behind an opening brace, or a comma, that lead over the end of the buffer. -/
inductive Overruns : List UInt8 → Prop where
  | value {opening blank : List UInt8} : Opens opening → Blank blank →
      Overruns (opening ++ blank)
  | escape {opening blank body : List UInt8} : Opens opening → Blank blank → Body body →
      Overruns (opening ++ (blank ++ quote :: (body ++ [backslash])))
  | close {opening blank body behind : List UInt8} : Opens opening → Blank blank →
      Body body → Blank behind →
      Overruns (opening ++ (blank ++ quote :: (body ++ quote :: behind)))
  | next {bytes rest : List UInt8} {byte : UInt8} : Member bytes byte → byte ≠ braceClose →
      Overruns rest → Overruns (bytes ++ byte :: comma :: rest)

/-- The texts of a buffer that lead over its end. -/
def Overflows (text : List UInt8) : Prop :=
  ∃ blank rest, text = blank ++ braceOpen :: rest ∧ Blank blank ∧ Overruns rest

/-! ## One member -/

theorem opens_read (opens : Opens opening)
    (ahead : Ahead locals.buffer locals.input (opening ++ tail)) :
    ∃ keyed key, readKey locals = .ok (keyed, key) ∧ keyed.file = locals.file ∧
      keyed.input = locals.input + opening.length ∧ Ahead keyed.buffer keyed.input tail ∧
      key ≤ keyed.input := by
  obtain ⟨before, key, gap, spaces, quotable, blank, rfl⟩ := opens
  have spelled : (before ++ quote :: (key ++ quote :: (gap ++ [colon]))) ++ tail =
      before ++ quote :: (key ++ quote :: (gap ++ colon :: tail)) := by
    simp only [List.append_assoc, List.cons_append, List.nil_append]
  obtain ⟨stored, read, held⟩ := readKey_found spaces quotable blank (spelled ▸ ahead)
  refine ⟨_, _, read, rfl, ?_, held.skip.next.skip.next, ?_⟩
  · simp only [List.length_append, List.length_cons, List.length_nil]
    omega
  · show _ ≤ locals.input + before.length + 1 + key.length + 1 + gap.length + 1
    omega

/-- A string value behind an opening, up to what is not a space. -/
theorem string_read (opens : Opens opening) (spaces : Blank blank) (proper : Body body)
    (gap : Blank behind) (flush : Flush rest)
    (ahead : Ahead locals.buffer locals.input
      ((opening ++ (blank ++ quote :: (body ++ quote :: behind))) ++ rest))
    (files : ∀ file ∈ locals.file, file ≤ locals.input) :
    ∃ next, readMember runtimes locals = .ok next ∧ Ahead next.buffer next.input rest ∧
      ∀ file ∈ next.file, file ≤ next.input := by
  have spelled : (opening ++ (blank ++ quote :: (body ++ quote :: behind))) ++ rest =
      opening ++ (blank ++ quote :: (body ++ quote :: (behind ++ rest))) := by
    simp only [List.append_assoc, List.cons_append]
  obtain ⟨keyed, key, read, kept, place, inside, low⟩ := opens_read opens (spelled ▸ ahead)
  obtain ⟨stored, value, held⟩ := @readValue_string _ _ _ _ keyed runtimes [] keyed.input spaces
    proper gap flush rfl inside key
  rw [List.nil_append] at held
  have valued := held.skip.next
  have size := held.size
  have behindAt := valued.skip.next.skip
  obtain ⟨_, keyAhead⟩ := held.anywhere (by omega : key < stored.length)
  obtain ⟨next, assigned, sameBuffer, sameInput, sameFile⟩ :=
    @assign_returns _ _ _ { keyed with
      buffer := stored
      input := keyed.input + blank.length + 1 + body.length + 1 + behind.length } runtimes
      (keyed.input + blank.length + 1) keyAhead valued
  refine ⟨next, ?_, ?_, ?_⟩
  · rw [readMember_eq read, value, assigned]
  · rw [sameBuffer, sameInput]
    exact behindAt
  · intro file listed
    rw [sameInput]
    obtain same | same := sameFile
    · rw [same, kept] at listed
      have := files file listed
      simp only
      omega
    · rw [same] at listed
      cases listed
      simp only
      omega

theorem member_read (member : Member bytes byte)
    (ahead : Ahead locals.buffer locals.input (bytes ++ byte :: rest))
    (files : ∀ file ∈ locals.file, file ≤ locals.input) :
    ∃ next, readMember runtimes locals = .ok next ∧
      Ahead next.buffer next.input (byte :: rest) ∧
      ∀ file ∈ next.file, file ≤ next.input := by
  cases member with
  | string opens spaces proper gap visible =>
      exact string_read opens spaces proper gap (flush_cons visible) ahead files
  | other opens spaces other delimits =>
      rw [List.append_assoc] at ahead
      obtain ⟨keyed, key, read, kept, place, inside, -⟩ := opens_read opens ahead
      rw [List.append_assoc] at inside
      refine ⟨_, by rw [readMember_eq read, readValue_other spaces other delimits inside],
        inside.skip.skip, ?_⟩
      intro file listed
      have := files file (kept ▸ listed)
      simp only
      omega

/-- What a text may be for the code that reads a member. -/
theorem readMember_cases (ahead : Ahead locals.buffer locals.input text) :
    readMember runtimes locals = .error .rejected ∨ Overruns text ∨
      ∃ bytes byte rest, Member bytes byte ∧ text = bytes ++ byte :: rest := by
  obtain failed | ⟨before, key, gap, tail, spaces, quotable, blank, rfl⟩ := readKey_cases ahead
  · left
    rw [readMember, failed]
    rfl
  have opens : Opens (before ++ quote :: (key ++ quote :: (gap ++ [colon]))) :=
    ⟨before, key, gap, spaces, quotable, blank, rfl⟩
  have spelled : before ++ quote :: (key ++ quote :: (gap ++ colon :: tail)) =
      (before ++ quote :: (key ++ quote :: (gap ++ [colon]))) ++ tail := by
    simp only [List.append_assoc, List.cons_append, List.nil_append]
  rw [spelled] at ahead ⊢
  generalize before ++ quote :: (key ++ quote :: (gap ++ [colon])) = opening at opens ahead ⊢
  obtain ⟨keyed, key, read, -, -, inside, -⟩ := opens_read opens ahead
  obtain ⟨blank, value, rfl, spaces, flush⟩ := blank_split tail
  have skipped := strskip_blank inside spaces flush
  cases value with
  | nil =>
      right
      left
      rw [List.append_nil]
      exact .value opens spaces
  | cons first inner =>
      have start := inside.skip
      have size := start.size
      rw [List.length_cons] at size
      by_cases quoted : first = quote
      · subst quoted
        obtain failed | ⟨body, closed, proper, rfl⟩ | ⟨body, proper, rfl⟩ :=
          closeString_cases start.next (by omega : inner.length < keyed.buffer.length)
        · left
          rw [readMember_eq read, readValue, skipped, ok_bind, start.byteAt_cons, ok_bind,
            if_pos rfl, failed]
          rfl
        · right
          obtain ⟨gap, rest, rfl, gaps, visible⟩ := blank_split closed
          cases rest with
          | nil =>
              left
              rw [List.append_nil]
              exact .close opens spaces proper gaps
          | cons byte rest =>
              right
              refine ⟨_, byte, rest, .string opens spaces proper gaps (visible byte rfl), ?_⟩
              simp only [List.append_assoc, List.cons_append]
        · exact .inr (.inl (.escape opens spaces proper))
      · obtain ⟨missing, -⟩ | ⟨middle, byte, rest, rfl, delimits, free, -⟩ :=
          start.next.strpbrk_cases (by decide : (0 : UInt8) ∉ delimiters)
        · left
          rw [readMember_eq read, readValue, skipped, ok_bind, start.byteAt_cons, ok_bind,
            if_neg quoted, missing]
          rfl
        · have other : Other (first :: middle) :=
            ⟨first, middle, rfl, quoted, flush first rfl, free⟩
          refine .inr (.inr ⟨_, byte, rest, .other opens spaces other delimits, ?_⟩)
          simp only [List.append_assoc, List.cons_append]

/-! ## All members -/

theorem readMembers_outside {index turns : Nat}
    (outside : readMember runtimes locals = .error (.outside index)) :
    ∃ index, readMembers runtimes (turns + 1) locals = .error (.outside index) :=
  ⟨index, by rw [readMembers, outside]⟩

/-- A text of the list leads over the end. -/
theorem readMembers_overruns (overruns : Overruns text) {turns : Nat}
    (enough : text.length < turns) (ahead : Ahead locals.buffer locals.input text)
    (files : ∀ file ∈ locals.file, file ≤ locals.input) :
    ∃ index, readMembers runtimes turns locals = .error (.outside index) := by
  induction overruns generalizing locals turns with
  | @value opening blank opens spaces =>
      obtain ⟨turns, rfl⟩ := Nat.exists_eq_add_of_lt enough
      obtain ⟨keyed, key, read, -, -, inside, -⟩ := opens_read opens ahead
      have last := inside.last
      rw [← List.append_nil blank] at inside
      have skipped := strskip_blank inside spaces flush_nil
      refine @readMembers_outside _ _ keyed.buffer.length _ ?_
      rw [readMember_eq read, readValue, skipped, ok_bind, last.byteAt_nil, ok_bind,
        if_neg (by decide), strpbrk_past last]
      rfl
  | @escape opening blank body opens spaces proper =>
      obtain ⟨turns, rfl⟩ := Nat.exists_eq_add_of_lt enough
      obtain ⟨keyed, key, read, -, -, inside, -⟩ := opens_read opens ahead
      have skipped := strskip_blank inside spaces (flush_cons (by decide))
      have start := inside.skip.next
      have size := start.size
      rw [List.length_append, List.length_singleton] at size
      have past := @closeString_past _ _ _ proper keyed.buffer.length (by omega) start
      refine @readMembers_outside _ _ keyed.buffer.length _ ?_
      rw [readMember_eq read, readValue, skipped, ok_bind, inside.skip.byteAt_cons, ok_bind,
        if_pos rfl, past]
      rfl
  | @close opening blank body behind opens spaces proper gap =>
      obtain ⟨turns, rfl⟩ := Nat.exists_eq_add_of_lt enough
      rw [← List.append_nil (opening ++ _)] at ahead
      obtain ⟨next, read, inside, -⟩ := string_read opens spaces proper gap flush_nil ahead files
      refine ⟨next.buffer.length, ?_⟩
      rw [readMembers, read]
      simp only [separator_past inside]
  | @next bytes rest byte member other _ ih =>
      cases turns with
      | zero => cases enough
      | succ turns =>
          obtain ⟨next, read, inside, kept⟩ := member_read member ahead files
          have kept' : ∀ file ∈ next.file, file ≤ next.input + 2 := fun file listed =>
            Nat.le_add_right_of_le (kept file listed)
          have fewer : rest.length < turns := by
            simp only [List.length_append, List.length_cons] at enough
            omega
          rw [readMembers, read]
          simp only [separator_next other inside]
          exact @ih { next with input := next.input + 2 } turns fewer inside.next.next kept'

/-- The loop over the members returns, or the text is one of the list. -/
theorem readMembers_cases {turns : Nat} (enough : text.length < turns)
    (ahead : Ahead locals.buffer locals.input text)
    (files : ∀ file ∈ locals.file, file ≤ locals.input) :
    Overruns text ∨ ∃ last closed, readMembers runtimes turns locals = .ok (last, closed) ∧
      ∀ file ∈ last.file, ∃ rest, Ahead last.buffer file rest := by
  induction turns generalizing text locals with
  | zero => cases enough
  | succ turns ih =>
      have pointed {last : Locals} {rest : List UInt8} (ahead : Ahead last.buffer last.input rest)
          (files : ∀ file ∈ last.file, file ≤ last.input) :
          ∀ file ∈ last.file, ∃ rest, Ahead last.buffer file rest := fun file listed => by
        have size := ahead.size
        have low := files file listed
        exact ahead.anywhere (by omega)
      obtain failed | overruns | ⟨bytes, byte, rest, member, rfl⟩ := readMember_cases ahead
      · exact .inr ⟨locals, false, by rw [readMembers, failed], pointed ahead files⟩
      · exact .inl overruns
      obtain ⟨next, read, inside, kept⟩ := member_read member ahead files
      by_cases closed : byte = braceClose
      · subst closed
        exact .inr ⟨next, true, by rw [readMembers, read]; simp only [separator_close inside],
          pointed inside kept⟩
      by_cases single : rest.head?.getD 0 = comma
      · cases rest with
        | nil => exact absurd single (by decide)
        | cons first rest =>
            obtain rfl : first = comma := single
            rw [readMembers, read]
            simp only [separator_next closed inside]
            have kept' : ∀ file ∈ next.file, file ≤ next.input + 2 := fun file listed =>
              Nat.le_add_right_of_le (kept file listed)
            have fewer : rest.length < turns := by
              simp only [List.length_append, List.length_cons] at enough
              omega
            obtain overruns | returned := @ih rest { next with input := next.input + 2 } fewer
              inside.next.next kept'
            · exact .inl (.next member closed overruns)
            · exact .inr returned
      · exact .inr ⟨next, false,
          by rw [readMembers, read]; simp only [separator_other closed inside single],
          pointed inside kept⟩

/-! ## The whole -/

variable {outside : Outside} {storage : Storage} {buffer : List UInt8}

theorem bootPath_returns {file : Nat} (ahead : Ahead buffer file text) :
    ∃ path, bootPath outside storage buffer file = .ok path := by
  obtain ⟨string, found⟩ := ahead.stringAt_returns
  rw [bootPath, ahead.byteAt_head, ok_bind, found, ok_bind]
  split
  · exact ⟨_, rfl⟩
  · exact ⟨_, rfl⟩

theorem parse_returns_iff (ahead : Ahead buffer 0 text) :
    (∃ outcome, parse outside runtimes storage buffer = .ok outcome) ↔ ¬ Overflows text := by
  have size := ahead.size
  constructor
  · rintro ⟨outcome, returned⟩ ⟨blank, rest, rfl, spaces, overruns⟩
    have skipped := strskip_blank ahead spaces (flush_cons (by decide))
    rw [List.length_append, List.length_cons] at size
    obtain ⟨index, beyond⟩ := @readMembers_overruns _
      ⟨buffer, 0 + blank.length + 1, runtimes.head?, none⟩ runtimes overruns buffer.length
      (by omega) ahead.skip.next nofun
    rw [parse, skipped, ok_bind, expect_here ahead.skip] at returned
    simp only [beyond, error_bind] at returned
    cases returned
  · intro bounded
    obtain ⟨blank, opened, rfl, spaces, flush⟩ := blank_split text
    have skipped := strskip_blank ahead spaces flush
    rw [parse, skipped, ok_bind]
    obtain failed | ⟨rest, rfl, found⟩ := expect_cases (by decide : braceOpen ≠ 0) ahead.skip
    · exact ⟨_, by rw [failed]⟩
    rw [found]
    rw [List.length_append, List.length_cons] at size
    obtain overruns | ⟨last, closed, returned, pointed⟩ := @readMembers_cases _
      ⟨buffer, 0 + blank.length + 1, runtimes.head?, none⟩ runtimes buffer.length
      (by omega : rest.length < buffer.length) ahead.skip.next nofun
    · exact absurd ⟨blank, rest, rfl, spaces, overruns⟩ bounded
    simp only [returned, ok_bind]
    cases closed with
    | false => exact ⟨_, rfl⟩
    | true =>
        cases named : last.file with
        | none => exact ⟨_, rfl⟩
        | some file =>
            obtain ⟨rest, pointed⟩ := pointed file named
            obtain ⟨path, made⟩ := @bootPath_returns _ outside storage _ _ pointed
            exact ⟨_, by simp only [made, ok_bind]; rfl⟩

/-- There is a boot file, it is read, and the text in the buffer leads over its end. -/
def Endangers (outside : Outside) (storages : List (Option Storage)) : Prop :=
  ∃ storage file, findInternal storages = some storage ∧
    outside.openFile (storage.path.bytes ++ bootName) = some file ∧ file.Whole ∧
    Overflows (bootText storage.path.bytes file.content)

theorem not_endangers_iff {storages : List (Option Storage)} {file : Delivery}
    (found : findInternal storages = some storage)
    (opened : outside.openFile (storage.path.bytes ++ bootName) = some file) :
    ¬ Endangers outside storages ↔
      (file.Whole → ¬ Overflows (bootText storage.path.bytes file.content)) := by
  constructor
  · exact fun safe whole overflows => safe ⟨storage, file, found, opened, whole, overflows⟩
  · rintro bounded ⟨other, next, same, opens, whole, overflows⟩
    rw [found] at same
    cases same
    rw [opened] at opens
    cases opens
    exact bounded whole overflows

theorem returns_iff {storages : List (Option Storage)} {stack : Vector UInt8 256}
    {file : Delivery} (found : findInternal storages = some storage)
    (short : storage.path.bytes.length ≤ 245)
    (opened : outside.openFile (storage.path.bytes ++ bootName) = some file) :
    (∃ outcome, parseBootJson outside runtimes storages stack = .ok outcome) ↔
      (file.Whole → ¬ Overflows (bootText storage.path.bytes file.content)) := by
  rw [parseBootJson_short found short, opened]
  simp only
  split
  case isTrue broken =>
    exact iff_of_true ⟨_, rfl⟩ fun whole => absurd (whole broken.1) (Nat.not_le.mpr broken.2)
  case isFalse read =>
    have whole : file.Whole := fun failed => Nat.not_lt.mp fun few => read ⟨failed, few⟩
    rw [parse_returns_iff List.drop_zero]
    exact ⟨fun bounded _ => bounded, fun bounded => bounded whole⟩

/-- The boot file is read inside the buffer exactly when its text does not lead over the
end. -/
theorem boot_confined_iff (outside : Outside) (runtimes : List CString)
    (storages : List (Option Storage)) (stack : Vector UInt8 256)
    (short : ∀ storage, findInternal storages = some storage →
      storage.path.bytes.length ≤ 245) :
    (∃ outcome, parseBootJson outside runtimes storages stack = .ok outcome) ↔
      ¬ Endangers outside storages := by
  cases found : findInternal storages with
  | none =>
      rw [parseBootJson, found]
      refine iff_of_true ⟨_, rfl⟩ ?_
      rintro ⟨storage, -, same, -⟩
      rw [found] at same
      cases same
  | some storage =>
      cases opened : outside.openFile (storage.path.bytes ++ bootName) with
      | none =>
          rw [parseBootJson_short found (short storage found), opened]
          refine iff_of_true ⟨_, rfl⟩ ?_
          rintro ⟨other, file, same, opens, -⟩
          rw [found] at same
          cases same
          rw [opened] at opens
          cases opens
      | some file =>
          rw [not_endangers_iff found opened, returns_iff found (short storage found) opened]

def mounted : List (Option Storage) :=
  [some ⟨nameInternal, .of [slash, 0x6d, 0x6e, 0x74] rfl⟩]

def started : Delivery where
  parts := [[braceOpen, quote, 0x66, 0x69, 0x6c, 0x65, quote, colon, quote, 0x61, quote,
    braceClose]]
  failed := false
  proper := List.forall_mem_singleton.mpr (List.cons_ne_nil _ _)

theorem boot_confined_iff_started :
    parseBootJson ⟨fun _ => some started, fun _ => true⟩ [] mounted (Vector.replicate 256 0) =
        .ok ⟨some [slash, 0x6d, 0x6e, 0x74, slash, 0x61], none⟩ ∧
      ¬ Endangers ⟨fun _ => some started, fun _ => true⟩ mounted := by
  have short : ∀ storage, findInternal mounted = some storage →
      storage.path.bytes.length ≤ 245 := by
    rintro storage ⟨⟩
    decide
  have ran : parseBootJson ⟨fun _ => some started, fun _ => true⟩ [] mounted
      (Vector.replicate 256 0) = .ok ⟨some [slash, 0x6d, 0x6e, 0x74, slash, 0x61], none⟩ := by
    decide +kernel
  exact ⟨ran, (boot_confined_iff _ _ _ _ short).mp ⟨_, ran⟩⟩

/-! ## A file that ends where a value should begin -/

def unfinished : Delivery where
  parts := [[braceOpen, quote, 0x61, quote, colon] ++ List.replicate 250 0x20]
  failed := false
  proper := List.forall_mem_singleton.mpr (List.cons_ne_nil _ _)

theorem not_boot_confined_unfinished :
    ¬ ∃ outcome, parseBootJson ⟨fun _ => some unfinished, fun _ => true⟩ [] mounted
      (Vector.replicate 256 0) = .ok outcome := by
  have whole : unfinished.content =
      braceOpen :: ([quote, 0x61, quote, colon] ++ List.replicate 250 0x20) :=
    List.append_nil _
  have content : bootText [slash, 0x6d, 0x6e, 0x74] unfinished.content =
      braceOpen :: ([quote, 0x61, quote, colon] ++ List.replicate 250 0x20) := by
    have size : unfinished.content.length = room := by
      rw [whole, List.length_cons, List.length_append, List.length_replicate]
      rfl
    rw [bootText, overlay, List.take_of_length_le (Nat.le_of_eq size), size,
      List.drop_eq_nil_of_le (Nat.le_of_eq (length_nameText (by decide))), List.append_nil, whole]
  have opens : Opens [quote, 0x61, quote, colon] :=
    ⟨[], [0x61], [], List.forall_mem_nil _, List.forall_mem_singleton.mpr (by decide),
      List.forall_mem_nil _, rfl⟩
  have spaces : Blank (List.replicate 250 0x20) := fun byte listed => by
    rw [List.eq_of_mem_replicate listed]
    decide
  rw [@returns_iff _ _ _ _ _ unfinished rfl (by decide) rfl]
  exact fun bounded => bounded (fun failed => absurd failed Bool.false_ne_true)
    ⟨[], _, content, List.forall_mem_nil _, .value opens spaces⟩

end PeridotSw.Rubic.BootBounds

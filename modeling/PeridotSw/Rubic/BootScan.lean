import Mathlib.Data.List.TakeWhile
import PeridotSw.Rubic.BootJson

/-!
# The parts of the boot file's scanner

What each part does with the bytes ahead of its pointer: spaces, a key, a string value, a
value of another kind.
-/

namespace PeridotSw.Rubic.BootScan

open PeridotSw.Machine.Memory
open PeridotSw.Machine.Checked
open PeridotSw.Rubic.Agent (keyRuntime keyFile)
open PeridotSw.Rubic.BootJson

variable {buffer text rest before key behind blank body : List UInt8} {index input : Nat}
  {byte : UInt8} {locals : Locals} {runtimes : List CString}

/-! ## Spaces -/

def Blank (bytes : List UInt8) : Prop := ∀ byte ∈ bytes, byte ∈ jsonSpaces

/-- A text that does not start with a space. -/
def Flush (rest : List UInt8) : Prop := ∀ byte ∈ rest.head?, byte ∉ jsonSpaces

theorem blank_split (text : List UInt8) :
    ∃ blank rest, text = blank ++ rest ∧ Blank blank ∧ Flush rest := by
  refine ⟨text.takeWhile (· ∈ jsonSpaces), text.dropWhile (· ∈ jsonSpaces),
    List.takeWhile_append_dropWhile.symm, ?_, ?_⟩
  · intro byte listed
    have taken := List.mem_takeWhile_imp listed
    simpa using taken
  · intro byte first
    have passed := List.head?_dropWhile_not (fun byte : UInt8 => decide (byte ∈ jsonSpaces)) text
    rw [Option.mem_def.mp first] at passed
    simpa using passed

theorem strskip_blank (ahead : Ahead buffer index (blank ++ rest)) (spaces : Blank blank)
    (flush : Flush rest) : strskip buffer index jsonSpaces = .ok (index + blank.length) := by
  have proper : (0 : UInt8) ∉ jsonSpaces := by decide
  cases blank with
  | nil =>
      have elsewhere : ∃ found, strpbrk buffer index jsonSpaces = .ok found ∧
          found ≠ some index := by
        obtain ⟨found, -⟩ | ⟨front, byte, behind, same, accepted, -, found⟩ :=
          ahead.strpbrk_cases proper
        · exact ⟨_, found, nofun⟩
        · refine ⟨_, found, fun equal => ?_⟩
          have none : front = [] := List.eq_nil_of_length_eq_zero (by
            have := Option.some.inj equal
            omega)
          rw [none, List.nil_append, List.nil_append] at same
          exact flush byte (by rw [same]; rfl) accepted
      obtain ⟨found, same, other⟩ := elsewhere
      rw [strskip, same, ok_bind, if_neg other]
      rfl
  | cons byte blank =>
      have first : strpbrk buffer index jsonSpaces = .ok (some index) :=
        @Ahead.strpbrk_found buffer [] index byte jsonSpaces (blank ++ rest) ahead
          (spaces byte (.head _)) (fun zero => proper (zero ▸ spaces byte (.head _))) nofun
      rw [strskip, first, ok_bind, if_pos rfl, ahead.strspn_found spaces proper flush]
      rfl

/-! ## Single bytes -/

theorem expect_here (ahead : Ahead buffer index (byte :: rest)) :
    expect buffer byte index = .ok (index + 1) := by
  rw [expect, ahead.byteAt_cons, ok_bind, if_pos rfl]
  rfl

theorem expect_other (ahead : Ahead buffer index text)
    (other : text.head?.getD 0 ≠ byte) : expect buffer byte index = .error .rejected := by
  rw [expect, ahead.byteAt_head, ok_bind, if_neg other]
  rfl

/-- A byte that is looked for is the first one or it is not there. -/
theorem expect_cases (proper : byte ≠ 0) (ahead : Ahead buffer index text) :
    expect buffer byte index = .error .rejected ∨
      ∃ rest, text = byte :: rest ∧ expect buffer byte index = .ok (index + 1) := by
  cases text with
  | nil => exact .inl (expect_other ahead (Ne.symm proper))
  | cons first rest =>
      by_cases same : first = byte
      · exact .inr ⟨rest, by rw [same], expect_here (same ▸ ahead)⟩
      · exact .inl (expect_other ahead same)

/-! ## Keys -/

def Quotable (bytes : List UInt8) : Prop := ∀ byte ∈ bytes, byte ≠ quote ∧ byte ≠ 0

theorem flush_nil : Flush [] := fun _ first => nomatch first

theorem flush_cons (visible : byte ∉ jsonSpaces) : Flush (byte :: rest) := by
  intro other first
  cases first
  exact visible

/-- A key in quotes with its colon is read, its closing quote being overwritten. -/
theorem readKey_found (spaces : Blank before) (quotable : Quotable key)
    (gap : Blank behind)
    (ahead : Ahead locals.buffer locals.input
      (before ++ quote :: (key ++ quote :: (behind ++ colon :: rest)))) :
    ∃ stored,
      readKey locals = .ok ({ locals with
        buffer := stored
        input := locals.input + before.length + 1 + key.length + 1 + behind.length + 1 },
        locals.input + before.length + 1) ∧
      Ahead stored (locals.input + before.length + 1)
        (key ++ 0 :: (behind ++ colon :: rest)) := by
  have skipped := strskip_blank ahead spaces (flush_cons (by decide))
  have inside := ahead.skip.next
  obtain ⟨stored, put, held⟩ := inside.put 0
  refine ⟨stored, ?_, held⟩
  have colonAt := strskip_blank held.skip.next gap (flush_cons (by decide))
  rw [readKey, skipped, ok_bind, expect_here ahead.skip, ok_bind, inside.strchr_found quotable,
    ok_bind, required, ok_bind, put, ok_bind, colonAt, ok_bind,
    expect_here held.skip.next.skip]
  rfl

/-- A text is read as a key in quotes with its colon, or it is rejected. -/
theorem readKey_cases (ahead : Ahead locals.buffer locals.input text) :
    readKey locals = .error .rejected ∨
      ∃ before key behind rest, Blank before ∧ Quotable key ∧ Blank behind ∧
        text = before ++ quote :: (key ++ quote :: (behind ++ colon :: rest)) := by
  obtain ⟨before, opened, rfl, spaces, flush⟩ := blank_split text
  have skipped := strskip_blank ahead spaces flush
  obtain failed | ⟨inner, rfl, found⟩ := expect_cases (by decide : quote ≠ 0) ahead.skip
  · left
    rw [readKey, skipped, ok_bind, failed]
    rfl
  have inside := ahead.skip.next
  obtain missing | ⟨key, closed, rfl, quotable, closing⟩ :=
    inside.strchr_cases (by decide : quote ≠ 0)
  · left
    rw [readKey, skipped, ok_bind, found, ok_bind, missing]
    rfl
  obtain ⟨behind, ended, rfl, gap, visible⟩ := blank_split closed
  obtain ⟨stored, put, held⟩ := inside.put 0
  have colonAt := strskip_blank held.skip.next gap visible
  obtain failed | ⟨rest, rfl, -⟩ := expect_cases (by decide : colon ≠ 0) held.skip.next.skip
  · left
    rw [readKey, skipped, ok_bind, found, ok_bind, closing, ok_bind, required, ok_bind, put,
      ok_bind, colonAt, ok_bind, failed]
    rfl
  · exact .inr ⟨before, key, behind, rest, spaces, quotable, gap, rfl⟩

/-! ## String values -/

/-- What may stand between two quotes of a string value; a backslash takes the next byte
with it. -/
inductive Body : List UInt8 → Prop where
  | empty : Body []
  | plain {byte : UInt8} {rest : List UInt8} : byte ∉ [backslash, quote] → byte ≠ 0 → Body rest →
      Body (byte :: rest)
  | escape {byte : UInt8} {rest : List UInt8} : Body rest → Body (backslash :: byte :: rest)

theorem closeString_plain (ahead : Ahead buffer index (byte :: rest))
    (other : byte ∉ [backslash, quote]) (proper : byte ≠ 0) (turns : Nat) :
    closeString buffer turns index = closeString buffer turns (index + 1) := by
  cases turns with
  | zero => rfl
  | succ turns => rw [closeString, closeString, ahead.strpbrk_step other proper]

theorem closeString_escape (ahead : Ahead buffer index (backslash :: rest)) (turns : Nat) :
    closeString buffer (turns + 1) index = closeString buffer turns (index + 2) := by
  have found := @Ahead.strpbrk_found buffer [] index backslash [backslash, quote] rest ahead
    (.head _) (by decide) nofun
  rw [List.length_nil, Nat.add_zero] at found
  rw [closeString, found, ok_bind, required, ok_bind, ahead.byteAt_cons, ok_bind,
    if_neg (by decide)]

theorem closeString_quote (ahead : Ahead buffer index (quote :: rest)) (turns : Nat) :
    closeString buffer (turns + 1) index = .ok index := by
  have found := @Ahead.strpbrk_found buffer [] index quote [backslash, quote] rest ahead
    (.tail _ (.head _)) (by decide) nofun
  rw [List.length_nil, Nat.add_zero] at found
  rw [closeString, found, ok_bind, required, ok_bind, ahead.byteAt_cons, ok_bind, if_pos rfl]
  rfl

theorem closeString_nul (ahead : Ahead buffer index text) (nul : text.head?.getD 0 = 0)
    (turns : Nat) : closeString buffer (turns + 1) index = .error .rejected := by
  have none : strpbrk buffer index [backslash, quote] = .ok none := by
    obtain ⟨found, -⟩ | ⟨front, byte, rest, rfl, accepted, free, -⟩ :=
      @Ahead.strpbrk_cases _ _ _ ahead [backslash, quote] (by decide)
    · exact found
    · cases front with
      | nil =>
          have zero : byte = 0 := nul
          rw [zero] at accepted
          exact absurd accepted (by decide)
      | cons first others => exact absurd nul (free first (.head _)).2
  rw [closeString, none, ok_bind]
  rfl

theorem closeString_found (proper : Body body) {turns : Nat} (enough : body.length < turns)
    (ahead : Ahead buffer index (body ++ quote :: rest)) :
    closeString buffer turns index = .ok (index + body.length) := by
  induction proper generalizing index turns with
  | empty =>
      cases turns with
      | zero => cases enough
      | succ turns => exact closeString_quote ahead turns
  | plain other nonzero _ ih =>
      rw [closeString_plain ahead other nonzero,
        ih (Nat.lt_of_succ_lt enough) ahead.next, List.length_cons]
      congr 1
      omega
  | escape _ ih =>
      cases turns with
      | zero => cases enough
      | succ turns =>
          rw [List.length_cons, List.length_cons] at enough ⊢
          rw [closeString_escape ahead, ih (by omega) ahead.next.next]
          congr 1
          omega

/-- A backslash in the last byte of the text takes the terminator with it. -/
theorem closeString_past (proper : Body body) {turns : Nat} (enough : body.length + 1 < turns)
    (ahead : Ahead buffer index (body ++ [backslash])) :
    closeString buffer turns index = .error (.outside buffer.length) := by
  induction proper generalizing index turns with
  | empty =>
      obtain ⟨turns, rfl⟩ := Nat.exists_eq_add_of_le enough
      rw [List.length_nil, Nat.add_comm] 
      rw [closeString_escape ahead, closeString, strpbrk_past ahead.next]
      rfl
  | plain other nonzero _ ih =>
      rw [List.length_cons] at enough
      rw [closeString_plain ahead other nonzero, ih (by omega) ahead.next]
  | escape _ ih =>
      cases turns with
      | zero => cases enough
      | succ turns =>
          rw [List.length_cons, List.length_cons] at enough
          rw [closeString_escape ahead, ih (by omega) ahead.next.next]

/-- A string value is closed, is cut off by a terminator, or takes the last one with it. -/
theorem closeString_cases {turns : Nat}
    (ahead : Ahead buffer index text) (enough : text.length < turns) :
    closeString buffer turns index = .error .rejected ∨
      (∃ body rest, Body body ∧ text = body ++ quote :: rest) ∨
      ∃ body, Body body ∧ text = body ++ [backslash] := by
  induction size : text.length using Nat.strong_induction_on generalizing text index turns with
  | _ size ih =>
      subst size
      cases text with
      | nil =>
          obtain ⟨turns, rfl⟩ := Nat.exists_eq_add_of_lt enough
          exact .inl (closeString_nul ahead rfl _)
      | cons byte rest =>
          rw [List.length_cons] at enough
          obtain ⟨turns, rfl⟩ := Nat.exists_eq_add_of_lt enough
          by_cases nul : byte = 0
          · exact .inl (closeString_nul ahead nul _)
          by_cases closed : byte = quote
          · exact .inr (.inl ⟨[], rest, .empty, by rw [closed]; rfl⟩)
          by_cases escaped : byte = backslash
          · subst escaped
            cases rest with
            | nil => exact .inr (.inr ⟨[], .empty, rfl⟩)
            | cons taken rest =>
                have further : rest.length < (taken :: rest).length + 1 + turns := by
                  rw [List.length_cons]
                  omega
                rw [closeString_escape ahead]
                obtain failed | ⟨body, behind, proper, rfl⟩ | ⟨body, proper, rfl⟩ :=
                  ih rest.length (by simp only [List.length_cons]; omega) ahead.next.next
                    further rfl
                · exact .inl failed
                · exact .inr (.inl ⟨_, behind, .escape proper, rfl⟩)
                · exact .inr (.inr ⟨_, .escape proper, rfl⟩)
          · have other : byte ∉ [backslash, quote] := by simp [closed, escaped]
            have further : rest.length < rest.length + 1 + turns + 1 := by omega
            rw [closeString_plain ahead other nul]
            obtain failed | ⟨body, behind, proper, rfl⟩ | ⟨body, proper, rfl⟩ :=
              ih rest.length (Nat.lt_succ_self _) ahead.next further rfl
            · exact .inl failed
            · exact .inr (.inl ⟨_, behind, .plain other nul proper, rfl⟩)
            · exact .inr (.inr ⟨_, .plain other nul proper, rfl⟩)

/-! ## Values -/

/-- The names of the runtimes are compared as the thread of a worker compares them. -/
theorem findRuntime_eq (ahead : Ahead buffer index text) (lowMemory : Mem) :
    findRuntime buffer index runtimes =
      .ok (Agent.findRuntime ⟨runtimes, lowMemory⟩ (memory buffer) (some index)) := by
  induction runtimes with
  | nil => rfl
  | cons runtime rest ih =>
      rw [findRuntime, strcmp_guarded ahead, ok_bind, ih]
      simp only [Agent.findRuntime, List.find?_cons]
      cases (strcmpEq runtime.bytes index).eval (memory buffer) <;> rfl

theorem findRuntime_string (ahead : Ahead buffer index text) {name : CString}
    (held : buffer.drop index = name.bytes ++ 0 :: rest) :
    findRuntime buffer index runtimes = .ok (runtimes.find? (· = name)) := by
  induction runtimes with
  | nil => rfl
  | cons runtime others ih =>
      rw [findRuntime, strcmp_string ahead runtime held, ok_bind, ih, List.find?_cons]
      by_cases same : runtime = name
      · rw [if_pos (decide_eq_true same), decide_eq_true same]
        rfl
      · rw [if_neg (fun equal => same (of_decide_eq_true equal)), decide_eq_false same]

/-- The use of a string value leaves the buffer and the pointer alone. -/
theorem assign_returns {val : Nat} (keyed : Ahead locals.buffer index text)
    (valued : Ahead locals.buffer val rest) :
    ∃ next, assign runtimes locals index val = .ok next ∧ next.buffer = locals.buffer ∧
      next.input = locals.input ∧ (next.file = locals.file ∨ next.file = some val) := by
  rw [assign, strcmp_guarded keyed, ok_bind, strcmp_guarded keyed,
    findRuntime_eq valued fun _ => 0]
  split
  · exact ⟨_, rfl, rfl, rfl, .inl rfl⟩
  · rw [ok_bind]
    split
    · exact ⟨_, rfl, rfl, rfl, .inr rfl⟩
    · exact ⟨_, rfl, rfl, rfl, .inl rfl⟩

/-- A string value is closed with a terminator; what lies in front of it stays. -/
theorem readValue_string {front : List UInt8} {base : Nat} (spaces : Blank blank)
    (proper : Body body) (gap : Blank behind) (flush : Flush rest)
    (here : locals.input = base + front.length)
    (ahead : Ahead locals.buffer base
      (front ++ (blank ++ quote :: (body ++ quote :: (behind ++ rest))))) (key : Nat) :
    ∃ stored,
      readValue runtimes locals key = assign runtimes { locals with
        buffer := stored
        input := locals.input + blank.length + 1 + body.length + 1 + behind.length }
        key (locals.input + blank.length + 1) ∧
      Ahead stored base (front ++ (blank ++ quote :: (body ++ 0 :: (behind ++ rest)))) := by
  have start := here ▸ ahead.skip
  have skipped := strskip_blank start spaces (flush_cons (by decide))
  have inside := start.skip.next
  have size := inside.size
  rw [List.length_append] at size
  have closed := @closeString_found _ _ _ _ proper locals.buffer.length (by omega) inside
  have whole : front ++ (blank ++ quote :: (body ++ quote :: (behind ++ rest))) =
      (front ++ (blank ++ quote :: body)) ++ quote :: (behind ++ rest) := by
    simp only [List.append_assoc, List.cons_append]
  obtain ⟨stored, put, held⟩ := (whole ▸ ahead).put 0
  have place : base + (front ++ (blank ++ quote :: body)).length =
      locals.input + blank.length + 1 + body.length := by
    simp only [List.length_append, List.length_cons]
    omega
  rw [place] at put
  have behindAt := held.skip.next
  rw [place] at behindAt
  refine ⟨stored, ?_, ?_⟩
  · rw [readValue, skipped, ok_bind, start.skip.byteAt_cons, ok_bind, if_pos rfl, closed, ok_bind,
      put, ok_bind, strskip_blank behindAt gap flush]
    rfl
  · simpa only [List.append_assoc, List.cons_append] using held

/-- What is passed as a value that is no string. -/
def Other (value : List UInt8) : Prop :=
  ∃ first middle, value = first :: middle ∧ first ≠ quote ∧ first ∉ jsonSpaces ∧
    ∀ byte ∈ middle, byte ∉ delimiters ∧ byte ≠ 0

theorem readValue_other {value : List UInt8} (spaces : Blank blank)
    (other : Other value) (delimits : byte ∈ delimiters)
    (ahead : Ahead locals.buffer locals.input (blank ++ (value ++ byte :: rest))) (key : Nat) :
    readValue runtimes locals key =
      .ok { locals with input := locals.input + blank.length + value.length } := by
  obtain ⟨first, middle, rfl, unquoted, visible, free⟩ := other
  have skipped := strskip_blank ahead spaces (flush_cons visible)
  have proper : byte ≠ 0 := by
    rintro rfl
    exact absurd delimits (by decide)
  have found := (ahead.skip.next : Ahead _ _ (middle ++ byte :: rest)).strpbrk_found delimits
    proper free
  rw [readValue, skipped, ok_bind, (ahead.skip : Ahead _ _ (first :: _)).byteAt_cons, ok_bind,
    if_neg unquoted, found, List.length_cons, Nat.add_comm middle.length, ← Nat.add_assoc]
  rfl

/-! ## Members and their separators -/

theorem readMember_eq {keyed : Locals} {key : Nat} (read : readKey locals = .ok (keyed, key)) :
    readMember runtimes locals = readValue runtimes keyed key := by
  rw [readMember, read]
  rfl

/-- Behind a member the last byte of the text is its terminator. -/
theorem separator_past (ahead : Ahead locals.buffer locals.input []) :
    separator locals = .error (.outside locals.buffer.length) := by
  rw [separator, ahead.byteAt_nil, ok_bind, if_neg (by decide), expect, ahead.byteAt_past]
  rfl

theorem separator_close (ahead : Ahead locals.buffer locals.input (braceClose :: rest)) :
    separator locals = .ok none := by
  rw [separator, ahead.byteAt_cons, ok_bind, if_pos rfl]
  rfl

theorem separator_next (other : byte ≠ braceClose)
    (ahead : Ahead locals.buffer locals.input (byte :: comma :: rest)) :
    separator locals = .ok (some { locals with input := locals.input + 2 }) := by
  rw [separator, ahead.byteAt_cons, ok_bind, if_neg other, expect_here ahead.next]
  rfl

theorem separator_other (other : byte ≠ braceClose)
    (ahead : Ahead locals.buffer locals.input (byte :: rest)) (single : rest.head?.getD 0 ≠ comma) :
    separator locals = .error .rejected := by
  rw [separator, ahead.byteAt_cons, ok_bind, if_neg other, expect_other ahead.next single]
  rfl

end PeridotSw.Rubic.BootScan

import Mathlib.Data.List.TakeWhile
import PeridotSw.Client.Paths

/-!
# Who may open a path

An entry covers a path if it is its name, or a directory above it.  The first covering
entry should decide.  The check asks for access before it looks where the name ends, so
that an entry whose name is no more than a beginning of the path can refuse it; and it
drops a slash at the end of a path before it compares lengths.
-/

namespace PeridotSw.Client.PathAccess

open PeridotSw.Machine.Memory
open PeridotSw.Client.Paths

/-! ## What is registered -/

/-- The entry of a part of a list; a slash at its end is the mark of a directory. -/
def segmentEntry (mode : Nat) (segment : List UInt8) : PathEntry :=
  if segment.getLast? = some slash then ⟨mode ||| oDirectory, segment.dropLast⟩
  else ⟨mode, segment⟩

def listEntries (mode : Nat) (list : List UInt8) : List PathEntry :=
  ((list.splitOn colon).filter (· ≠ [])).map (segmentEntry mode)

def callEntry (call : AddCall) : PathEntry :=
  let mode := call.flags &&& oAccmode
  if call.directory then
    ⟨mode ||| oDirectory,
      if call.path.bytes.getLast? = some slash then call.path.bytes.dropLast else call.path.bytes⟩
  else
    ⟨mode, call.path.bytes⟩

def registrations (rwPath roPath woPath : CString) (calls : List AddCall) : List PathEntry :=
  listEntries oRdwr rwPath.bytes ++ listEntries oRdonly roPath.bytes ++
    listEntries oWronly woPath.bytes ++ calls.map callEntry

/-- Those for which there was memory, from call `mallocs` of `malloc` on. -/
def kept (malloc : Nat → Bool) : Nat → List PathEntry → List PathEntry
  | _, [] => []
  | mallocs, entry :: rest =>
      if malloc mallocs then entry :: kept malloc (mallocs + 1) rest
      else kept malloc (mallocs + 1) rest

def registered (malloc : Nat → Bool) (rwPath roPath woPath : CString) (calls : List AddCall) :
    List PathEntry :=
  kept malloc 0 (registrations rwPath roPath woPath calls)

variable {malloc : Nat → Bool}

theorem kept_append (mallocs : Nat) (first second : List PathEntry) :
    kept malloc mallocs (first ++ second) =
      kept malloc mallocs first ++ kept malloc (mallocs + first.length) second := by
  induction first generalizing mallocs with
  | nil => rfl
  | cons entry rest ih =>
      have count : mallocs + (rest.length + 1) = mallocs + 1 + rest.length := by omega
      simp only [List.cons_append, kept, ih, List.length_cons, count]
      split <;> rfl

/-- The list with some more entries asked for. -/
structure Extends (malloc : Nat → Bool) (paths : PathList) (added : List PathEntry)
    (next : PathList) : Prop where
  entries : next.entries = paths.entries ++ kept malloc paths.mallocs added
  mallocs : next.mallocs = paths.mallocs + added.length

theorem Extends.nil (paths : PathList) : Extends malloc paths [] paths where
  entries := (List.append_nil _).symm
  mallocs := rfl

theorem Extends.trans {paths middle next : PathList} {first second : List PathEntry}
    (one : Extends malloc paths first middle) (two : Extends malloc middle second next) :
    Extends malloc paths (first ++ second) next where
  entries := by
    rw [two.entries, one.entries, one.mallocs, kept_append, List.append_assoc]
  mallocs := by
    rw [two.mallocs, one.mallocs, List.length_append]
    omega

theorem addPath_extends (paths : PathList) (path : List UInt8) {flags : Nat}
    (masked : flags &&& (oAccmode ||| oDirectory) = flags) :
    Extends malloc paths [⟨flags, path⟩] (peridotClientFsAddPath malloc paths path flags) where
  entries := by
    unfold peridotClientFsAddPath
    dsimp only [kept]
    rw [masked]
    split
    · rfl
    · exact (List.append_nil _).symm
  mallocs := rfl

theorem findSeparator_split (list : List UInt8) :
    ∃ front rest, list = front ++ rest ∧ findSeparator list = front.length ∧ colon ∉ front ∧
      (rest = [] ∨ ∃ more, rest = colon :: more) := by
  induction list with
  | nil => exact ⟨[], [], rfl, rfl, List.not_mem_nil, .inl rfl⟩
  | cons ch text ih =>
      unfold findSeparator
      by_cases here : ch = colon
      · rw [if_pos here, here]
        exact ⟨[], colon :: text, rfl, rfl, List.not_mem_nil, .inr ⟨text, rfl⟩⟩
      · rw [if_neg here]
        obtain ⟨front, rest, rfl, count, plain, ends⟩ := ih
        refine ⟨ch :: front, rest, rfl, ?_, ?_, ends⟩
        · rw [count, List.length_cons]
        · rintro (_ | ⟨_, later⟩)
          · exact here rfl
          · exact plain later

/-- The name found between two separators is added as its segment. -/
theorem addSegment_extends (paths : PathList) {front rest : List UInt8} (nonempty : front ≠ [])
    {mode : Nat} (file : mode &&& (oAccmode ||| oDirectory) = mode)
    (directory : (mode ||| oDirectory) &&& (oAccmode ||| oDirectory) = mode ||| oDirectory) :
    Extends malloc paths [segmentEntry mode front]
      (if (front ++ rest)[front.length - 1]? = some slash then
        peridotClientFsAddPath malloc paths ((front ++ rest).take (front.length - 1))
          (mode ||| oDirectory)
      else
        peridotClientFsAddPath malloc paths ((front ++ rest).take front.length) mode) := by
  have positive := List.length_pos_iff.mpr nonempty
  have last : (front ++ rest)[front.length - 1]? = front.getLast? := by
    rw [List.getElem?_append_left (by omega), List.getLast?_eq_getElem?]
  unfold segmentEntry
  rw [last]
  split
  · rw [List.take_append_of_le_length (by omega), ← List.dropLast_eq_take]
    exact addPath_extends paths _ directory
  · rw [List.take_left]
    exact addPath_extends paths _ file

/-- With a pass for every byte, and one more, the whole list is added. -/
theorem addList_extends {mode : Nat} (file : mode &&& (oAccmode ||| oDirectory) = mode)
    (directory : (mode ||| oDirectory) &&& (oAccmode ||| oDirectory) = mode ||| oDirectory)
    (count : Nat) (paths : PathList) (list : List UInt8) (enough : list.length < count) :
    Extends malloc paths (listEntries mode list)
      (peridotClientFsAddList malloc mode count paths list) := by
  induction count generalizing paths list with
  | zero => omega
  | succ count ih =>
      obtain ⟨front, rest, rfl, next, plain, ends⟩ := findSeparator_split list
      rw [List.length_append] at enough
      unfold peridotClientFsAddList
      dsimp only
      rw [next]
      rcases ends with rfl | ⟨more, rfl⟩
      · by_cases empty : front = []
        · rw [empty]
          exact Extends.nil paths
        · have segments : listEntries mode (front ++ []) = [segmentEntry mode front] := by
            rw [List.append_nil, listEntries, List.splitOn_eq_singleton plain]
            simp [empty]
          rw [if_neg (mt List.length_eq_zero_iff.mp empty), segments,
            if_pos (by rw [List.append_nil, List.drop_length])]
          exact addSegment_extends paths empty file directory
      · rw [List.length_cons] at enough
        have parts : (front ++ colon :: more).splitOn colon = front :: more.splitOn colon :=
          List.splitOn_append_cons_self_of_not_mem plain more
        by_cases empty : front = []
        · have segments : listEntries mode (front ++ colon :: more) = listEntries mode more := by
            rw [listEntries, parts]
            simp [empty, listEntries]
          rw [segments, empty]
          exact ih paths more (by omega)
        · have segments : listEntries mode (front ++ colon :: more) =
              [segmentEntry mode front] ++ listEntries mode more := by
            rw [listEntries, parts]
            simp [empty, listEntries]
          rw [if_neg (mt List.length_eq_zero_iff.mp empty), segments,
            if_neg (by rw [List.drop_left]; nofun), ← List.drop_drop, List.drop_left,
            List.drop_one, List.tail_cons]
          exact (addSegment_extends paths empty file directory).trans (ih _ more (by omega))

theorem mode_masked (flags : Nat) :
    (flags &&& oAccmode) &&& (oAccmode ||| oDirectory) = flags &&& oAccmode := by
  rw [Nat.and_assoc]
  rfl

theorem directory_masked (flags : Nat) :
    ((flags &&& oAccmode) ||| oDirectory) &&& (oAccmode ||| oDirectory) =
      (flags &&& oAccmode) ||| oDirectory := by
  rw [Nat.and_or_distrib_right, mode_masked]
  rfl

theorem addOne_extends (paths : PathList) (call : AddCall) :
    Extends malloc paths [callEntry call] (addOne malloc paths call) := by
  have positive := List.length_pos_iff.mpr call.nonempty
  unfold addOne callEntry
  dsimp only
  by_cases directory : call.directory
  · rw [if_pos directory, if_pos directory]
    unfold peridotClientFsAddDirectory
    dsimp only
    rw [← List.getLast?_eq_getElem?]
    split
    · rw [← List.dropLast_eq_take]
      exact addPath_extends paths _ (directory_masked _)
    · rw [List.take_length]
      exact addPath_extends paths _ (directory_masked _)
  · rw [if_neg directory, if_neg directory]
    exact addPath_extends paths _ (mode_masked _)

/-- The list holds what has been registered, in order. -/
theorem pathEntries_eq (malloc : Nat → Bool) (rwPath roPath woPath : CString)
    (calls : List AddCall) :
    pathEntries malloc rwPath roPath woPath calls =
      registered malloc rwPath roPath woPath calls := by
  have added (calls : List AddCall) (paths : PathList) :
      Extends malloc paths (calls.map callEntry) (calls.foldl (addOne malloc) paths) := by
    induction calls generalizing paths with
    | nil => exact Extends.nil paths
    | cons call rest ih => exact (addOne_extends paths call).trans (ih _)
  have lists : Extends malloc ⟨[], 0⟩
      (listEntries oRdwr rwPath.bytes ++ listEntries oRdonly roPath.bytes ++
        listEntries oWronly woPath.bytes)
      (peridotClientFsInit malloc rwPath roPath woPath) :=
    ((addList_extends rfl rfl _ _ _ (Nat.lt_succ_self _)).trans
      (addList_extends rfl rfl _ _ _ (Nat.lt_succ_self _))).trans
      (addList_extends rfl rfl _ _ _ (Nat.lt_succ_self _))
  have all := lists.trans (added calls _)
  exact all.entries

/-! ## Coverage -/

/-- An entry covers its own name; a directory covers everything below it as well. -/
def Covers (entry : PathEntry) (path : CString) : Prop :=
  entry.name = path.bytes ∨
    entry.flags &&& oDirectory ≠ 0 ∧ entry.name ++ [slash] <+: path.bytes

instance (entry : PathEntry) (path : CString) : Decidable (Covers entry path) :=
  inferInstanceAs (Decidable (_ ∨ _))

def Grants (entry : PathEntry) (flags : Nat) : Prop :=
  accmode entry.flags &&& accmode flags = accmode flags

instance (entry : PathEntry) (flags : Nat) : Decidable (Grants entry flags) :=
  inferInstanceAs (Decidable (_ = _))

/-- The first of the entries picked grants the access. -/
def FirstGrants (entries : List PathEntry) (picked : PathEntry → Bool) (flags : Nat) : Prop :=
  ∃ entry, entries.find? picked = some entry ∧ Grants entry flags

/-- What a path is compared by: all of it but a slash at the end. -/
def trimmed (path : CString) : List UInt8 :=
  if path.bytes.getLast? = some slash then path.bytes.dropLast else path.bytes

/-- A covering entry whose name is no longer than what the path is compared by. -/
def Reaches (entry : PathEntry) (path : CString) : Prop :=
  Covers entry path ∧ entry.name.length ≤ (trimmed path).length

instance (entry : PathEntry) (path : CString) : Decidable (Reaches entry path) :=
  inferInstanceAs (Decidable (_ ∧ _))

/-- The answer is the one of the first entry that covers the path, and the entries that do
not cover it have no part in it. -/
def Authorises (malloc : Nat → Bool) (rwPath roPath woPath : CString) (calls : List AddCall)
    (path : CString) (flags : Nat) : Prop :=
  let entries := pathEntries malloc rwPath roPath woPath calls
  (peridotClientFsValidatePath entries path flags = 1 ↔
    path.bytes ≠ [] ∧
      FirstGrants (registered malloc rwPath roPath woPath calls) (Covers · path) flags) ∧
  peridotClientFsValidatePath entries path flags =
    peridotClientFsValidatePath (entries.filter (Covers · path)) path flags

/-- The slash dropped makes no difference to the entry that decides, and if that entry grants
the access, no entry in front of it has a beginning of the path for its name and refuses. -/
def Unspoiled (entries : List PathEntry) (path : CString) (flags : Nat) : Prop :=
  path.bytes = [] ∨
    (FirstGrants entries (Covers · path) flags ↔ FirstGrants entries (Reaches · path) flags) ∧
      (FirstGrants entries (Reaches · path) flags →
        ∀ entry ∈ entries.takeWhile (¬Reaches · path), entry.name <+: trimmed path →
          Grants entry flags)

/-! ## The check -/

variable {path : CString}

theorem trimmed_prefix (path : CString) : trimmed path <+: path.bytes := by
  unfold trimmed
  split
  · exact List.dropLast_prefix _
  · exact List.prefix_refl _

/-- For a name the path begins with, the byte behind it tells whether the entry covers it. -/
theorem covers_iff_sep {entry : PathEntry} (begins : entry.name <+: path.bytes) :
    Covers entry path ↔
      path.bytes[entry.name.length]?.getD 0 = 0 ∨
        entry.flags &&& oDirectory ≠ 0 ∧ path.bytes[entry.name.length]?.getD 0 = slash := by
  obtain ⟨rest, whole⟩ := begins
  have behind : path.bytes[entry.name.length]? = rest.head? := by
    rw [← whole, List.getElem?_append_right (Nat.le_refl _), Nat.sub_self, List.head?_eq_getElem?]
  rw [behind]
  unfold Covers
  rw [← whole]
  cases rest with
  | nil => simp
  | cons byte more =>
      have nonzero : byte ≠ 0 := path.nulFree byte (by rw [← whole]; simp)
      simp [nonzero, List.prefix_append_right_inj, List.cons_prefix_cons, eq_comm]

/-- The first entry that reaches the path grants the access, and so do those in front of it
whose names the path begins with. -/
def Granted (path : CString) (flags : Nat) (entries : List PathEntry) : Prop :=
  FirstGrants entries (Reaches · path) flags ∧
    ∀ entry ∈ entries.takeWhile (¬Reaches · path), entry.name <+: trimmed path →
      Grants entry flags

section

variable {entry : PathEntry} {next : List PathEntry} {flags : Nat}

theorem granted_cons_of_misses (misses : ¬Reaches entry path)
    (harmless : entry.name <+: trimmed path → Grants entry flags) :
    Granted path flags (entry :: next) ↔ Granted path flags next := by
  have second : (entry :: next).find? (Reaches · path) = next.find? (Reaches · path) :=
    List.find?_cons_of_neg (by simpa using misses)
  have passed : (entry :: next).takeWhile (¬Reaches · path) =
      entry :: next.takeWhile (¬Reaches · path) :=
    List.takeWhile_cons_of_pos (by simpa using misses)
  unfold Granted FirstGrants
  rw [second, passed, List.forall_mem_cons]
  exact and_congr_right fun _ => and_iff_right harmless

theorem granted_cons_of_reaches (here : Reaches entry path) (grants : Grants entry flags) :
    Granted path flags (entry :: next) := by
  refine ⟨⟨entry, ?_, grants⟩, ?_⟩
  · rw [List.find?_cons_of_pos (by simpa using here)]
  · simp [here]

theorem not_granted_cons (inside : entry.name <+: trimmed path) (refuses : ¬Grants entry flags) :
    ¬Granted path flags (entry :: next) := by
  rintro ⟨⟨first, found, grants⟩, harmless⟩
  by_cases here : Reaches entry path
  · rw [List.find?_cons_of_pos (by simpa using here)] at found
    cases found
    exact refuses grants
  · refine refuses (harmless entry ?_ inside)
    simp [here]

end

theorem validateEntries_iff (path : CString) (entries : List PathEntry) (flags : Nat) :
    validateEntries path (trimmed path).length (accmode flags) entries = 1 ↔
      Granted path flags entries := by
  have front := trimmed_prefix path
  induction entries with
  | nil => simp [validateEntries, Granted, FirstGrants]
  | cons entry next ih =>
      have later (misses : ¬Reaches entry path)
          (harmless : entry.name <+: trimmed path → Grants entry flags) :
          validateEntries path (trimmed path).length (accmode flags) next = 1 ↔
            Granted path flags (entry :: next) :=
        ih.trans (granted_cons_of_misses misses harmless).symm
      unfold validateEntries
      dsimp only
      by_cases long : (trimmed path).length < entry.name.length
      · rw [if_pos long]
        exact later (fun reaches => Nat.not_lt.mpr reaches.2 long)
          fun begins => absurd begins.length_le (Nat.not_le.mpr long)
      · rw [if_neg long]
        by_cases other : path.bytes.take entry.name.length ≠ entry.name
        · rw [if_pos other]
          have apart : ¬entry.name <+: path.bytes := fun begins =>
            other (List.prefix_iff_eq_take.mp begins).symm
          refine later (fun reaches => apart ?_) fun begins => absurd (begins.trans front) apart
          rcases reaches.1 with same | ⟨-, below⟩
          · exact same ▸ List.prefix_refl _
          · exact (List.prefix_append _ _).trans below
        · rw [if_neg other]
          have begins : entry.name <+: path.bytes :=
            List.prefix_iff_eq_take.mpr (Decidable.not_not.mp other).symm
          have inside : entry.name <+: trimmed path :=
            List.prefix_of_prefix_length_le begins front (Nat.not_lt.mp long)
          have sep := covers_iff_sep begins
          have reaches : Reaches entry path ↔ Covers entry path :=
            and_iff_left (Nat.not_lt.mp long)
          by_cases refuses : accmode entry.flags &&& accmode flags ≠ accmode flags
          · rw [if_pos refuses]
            exact iff_of_false (by decide) (not_granted_cons inside refuses)
          · rw [if_neg refuses]
            have grants : Grants entry flags := Decidable.not_not.mp refuses
            by_cases here : Covers entry path
            · have yes : Granted path flags (entry :: next) :=
                granted_cons_of_reaches (reaches.mpr here) grants
              have bytes := sep.mp here
              by_cases directory : entry.flags &&& oDirectory ≠ 0
              · rw [if_pos directory, if_pos (bytes.elim .inr fun both => .inl both.2)]
                exact iff_of_true rfl yes
              · rw [if_neg directory, if_pos (bytes.resolve_right fun both => directory both.1)]
                exact iff_of_true rfl yes
            · have misses := mt reaches.mp here
              by_cases directory : entry.flags &&& oDirectory ≠ 0
              · rw [if_pos directory, if_neg fun bytes =>
                  here (sep.mpr (bytes.elim (fun byte => .inr ⟨directory, byte⟩) .inl))]
                exact later misses fun _ => grants
              · rw [if_neg directory, if_neg fun byte => here (sep.mpr (.inl byte))]
                exact later misses fun _ => grants

theorem validatePath_eq {path : CString} (nonempty : path.bytes ≠ []) (entries : List PathEntry)
    (flags : Nat) :
    peridotClientFsValidatePath entries path flags =
      validateEntries path (trimmed path).length (accmode flags) entries := by
  unfold peridotClientFsValidatePath
  dsimp only
  rw [if_neg (mt List.length_eq_zero_iff.mp nonempty), ← List.getLast?_eq_getElem?]
  unfold trimmed
  split
  · rw [List.length_dropLast]
  · rfl

theorem validateEntries_binary (path : CString) (len accRequested : Nat)
    (entries : List PathEntry) :
    validateEntries path len accRequested entries = 0 ∨
      validateEntries path len accRequested entries = 1 := by
  induction entries with
  | nil => exact .inl rfl
  | cons entry next ih =>
      unfold validateEntries
      dsimp only
      repeat' split
      all_goals first | exact ih | exact .inl rfl | exact .inr rfl

/-- Among the covering entries only the first that reaches the path counts. -/
theorem validateEntries_filter (path : CString) (entries : List PathEntry) (flags : Nat) :
    validateEntries path (trimmed path).length (accmode flags) (entries.filter (Covers · path)) = 1 ↔
      FirstGrants entries (Reaches · path) flags := by
  have same : (entries.filter (Covers · path)).find? (Reaches · path) =
      entries.find? (Reaches · path) := by
    rw [List.find?_filter]
    congr 1
    funext entry
    rw [decide_eq_decide, decide_eq_true_iff, decide_eq_true_iff]
    exact and_iff_right_of_imp And.left
  have harmless : ∀ entry ∈ (entries.filter (Covers · path)).takeWhile (¬Reaches · path),
      entry.name <+: trimmed path → Grants entry flags := by
    intro entry listed begins
    have covers : Covers entry path := by
      have inside := List.mem_filter.mp (List.takeWhile_subset _ listed)
      simpa using inside.2
    have misses : ¬Reaches entry path := by simpa using List.mem_takeWhile_imp listed
    exact absurd ⟨covers, begins.length_le⟩ misses
  rw [validateEntries_iff, Granted]
  unfold FirstGrants
  rw [same]
  exact and_iff_left harmless

/-- The answer is right exactly if the trimmed slash makes no difference and no entry in
front refuses a path it does not cover. -/
theorem peridotClientFsValidatePath_authorises_iff (malloc : Nat → Bool)
    (rwPath roPath woPath : CString) (calls : List AddCall) (path : CString) (flags : Nat) :
    Authorises malloc rwPath roPath woPath calls path flags ↔
      Unspoiled (registered malloc rwPath roPath woPath calls) path flags := by
  unfold Authorises
  rw [pathEntries_eq]
  dsimp only
  generalize registered malloc rwPath roPath woPath calls = entries
  unfold Unspoiled
  by_cases empty : path.bytes = []
  · simp [peridotClientFsValidatePath, empty]
  · have whole := validateEntries_iff path entries flags
    unfold Granted at whole
    have covering := validateEntries_filter path entries flags
    have equal : validateEntries path (trimmed path).length (accmode flags) entries =
          validateEntries path (trimmed path).length (accmode flags)
            (entries.filter (Covers · path)) ↔
        (validateEntries path (trimmed path).length (accmode flags) entries = 1 ↔
          validateEntries path (trimmed path).length (accmode flags)
            (entries.filter (Covers · path)) = 1) := by
      have first := validateEntries_binary path (trimmed path).length (accmode flags) entries
      have second := validateEntries_binary path (trimmed path).length (accmode flags)
        (entries.filter (Covers · path))
      omega
    rw [validatePath_eq empty, validatePath_eq empty, equal, whole, covering]
    simp only [empty, ne_eq, not_false_eq_true, true_and, false_or]
    rw [and_iff_left_iff_imp]
    refine and_congr_left fun harmless => ?_
    rw [and_iff_left_of_imp harmless]
    exact iff_comm

/-- A path that may be read and a longer one, no path below it, that may be written. -/
theorem not_authorises_longerName :
    ¬Authorises (fun _ => true) (.of [] rfl) (.of [0x2f, 0x61] rfl) (.of [0x2f, 0x61, 0x62] rfl) []
      (.of [0x2f, 0x61, 0x62] rfl) 1 := by
  rintro ⟨answer, -⟩
  have granted := answer.mpr ⟨by decide, ⟨1, [0x2f, 0x61, 0x62]⟩, by decide, by decide⟩
  exact absurd granted (by decide)

end PeridotSw.Client.PathAccess

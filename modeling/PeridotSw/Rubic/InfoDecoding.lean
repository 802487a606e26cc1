import PeridotSw.Rpc.ReplyLaw
import PeridotSw.Rubic.InfoCache

/-!
# Reading the information of the Rubic agent

What a reader of the document finds under its keys.  The runtimes are found under the keys
that `generate_info` computes, which are not the digits.
-/

namespace PeridotSw.Rubic.InfoDecoding

open PeridotSw.Machine.Memory
open PeridotSw.Bson.Read
open PeridotSw.Bson.Document
open PeridotSw.Bson.Lookup
open PeridotSw.Rpc.Reply (offsetAt)
open PeridotSw.Rpc.ReplyLaw (first position offset_eq_none_iff lies_of_first)
open PeridotSw.Rpc.Sink (Allocator)
open PeridotSw.Rubic.Agent (keyName)
open PeridotSw.Rubic.Info
open PeridotSw.Rubic.InfoCache

variable {mem : Mem} {doc : Nat} {content : Elements} {key : CString}

/-! ## Reading under a key -/

/-- `bson_get_props` for one key, whose variable may hold anything before. -/
def offsetFor (mem : Mem) (doc : Nat) (key : CString) (stale : Int) : Int :=
  offsetAt ((bsonGetProps doc [⟨key, stale⟩]).eval mem).2 0

/-- `bson_get_string` gives the string under a key; without one it gives `NULL`. -/
def GivesString (mem : Mem) (doc : Nat) (key : CString) : Option CString → Prop
  | some text => ∀ stale, ∃ place,
      (bsonGetString (some doc) (offsetFor mem doc key stale)).eval mem = some place ∧
        Holds mem place (text.bytes ++ [0])
  | none => ∀ stale, (bsonGetString (some doc) (offsetFor mem doc key stale)).eval mem = none

/-- `bson_get_subdocument` gives the document under a key. -/
def GivesDocument (mem : Mem) (doc : Nat) (key : CString) (given : Nat → Prop) : Prop :=
  ∀ stale, ∃ place,
    (bsonGetSubdocument (some doc) (offsetFor mem doc key stale)).eval mem = some place ∧
      given place

theorem offsetFor_eq (held : HoldsDocument mem doc content) (key : CString) (stale : Int) :
    offsetFor mem doc key stale = position content key := by
  have distinct : ([(⟨key, stale⟩ : Param)].map Param.key).Nodup := List.pairwise_singleton _ _
  rw [offsetFor, eval_bsonGetProps held distinct]
  rfl

theorem givesString_found (held : HoldsDocument mem doc content) {text : CString}
    (found : first key content = some (.string text)) :
    GivesString mem doc key (some text) := by
  intro stale
  obtain ⟨offset, place, lies⟩ := lies_of_first held content (List.append_nil _).symm found
  rw [offsetFor_eq held, position, place]
  exact lies.string

theorem givesString_absent (held : HoldsDocument mem doc content)
    (absent : first key content = none) : GivesString mem doc key none := by
  intro stale
  rw [offsetFor_eq held, position, (offset_eq_none_iff key content).mpr absent]
  rfl

theorem givesDocument_found (held : HoldsDocument mem doc content) {value : Value}
    {inner : Elements} (found : first key content = some value)
    (type : value.type = 0x04 ∨ value.type = 0x03)
    (encode : value.encode = documentBytes inner.encode) :
    GivesDocument mem doc key fun place => HoldsDocument mem place inner := by
  intro stale
  obtain ⟨offset, place, lies⟩ := lies_of_first held content (List.append_nil _).symm found
  rw [offsetFor_eq held, position, place]
  exact lies.subdocument type encode

theorem GivesDocument.mono {given other : Nat → Prop} (gives : GivesDocument mem doc key given)
    (implies : ∀ place, given place → other place) : GivesDocument mem doc key other :=
  fun stale => (gives stale).imp fun place both => ⟨both.1, implies place both.2⟩

theorem string_unique {place : Nat} {text other : CString}
    (one : Holds mem place (text.bytes ++ [0])) (two : Holds mem place (other.bytes ++ [0])) :
    text = other :=
  ((eval_strcmpEq two).mp ((eval_strcmpEq one).mpr rfl))

theorem GivesString.unique {text other : CString}
    (one : GivesString mem doc key (some text)) (two : GivesString mem doc key (some other)) :
    text = other := by
  obtain ⟨place, found, held⟩ := one 0
  obtain ⟨again, same, held'⟩ := two 0
  rw [found] at same
  cases same
  exact string_unique held held'

theorem GivesDocument.both {given other : Nat → Prop} (one : GivesDocument mem doc key given)
    (two : GivesDocument mem doc key other) : ∃ place, given place ∧ other place := by
  obtain ⟨place, found, holds⟩ := one 0
  obtain ⟨again, same, holds'⟩ := two 0
  rw [found] at same
  cases same
  exact ⟨place, holds, holds'⟩

/-! ## What is to be read -/

theorem digit_ne_zero : ∀ digit < 10, UInt8.ofNat (0x30 + digit) ≠ 0 := by decide

def digit (index : Nat) : CString :=
  ⟨[UInt8.ofNat (0x30 + index % 10)],
    List.forall_mem_singleton.mpr (digit_ne_zero _ (Nat.mod_lt index (by decide)))⟩

/-- The runtimes as documents under the keys of their indices. -/
def runtimesUnder (label : Nat → CString) : Nat → Elements → List Runtime → Elements
  | _, front, [] => front
  | index, front, runtime :: rest =>
      runtimesUnder label (index + 1)
        (.append front (label index) (.subdocument (runtimeContent runtime))) rest

/-- A reader finds the version, the runtimes in order under the keys of their indices, each
with its name and its version, if any, and nothing else, and the paths of the storages under
their names. -/
structure Reads (label : Nat → CString) (mem : Mem) (setting : Setting)
    (runtimes : List Runtime) (storages : List Storage) : Prop where
  version : GivesString mem 0 keyRubicVersion (some setting.rubicVersion)
  runtimes : GivesDocument mem 0 keyRuntimes fun array =>
    HoldsDocument mem array (runtimesUnder label 0 .empty runtimes) ∧
      ∀ index (bound : index < runtimes.length),
        GivesDocument mem array (label index) fun info =>
          HoldsDocument mem info (runtimeContent runtimes[index]) ∧
            GivesString mem info keyName (some runtimes[index].name) ∧
            GivesString mem info keyVersion runtimes[index].version
  storages : GivesDocument mem 0 keyStorages fun paths =>
    ∀ storage ∈ storages, GivesString mem paths storage.name (some storage.path)

/-- No two storages of a name have different paths. -/
def Unambiguous (storages : List Storage) : Prop :=
  ∀ one ∈ storages, ∀ two ∈ storages, one.name = two.name → one.path = two.path

/-! ## Keys in the documents -/

variable {label : Nat → CString} {setting : Setting} {state : State}

theorem runtimesUnder_subscript (index : Nat) (front : Elements) (list : List Runtime) :
    runtimesUnder subscript index front list = runtimesContent index front list := by
  induction list generalizing index front with
  | nil => rfl
  | cons runtime rest ih => exact ih _ _

theorem first_kept {value : Value} {front : Elements} (found : first key front = some value)
    (index : Nat) (list : List Runtime) :
    first key (runtimesUnder label index front list) = some value := by
  induction list generalizing index front with
  | nil => exact found
  | cons runtime rest ih =>
      apply ih
      rw [first, found]
      rfl

/-- The document of a runtime is the first one under the key of its index. -/
theorem first_runtime {front : Elements} {index place : Nat} {list : List Runtime}
    (bound : place < list.length) (absent : first (label (index + place)) front = none)
    (distinct : ∀ other < place, label (index + other) ≠ label (index + place)) :
    first (label (index + place)) (runtimesUnder label index front list) =
      some (.subdocument (runtimeContent list[place])) := by
  induction list generalizing index place front with
  | nil => cases bound
  | cons runtime rest ih =>
      cases place with
      | zero =>
          rw [Nat.add_zero] at absent ⊢
          refine @first_kept _ _ _
            (.append front (label index) (.subdocument (runtimeContent runtime))) ?_ _ _
          rw [first, absent, if_pos rfl]
          rfl
      | succ place =>
          have next : index + (place + 1) = index + 1 + place := by omega
          rw [next] at absent distinct ⊢
          refine ih (Nat.lt_of_succ_lt_succ bound) ?_ fun other less => ?_
          · have other : label index ≠ label (index + 1 + place) := distinct 0 (Nat.succ_pos _)
            rw [first, absent, if_neg other]
            rfl
          · have further := distinct (other + 1) (Nat.succ_lt_succ less)
            rwa [show index + (other + 1) = index + 1 + other by omega] at further

theorem first_storages (key : CString) (front : Elements) (list : List Storage) :
    first key (storagesContent front list) =
      (first key front <|>
        (list.find? fun storage => storage.name = key).map
          fun storage => .string storage.path) := by
  induction list generalizing front with
  | nil => simp [storagesContent]
  | cons storage rest ih =>
      rw [storagesContent, ih, first]
      by_cases same : storage.name = key
      · simp [same]
      · simp [same]

/-! ## What is read -/

theorem first_name (runtime : Runtime) :
    first keyName (runtimeContent runtime) = some (.string runtime.name) := by
  obtain ⟨name, version⟩ := runtime
  cases version <;> rfl

theorem first_version (runtime : Runtime) :
    first keyVersion (runtimeContent runtime) = runtime.version.map Value.string := by
  obtain ⟨name, version⟩ := runtime
  cases version <;> rfl

theorem givesString_version {runtime : Runtime}
    (held : HoldsDocument mem doc (runtimeContent runtime)) :
    GivesString mem doc keyVersion runtime.version := by
  have found := first_version runtime
  cases version : runtime.version with
  | none => exact givesString_absent held (by rw [found, version]; rfl)
  | some text => exact givesString_found held (by rw [found, version]; rfl)

/-- The information is read under the keys it was written under. -/
theorem reads_of_holds {runtimes : List Runtime} {storages : List Storage}
    (held : HoldsDocument mem 0 (infoContent setting runtimes storages))
    (same : runtimesUnder label 0 .empty runtimes = runtimesContent 0 .empty runtimes)
    (distinct : ∀ one < runtimes.length, ∀ two < one, label two ≠ label one)
    (clear : Unambiguous storages) : Reads label mem setting runtimes storages where
  version := givesString_found held rfl
  runtimes := by
    refine (@givesDocument_found _ _ _ _ held _ (runtimesContent 0 .empty runtimes) rfl (.inl rfl)
      rfl).mono fun array inner => ?_
    rw [← same] at inner
    refine ⟨inner, fun index bound => ?_⟩
    have found := @first_runtime label .empty 0 index runtimes bound rfl (by
      simpa only [Nat.zero_add] using distinct index bound)
    rw [Nat.zero_add] at found
    refine (givesDocument_found inner found (.inr rfl) rfl).mono fun info content => ?_
    exact ⟨content, givesString_found content (first_name _), givesString_version content⟩
  storages := by
    refine (@givesDocument_found _ _ _ _ held _ (storagesContent .empty storages) rfl (.inr rfl)
      rfl).mono fun paths inner => ?_
    intro storage listed
    apply givesString_found inner
    rw [first_storages]
    cases found : storages.find? fun other => other.name = storage.name with
    | none =>
        exact absurd (List.find?_eq_none.mp found storage listed) (by simp)
    | some other =>
        have name := List.find?_some found
        have path := clear other (List.mem_of_find?_eq_some found) storage listed
          (by simpa using name)
        rw [← path]
        rfl

/-- Storages of a name are read with one path. -/
theorem unambiguous_of_reads {runtimes : List Runtime} {storages : List Storage}
    (reads : Reads label mem setting runtimes storages) : Unambiguous storages := by
  intro one listed two listed' same
  obtain ⟨paths, gives, -⟩ := reads.storages.both reads.storages
  have first := gives one listed
  rw [same] at first
  exact first.unique (gives two listed')

theorem encode_front (index : Nat) (front : Elements) (list : List Runtime) :
    front.encode <+: (runtimesUnder label index front list).encode := by
  induction list generalizing index front with
  | nil => exact List.prefix_refl _
  | cons runtime rest ih =>
      have later := ih (index + 1)
        (.append front (label index) (.subdocument (runtimeContent runtime)))
      rw [Elements.encode] at later
      exact (List.prefix_append _ _).trans later

theorem label_byte {array : Nat} {runtime : Runtime} {rest : List Runtime} {byte : UInt8}
    (held : HoldsDocument mem array (runtimesUnder label 0 .empty (runtime :: rest)))
    (spelled : (label 0).bytes = [byte]) : mem (array + 5) = byte := by
  obtain ⟨more, whole⟩ := @encode_front label 1
    (.append .empty (label 0) (.subdocument (runtimeContent runtime))) rest
  have bytes := holds_elements held.1
  rw [runtimesUnder, ← whole, Elements.encode, Elements.encode, Element.bytes, spelled] at bytes
  simp only [List.nil_append, List.cons_append, holds_cons] at bytes
  exact bytes.2.1

/-- With a runtime the keys are not those the runtimes were written under. -/
theorem none_of_reads {runtimes : List Runtime} {storages : List Storage}
    (held : HoldsDocument mem 0 (infoContent setting runtimes storages))
    (reads : Reads digit mem setting runtimes storages) : runtimes = [] := by
  cases runtimes with
  | nil => rfl
  | cons runtime rest =>
      have written := @givesDocument_found _ _ _ keyRuntimes held
        (.array (runtimesContent 0 .empty (runtime :: rest))) _ rfl (.inl rfl) rfl
      obtain ⟨array, content, inner, -⟩ := written.both reads.runtimes
      rw [← runtimesUnder_subscript] at content
      have byte := @label_byte _ _ _ _ _ 0xd0 content rfl
      rw [@label_byte _ _ _ _ _ 0x30 inner rfl] at byte
      exact absurd byte (by decide)

/-! ## The information that is built -/

/-- What is kept is the document of the tables, whatever `malloc` gave for it. -/
theorem cached_holds {malloc : Allocator} {temp : Nat → Mem} (fits : Fits setting state)
    {doc : Mem} (made : (generateInfo malloc temp setting state).1.cachedInfo = some doc) :
    HoldsDocument doc 0 (contentOf setting state) := by
  unfold generateInfo at made
  cases first : malloc state.mallocs (64 * (setting.maxRuntimes + setting.maxStorages)) with
  | none =>
      rw [first] at made
      cases made
  | some block =>
      rw [first] at made
      dsimp only at made
      split at made
      case h_1 => cases made
      case h_2 output _ =>
        cases made
        exact buildInfo_holds fits _ block _ output

theorem subscript_distinct : ∀ one < 10, ∀ two < one, subscript two ≠ subscript one := by decide

/-- Apart from the keys of the runtimes all is read, for as many runtimes as are allowed. -/
theorem reads_subscript {malloc : Allocator} (temp : Nat → Mem) (fits : Fits setting state)
    {doc : Mem} (made : (generateInfo malloc temp setting state).1.cachedInfo = some doc)
    (few : (listed state.runtimes).length ≤ 10) (clear : Unambiguous (listed state.storages)) :
    Reads subscript doc setting (listed state.runtimes) (listed state.storages) :=
  reads_of_holds (cached_holds fits made) (runtimesUnder_subscript _ _ _)
    (fun one bound => subscript_distinct one (Nat.lt_of_lt_of_le bound few)) clear

/-- A reader finds all that is registered under its keys exactly when no runtime is registered
and no storage with two paths. -/
theorem decodes_iff {malloc : Allocator} (temp : Nat → Mem) (fits : Fits setting state)
    {doc : Mem} (made : (generateInfo malloc temp setting state).1.cachedInfo = some doc) :
    Reads digit doc setting (listed state.runtimes) (listed state.storages) ↔
      listed state.runtimes = [] ∧ Unambiguous (listed state.storages) := by
  have held := cached_holds fits made
  constructor
  · exact fun reads => ⟨none_of_reads held reads, unambiguous_of_reads reads⟩
  · rintro ⟨none, clear⟩
    refine reads_of_holds held ?_ ?_ clear
    · rw [none]
      rfl
    · rw [none]
      exact nofun

def oneStorage : State where
  mallocs := 0
  runtimes := [none]
  storages := [some ⟨.of [0x61] (Eq.refl true), .of [0x61] (Eq.refl true)⟩]
  cachedInfo := none

theorem decodes_iff_oneStorage :
    ∃ doc, (generateInfo plenty (fun _ _ => 0) oneSlot oneStorage).1.cachedInfo = some doc ∧
      Reads digit doc oneSlot [] [⟨.of [0x61] rfl, .of [0x61] rfl⟩] := by
  refine ⟨_, rfl, (@decodes_iff oneSlot oneStorage plenty (fun _ _ => 0)
    ⟨by decide, by decide, by decide⟩ _ rfl).mpr ⟨rfl, ?_⟩⟩
  intro one first two second _
  rw [List.mem_singleton.mp first, List.mem_singleton.mp second]

def oneRuntime : State where
  mallocs := 0
  runtimes := [some ⟨.of [0x61] (Eq.refl true), none⟩]
  storages := [none]
  cachedInfo := none

theorem not_decodes_oneRuntime :
    ∃ doc, (generateInfo plenty (fun _ _ => 0) oneSlot oneRuntime).1.cachedInfo = some doc ∧
      ¬ Reads digit doc oneSlot [⟨.of [0x61] rfl, none⟩] [] := by
  refine ⟨_, rfl, fun reads => ?_⟩
  have held := @cached_holds oneSlot oneRuntime plenty (fun _ _ => 0)
    ⟨by decide, by decide, by decide⟩ _ rfl
  exact List.cons_ne_nil _ _ (none_of_reads held reads)

end PeridotSw.Rubic.InfoDecoding

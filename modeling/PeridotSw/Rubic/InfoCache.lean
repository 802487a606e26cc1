import PeridotSw.Rubic.Info

/-!
# How current the information is

What `generate_info` builds depends on the names in the tables only, and grows with every
one of them.  So a document from the cache is current exactly as long as nothing has been
registered since it was built.
-/

namespace PeridotSw.Rubic.InfoCache

open PeridotSw.Machine.Memory
open PeridotSw.Machine.Word
open PeridotSw.Bson.Read
open PeridotSw.Bson.Write
open PeridotSw.Bson.Document
open PeridotSw.Rpc.Sink (Allocator)
open PeridotSw.Rpc.Reply (into)
open PeridotSw.Rubic.Agent (keyName)
open PeridotSw.Rubic.Info

variable {α : Type}

/-! ## The content of the document -/

def listed : List (Option α) → List α
  | some entry :: rest => entry :: listed rest
  | _ => []

def runtimeContent (runtime : Runtime) : Elements :=
  let named := Elements.append .empty keyName (.string runtime.name)
  match runtime.version with
  | some version => .append named keyVersion (.string version)
  | none => named

def runtimesContent : Nat → Elements → List Runtime → Elements
  | _, front, [] => front
  | index, front, runtime :: rest =>
      runtimesContent (index + 1)
        (.append front (subscript index) (.subdocument (runtimeContent runtime))) rest

def storagesContent : Elements → List Storage → Elements
  | front, [] => front
  | front, storage :: rest =>
      storagesContent (.append front storage.name (.string storage.path)) rest

def infoContent (setting : Setting) (runtimes : List Runtime) (storages : List Storage) :
    Elements :=
  .append
    (.append (.append .empty keyRubicVersion (.string setting.rubicVersion)) keyRuntimes
      (.array (runtimesContent 0 .empty runtimes)))
    keyStorages (.subdocument (storagesContent .empty storages))

/-- What `generate_info` writes fits where it writes it: a runtime in `temp`, and the two
documents in the 64 bytes for each slot. -/
structure Fits (setting : Setting) (state : State) : Prop where
  runtime : ∀ runtime ∈ listed state.runtimes, (runtimeContent runtime).encode.length + 5 ≤ 64
  runtimes : (runtimesContent 0 .empty (listed state.runtimes)).encode.length + 5 ≤
    64 * setting.maxRuntimes
  storages : (storagesContent .empty (listed state.storages)).encode.length + 5 ≤
    64 * setting.maxStorages

/-! ## Its length -/

theorem length_append_encode (front : Elements) (key : CString) (value : Value) :
    (Elements.append front key value).encode.length =
      front.encode.length + (key.bytes.length + value.encode.length + 2) := by
  rw [Elements.encode, List.length_append, length_element_bytes]

theorem runtimesContent_append (index : Nat) (front : Elements) (first second : List Runtime) :
    runtimesContent index front (first ++ second) =
      runtimesContent (index + first.length) (runtimesContent index front first) second := by
  induction first generalizing index front with
  | nil => rfl
  | cons runtime rest ih =>
      rw [List.cons_append, runtimesContent, ih, runtimesContent, List.length_cons]
      congr 1
      omega

theorem runtimesContent_length (index : Nat) (front : Elements) (list : List Runtime) :
    front.encode.length + list.length ≤ (runtimesContent index front list).encode.length := by
  induction list generalizing index front with
  | nil => exact Nat.le_refl _
  | cons runtime rest ih =>
      have later := ih (index + 1)
        (.append front (subscript index) (.subdocument (runtimeContent runtime)))
      rw [length_append_encode] at later
      rw [runtimesContent, List.length_cons]
      omega

theorem storagesContent_append (front : Elements) (first second : List Storage) :
    storagesContent front (first ++ second) =
      storagesContent (storagesContent front first) second := by
  induction first generalizing front with
  | nil => rfl
  | cons storage rest ih => rw [List.cons_append, storagesContent, ih, storagesContent]

theorem storagesContent_length (front : Elements) (list : List Storage) :
    front.encode.length + list.length ≤ (storagesContent front list).encode.length := by
  induction list generalizing front with
  | nil => exact Nat.le_refl _
  | cons storage rest ih =>
      have later := ih (.append front storage.name (.string storage.path))
      rw [length_append_encode] at later
      rw [storagesContent, List.length_cons]
      omega

theorem infoContent_length (setting : Setting) (runtimes : List Runtime)
    (storages : List Storage) :
    (infoContent setting runtimes storages).encode.length =
      setting.rubicVersion.bytes.length + (runtimesContent 0 .empty runtimes).encode.length +
        (storagesContent .empty storages).encode.length + 49 := by
  simp only [infoContent, Elements.encode, Value.encode, List.length_append, List.length_nil]
  simp [keyRubicVersion, keyRuntimes, keyStorages]
  omega

/-! ## The writers build it -/

theorem built_runtime (temp : Mem) {runtime : Runtime}
    (fits : (runtimeContent runtime).encode.length + 5 ≤ 64) :
    ∃ sum, Built (runtimeContent runtime) (runtimeInfo temp runtime) sum := by
  have small : (64 : Nat) < 2 ^ 31 := by decide
  obtain ⟨name, version⟩ := runtime
  cases version with
  | none => exact ⟨_, .append (.empty temp) (.string name) (Nat.lt_of_le_of_lt fits small)⟩
  | some version =>
      have shorter :
          (Elements.append .empty keyName (.string name)).encode.length + 5 < 2 ^ 31 := by
        simp only [runtimeContent, length_append_encode] at fits ⊢
        omega
      exact ⟨_, .append (.append (.empty temp) (.string name) shorter) (.string version)
        (Nat.lt_of_le_of_lt fits small)⟩

theorem built_runtimes {table : List (Option Runtime)}
    (fits : ∀ runtime ∈ listed table, (runtimeContent runtime).encode.length + 5 ≤ 64)
    (index : Nat) (temp : Mem) {front : Elements} {doc : Mem} {sum : Int}
    (built : Built front doc sum)
    (small : (runtimesContent index front (listed table)).encode.length + 5 < 2 ^ 31) :
    ∃ sum, Built (runtimesContent index front (listed table)) (addRuntimes index temp doc table)
      sum := by
  induction table generalizing index temp front doc sum with
  | nil => exact ⟨sum, built⟩
  | cons slot rest ih =>
      cases slot with
      | none => exact ⟨sum, built⟩
      | some runtime =>
          obtain ⟨size, info⟩ := built_runtime temp (fits runtime (.head _))
          have longer := runtimesContent_length (index + 1)
            (.append front (subscript index) (.subdocument (runtimeContent runtime))) (listed rest)
          have room : (Elements.append front (subscript index)
              (.subdocument (runtimeContent runtime))).encode.length + 5 < 2 ^ 31 := by
            rw [listed, runtimesContent] at small
            omega
          exact ih (fun other later => fits other (.tail _ later)) (index + 1)
            (runtimeInfo temp runtime) (.append built (.subdocument info) room) small

theorem built_storages {table : List (Option Storage)} {front : Elements} {doc : Mem}
    {sum : Int} (built : Built front doc sum)
    (small : (storagesContent front (listed table)).encode.length + 5 < 2 ^ 31) :
    ∃ sum, Built (storagesContent front (listed table)) (addStorages doc table) sum := by
  induction table generalizing front doc sum with
  | nil => exact ⟨sum, built⟩
  | cons slot rest ih =>
      cases slot with
      | none => exact ⟨sum, built⟩
      | some storage =>
          have longer := storagesContent_length
            (.append front storage.name (.string storage.path)) (listed rest)
          have room : (Elements.append front storage.name
              (.string storage.path)).encode.length + 5 < 2 ^ 31 := by
            rw [listed, storagesContent] at small
            omega
          exact ih (.append built (.string storage.path) room) small

def contentOf (setting : Setting) (state : State) : Elements :=
  infoContent setting (listed state.runtimes) (listed state.storages)

/-- It is built in whatever memory `malloc` gives. -/
theorem buildInfo_holds {setting : Setting} {state : State} (fits : Fits setting state)
    (temp block half output : Mem) :
    HoldsDocument (buildInfo setting output
      (addRuntimes 0 temp (bsonCreateEmptyDocument block) state.runtimes)
      (addStorages (bsonCreateEmptyDocument half) state.storages)) 0 (contentOf setting state) := by
  have small := setting.small
  have first := fits.runtimes
  have second := fits.storages
  have total := infoContent_length setting (listed state.runtimes) (listed state.storages)
  obtain ⟨size1, subdoc1⟩ := built_runtimes fits.runtime 0 temp (.empty block) (by omega)
  obtain ⟨size2, subdoc2⟩ := @built_storages state.storages .empty _ _ (.empty half) (by omega)
  have whole : (contentOf setting state).encode.length + 5 < 2 ^ 31 := by
    rw [contentOf]
    omega
  have version : (Elements.append .empty keyRubicVersion
      (.string setting.rubicVersion)).encode.length + 5 < 2 ^ 31 := by
    rw [contentOf, infoContent, length_append_encode, length_append_encode] at whole
    omega
  have arrays : (Elements.append (.append .empty keyRubicVersion (.string setting.rubicVersion))
      keyRuntimes (.array (runtimesContent 0 .empty (listed state.runtimes)))).encode.length + 5 <
        2 ^ 31 := by
    rw [contentOf, infoContent, length_append_encode] at whole
    omega
  have built : Built (contentOf setting state) _ _ :=
    .append (.append (.append (.empty output) (.string setting.rubicVersion) version)
      (.array subdoc1) arrays) (.subdocument subdoc2) whole
  exact built.holds.1

/-- `generate_info` builds it, when its allocations succeed. -/
theorem generateInfo_holds {malloc : Allocator}
    (mallocs : ∀ count size, (malloc count size).isSome) (temp : Nat → Mem) {setting : Setting}
    {state : State} (fits : Fits setting state) :
    ∃ doc, generateInfo malloc temp setting state =
        ({ state with mallocs := state.mallocs + 2, cachedInfo := some doc }, 0) ∧
      HoldsDocument doc 0 (contentOf setting state) := by
  obtain ⟨block, granted⟩ := Option.isSome_iff_exists.mp
    (mallocs state.mallocs (64 * (setting.maxRuntimes + setting.maxStorages)))
  obtain ⟨output, granted'⟩ := Option.isSome_iff_exists.mp (mallocs (state.mallocs + 1)
    (unsigned (measureInfo setting
      (addRuntimes 0 (temp state.mallocs) (bsonCreateEmptyDocument block) state.runtimes)
      (addStorages (bsonCreateEmptyDocument fun index =>
        block (64 * setting.maxRuntimes + index)) state.storages))))
  refine ⟨_, ?_, buildInfo_holds fits (temp state.mallocs) block
    (fun index => block (64 * setting.maxRuntimes + index)) output⟩
  unfold generateInfo
  rw [granted]
  dsimp only
  rw [granted']

/-! ## What calls change -/

/-- A call that gives a slot a name. -/
def Registers (state : State) : Info.Call → Prop
  | .registerRuntime name _ => name.isSome ∧ none ∈ state.runtimes
  | .registerStorage name _ => name.isSome ∧ none ∈ state.storages
  | .info => False

/-- The tables hold all names they held before. -/
structure Extends (before after : State) : Prop where
  runtimes : listed before.runtimes <+: listed after.runtimes
  storages : listed before.storages <+: listed after.storages

def entries (state : State) : Nat :=
  (listed state.runtimes).length + (listed state.storages).length

theorem Extends.refl (state : State) : Extends state state :=
  ⟨List.prefix_refl _, List.prefix_refl _⟩

theorem Extends.entries_le {before after : State} (grows : Extends before after) :
    entries before ≤ entries after :=
  Nat.add_le_add grows.runtimes.length_le grows.storages.length_le

theorem Extends.trans {first second third : State} (one : Extends first second)
    (two : Extends second third) : Extends first third :=
  ⟨one.runtimes.trans two.runtimes, one.storages.trans two.storages⟩

/-- What a call may do to a table: it adds one name at least if it registers one, and leaves
it as it is otherwise. -/
structure GrowsTable (registers : Prop) (before after : List (Option α)) : Prop where
  grows : listed before <+: listed after
  more : registers → (listed before).length < (listed after).length
  same : ¬registers → after = before

/-- Filling a slot without a name changes nothing but that it gets the name. -/
theorem fillSlot_grows (entry : Option α) (table : List (Option α)) :
    GrowsTable (entry.isSome ∧ none ∈ table) table ((fillSlot entry table).getD table) := by
  induction table with
  | nil => exact ⟨List.prefix_refl _, fun both => absurd both.2 List.not_mem_nil, fun _ => rfl⟩
  | cons slot rest ih =>
      cases slot with
      | none =>
          cases entry with
          | none =>
              exact ⟨List.prefix_refl _, fun both => absurd both.1 Bool.false_ne_true,
                fun _ => rfl⟩
          | some name =>
              exact ⟨List.nil_prefix, fun _ => Nat.succ_pos _,
                fun never => absurd ⟨rfl, .head _⟩ never⟩
      | some taken =>
          have filled : (fillSlot entry (some taken :: rest)).getD (some taken :: rest) =
              some taken :: (fillSlot entry rest).getD rest := by
            rw [fillSlot]
            cases fillSlot entry rest <;> rfl
          have free : none ∈ some taken :: rest ↔ none ∈ rest := by simp
          rw [filled, free]
          constructor
          · exact List.cons_prefix_cons.mpr ⟨rfl, ih.grows⟩
          · exact fun both => Nat.succ_lt_succ (ih.more both)
          · exact fun never => congrArg _ (ih.same never)

/-- What a call may do to the tables. -/
structure Grows (registers : Prop) (before after : State) : Prop where
  grows : Extends before after
  more : registers → entries before < entries after
  same : ¬registers → after.runtimes = before.runtimes ∧ after.storages = before.storages

theorem grows_of_same {registers : Prop} {before after : State} (never : ¬registers)
    (same : after.runtimes = before.runtimes ∧ after.storages = before.storages) :
    Grows registers before after where
  grows := ⟨same.1 ▸ List.prefix_refl _, same.2 ▸ List.prefix_refl _⟩
  more := fun registers => absurd registers never
  same := fun _ => same

theorem registerRuntime_grows (state : State) (name version : Option CString) :
    Grows (Registers state (.registerRuntime name version)) state
      ((rubicAgentRegisterRuntime name version state).getD state) := by
  have table := fillSlot_grows (name.map (Runtime.mk · version)) state.runtimes
  have registered : (rubicAgentRegisterRuntime name version state).getD state =
      { state with runtimes :=
          (fillSlot (name.map (Runtime.mk · version)) state.runtimes).getD state.runtimes } := by
    unfold rubicAgentRegisterRuntime
    cases fillSlot (name.map (Runtime.mk · version)) state.runtimes <;> rfl
  rw [Option.isSome_map] at table
  rw [registered]
  exact ⟨⟨table.grows, List.prefix_refl _⟩,
    fun registers => Nat.add_lt_add_right (table.more registers) _,
    fun never => ⟨table.same never, rfl⟩⟩

theorem registerStorage_grows (state : State) (name : Option CString) (path : CString) :
    Grows (Registers state (.registerStorage name path)) state
      ((rubicAgentRegisterStorage name path state).getD state) := by
  have table := fillSlot_grows (name.map (Storage.mk · path)) state.storages
  have registered : (rubicAgentRegisterStorage name path state).getD state =
      { state with storages :=
          (fillSlot (name.map (Storage.mk · path)) state.storages).getD state.storages } := by
    unfold rubicAgentRegisterStorage
    cases fillSlot (name.map (Storage.mk · path)) state.storages <;> rfl
  rw [Option.isSome_map] at table
  rw [registered]
  exact ⟨⟨List.prefix_refl _, table.grows⟩,
    fun registers => Nat.add_lt_add_left (table.more registers) _,
    fun never => ⟨rfl, table.same never⟩⟩

section Calls

variable {malloc : Allocator} {temp : Nat → Mem} {setting : Setting}

theorem generateInfo_tables (state : State) :
    (generateInfo malloc temp setting state).1.runtimes = state.runtimes ∧
      (generateInfo malloc temp setting state).1.storages = state.storages := by
  unfold generateInfo
  split
  · exact ⟨rfl, rfl⟩
  · dsimp only
    split <;> exact ⟨rfl, rfl⟩

/-- The cache is answered with as it is. -/
theorem info_of_cached {state : State} {doc : Mem} (cached : state.cachedInfo = some doc) :
    rubicAgentMethodInfo malloc temp setting state =
      ({ state with mallocs := state.mallocs + 1 },
        (malloc state.mallocs (unsigned (bsonMeasureDocument doc))).map fun _ =>
          documentOf doc) := by
  simp [rubicAgentMethodInfo, cached]

/-- Otherwise it is filled first. -/
theorem info_of_empty {state filled : State} {doc : Mem} (empty : state.cachedInfo = none)
    (generated : generateInfo malloc temp setting state = (filled, 0))
    (cached : filled.cachedInfo = some doc) :
    rubicAgentMethodInfo malloc temp setting state =
      ({ filled with mallocs := filled.mallocs + 1 },
        (malloc filled.mallocs (unsigned (bsonMeasureDocument doc))).map fun _ =>
          documentOf doc) := by
  simp [rubicAgentMethodInfo, empty, generated, cached]

theorem info_tables (state : State) :
    (rubicAgentMethodInfo malloc temp setting state).1.runtimes = state.runtimes ∧
      (rubicAgentMethodInfo malloc temp setting state).1.storages = state.storages := by
  cases cached : state.cachedInfo with
  | some doc =>
      rw [info_of_cached cached]
      exact ⟨rfl, rfl⟩
  | none =>
      have generated := @generateInfo_tables malloc temp setting state
      unfold rubicAgentMethodInfo
      rw [cached]
      dsimp only
      split
      · split <;> exact generated
      · exact generated

theorem perform_grows (state : State) (call : Info.Call) :
    Grows (Registers state call) state (perform malloc temp setting state call).1 := by
  cases call with
  | registerRuntime name version => exact registerRuntime_grows state name version
  | registerStorage name path => exact registerStorage_grows state name path
  | info => exact grows_of_same id (info_tables state)

theorem performAll_append (state : State) (first second : List Info.Call) :
    performAll malloc temp setting state (first ++ second) =
      performAll malloc temp setting (performAll malloc temp setting state first) second :=
  List.foldl_append ..

theorem performAll_extends (state : State) (calls : List Info.Call) :
    Extends state (performAll malloc temp setting state calls) := by
  induction calls generalizing state with
  | nil => exact .refl state
  | cons call rest ih => exact (perform_grows state call).grows.trans (ih _)

end Calls

/-- What fits at the end has fitted all the time. -/
theorem Fits.of_extends {setting : Setting} {before after : State}
    (grows : Extends before after) (fits : Fits setting after) : Fits setting before := by
  obtain ⟨runtimes, more⟩ := grows.runtimes
  obtain ⟨storages, others⟩ := grows.storages
  have first := fits.runtimes
  have second := fits.storages
  have longer := runtimesContent_length (0 + (listed before.runtimes).length)
    (runtimesContent 0 .empty (listed before.runtimes)) runtimes
  have longer' := storagesContent_length (storagesContent .empty (listed before.storages)) storages
  rw [← more, runtimesContent_append] at first
  rw [← others, storagesContent_append] at second
  refine ⟨fun runtime inside => fits.runtime runtime ?_, by omega, by omega⟩
  rw [← more]
  exact List.mem_append_left _ inside

/-- More names make a longer document. -/
theorem contentOf_length_lt (setting : Setting) {before after : State}
    (grows : Extends before after) (more : entries before < entries after) :
    (contentOf setting before).encode.length < (contentOf setting after).encode.length := by
  obtain ⟨runtimes, first⟩ := grows.runtimes
  obtain ⟨storages, second⟩ := grows.storages
  have longer := runtimesContent_length (0 + (listed before.runtimes).length)
    (runtimesContent 0 .empty (listed before.runtimes)) runtimes
  have longer' := storagesContent_length (storagesContent .empty (listed before.storages)) storages
  rw [← runtimesContent_append, first] at longer
  rw [← storagesContent_append, second] at longer'
  unfold entries at more
  rw [← first, ← second, List.length_append, List.length_append] at more
  unfold contentOf
  rw [infoContent_length, infoContent_length]
  omega

/-! ## What the cache holds -/

section Cache

variable {malloc : Allocator} {temp : Nat → Mem} {setting : Setting}

/-- Registrations do not touch the cache. -/
theorem cached_register (state : State) {call : Info.Call} (other : call ≠ .info) :
    (perform malloc temp setting state call).1.cachedInfo = state.cachedInfo := by
  cases call with
  | registerRuntime name version =>
      change ((rubicAgentRegisterRuntime name version state).getD state).cachedInfo = _
      unfold rubicAgentRegisterRuntime
      cases fillSlot (name.map fun name => Runtime.mk name version) state.runtimes <;> rfl
  | registerStorage name path =>
      change ((rubicAgentRegisterStorage name path state).getD state).cachedInfo = _
      unfold rubicAgentRegisterStorage
      cases fillSlot (name.map fun name => Storage.mk name path) state.storages <;> rfl
  | info => exact absurd rfl other

theorem cached_perform {state : State} {doc : Mem} (cached : state.cachedInfo = some doc)
    (call : Info.Call) : (perform malloc temp setting state call).1.cachedInfo = some doc := by
  by_cases info : call = .info
  · subst info
    change (rubicAgentMethodInfo malloc temp setting state).1.cachedInfo = some doc
    rw [info_of_cached cached]
    exact cached
  · rw [cached_register state info, cached]

theorem cached_performAll {state : State} {doc : Mem} (cached : state.cachedInfo = some doc)
    (calls : List Info.Call) :
    (performAll malloc temp setting state calls).cachedInfo = some doc := by
  induction calls generalizing state with
  | nil => exact cached
  | cons call rest ih => exact ih (cached_perform cached call)

theorem empty_performAll {state : State} (empty : state.cachedInfo = none)
    {calls : List Info.Call} (unasked : .info ∉ calls) :
    (performAll malloc temp setting state calls).cachedInfo = none := by
  induction calls generalizing state with
  | nil => exact empty
  | cons call rest ih =>
      have later : .info ∉ rest := fun inside => unasked (.tail _ inside)
      have other : call ≠ .info := by
        rintro rfl
        exact unasked (.head _)
      exact ih ((cached_register state other).trans empty) later

/-- Calls that register nothing leave the tables as they are. -/
theorem same_performAll {state : State} {calls : List Info.Call}
    (never : ∀ front call back, calls = front ++ call :: back →
      ¬Registers (performAll malloc temp setting state front) call) :
    (performAll malloc temp setting state calls).runtimes = state.runtimes ∧
      (performAll malloc temp setting state calls).storages = state.storages := by
  induction calls generalizing state with
  | nil => exact ⟨rfl, rfl⟩
  | cons call rest ih =>
      obtain ⟨runtimes, storages⟩ := (perform_grows state call).same (never [] call rest rfl)
      have later := @ih (perform malloc temp setting state call).1
        fun front other back split => never (call :: front) other back (by rw [split]; rfl)
      exact ⟨later.1.trans runtimes, later.2.trans storages⟩

variable (mallocs : ∀ count size, (malloc count size).isSome)
include mallocs

/-- A call that finds the cache empty fills it and returns what it holds. -/
theorem info_fills {state : State} (empty : state.cachedInfo = none) (fits : Fits setting state) :
    ∃ doc, (rubicAgentMethodInfo malloc temp setting state).1.cachedInfo = some doc ∧
      HoldsDocument doc 0 (contentOf setting state) ∧
        (rubicAgentMethodInfo malloc temp setting state).2 = some (documentOf doc) ∧
          (generateInfo malloc temp setting state).1.cachedInfo = some doc := by
  obtain ⟨doc, generated, held⟩ := generateInfo_holds mallocs temp fits
  have answered := info_of_empty empty generated rfl
  obtain ⟨result, granted⟩ := Option.isSome_iff_exists.mp
    (mallocs (state.mallocs + 2) (unsigned (bsonMeasureDocument doc)))
  refine ⟨doc, by rw [answered], held, ?_, by rw [generated]⟩
  rw [answered, granted]
  rfl

/-- Behind the first call the cache holds the information of the tables at that call. -/
theorem cache_holds {state : State} (empty : state.cachedInfo = none) {front : List Info.Call}
    (asked : .info ∈ front)
    (fits : Fits setting (performAll malloc temp setting state front)) :
    ∃ before after doc, front = before ++ .info :: after ∧
      (performAll malloc temp setting state front).cachedInfo = some doc ∧
        HoldsDocument doc 0 (contentOf setting (performAll malloc temp setting state before)) := by
  obtain ⟨before, after, rfl, first⟩ := List.eq_append_cons_of_mem asked
  rw [performAll_append] at fits
  obtain ⟨doc, cached, held, -, -⟩ := @info_fills malloc temp setting mallocs _
    (empty_performAll empty first) (fits.of_extends (performAll_extends _ _))
  refine ⟨before, after, doc, rfl, ?_, held⟩
  rw [performAll_append]
  exact cached_performAll cached after

end Cache

/-! ## When every answer is current -/

/-- Each document returned is the one `generate_info` would build from the tables as they are
at the call. -/
def Current (malloc : Allocator) (temp : Nat → Mem) (setting : Setting)
    (calls : List Info.Call) : Prop :=
  ∀ front back, calls = front ++ .info :: back →
    (rubicAgentMethodInfo malloc temp setting
        (performAll malloc temp setting (initial setting) front)).2 =
      (generateInfo malloc temp setting
        (performAll malloc temp setting (initial setting) front)).1.cachedInfo.map documentOf

/-- Nothing is registered between two calls for the information. -/
def Regular (malloc : Allocator) (temp : Nat → Mem) (setting : Setting)
    (calls : List Info.Call) : Prop :=
  ∀ front call back, calls = front ++ call :: back → .info ∈ front → .info ∈ back →
    ¬Registers (performAll malloc temp setting (initial setting) front) call

theorem documentOf_eq {doc : Mem} {content : Elements} (held : HoldsDocument doc 0 content) :
    documentOf doc = documentBytes content.encode := slice_document held

section Answers

variable {malloc : Allocator} {temp : Nat → Mem} {setting : Setting} {calls : List Info.Call}

/-- An answer from the cache, against one that is generated. -/
theorem current_iff_of_cached (mallocs : ∀ count size, (malloc count size).isSome)
    {state : State} (fits : Fits setting state) {doc : Mem} {content : Elements}
    (cached : state.cachedInfo = some doc) (held : HoldsDocument doc 0 content) :
    (rubicAgentMethodInfo malloc temp setting state).2 =
        (generateInfo malloc temp setting state).1.cachedInfo.map documentOf ↔
      documentBytes content.encode = documentBytes (contentOf setting state).encode := by
  obtain ⟨fresh, generated, held'⟩ := generateInfo_holds mallocs temp fits
  obtain ⟨result, granted⟩ := Option.isSome_iff_exists.mp
    (mallocs state.mallocs (unsigned (bsonMeasureDocument doc)))
  rw [info_of_cached cached, generated, granted, Option.map_some, Option.map_some,
    documentOf_eq held, documentOf_eq held', Option.some.injEq]

/-- What fits at the end has fitted behind every call. -/
theorem fits_front {front back : List Info.Call} (split : calls = front ++ back)
    (fits : Fits setting (performAll malloc temp setting (initial setting) calls)) :
    Fits setting (performAll malloc temp setting (initial setting) front) := by
  rw [split, performAll_append] at fits
  exact fits.of_extends (performAll_extends _ _)

/-- The information is longer behind a registration than anywhere before it. -/
theorem contentOf_registers {before after middle : List Info.Call} {call : Info.Call}
    (registers :
      Registers (performAll malloc temp setting (initial setting) (before ++ after)) call) :
    (contentOf setting
        (performAll malloc temp setting (initial setting) before)).encode.length <
      (contentOf setting (performAll malloc temp setting (initial setting)
        (before ++ after ++ call :: middle))).encode.length := by
  have first := @performAll_extends malloc temp setting
    (performAll malloc temp setting (initial setting) before) after
  rw [← performAll_append] at first
  obtain ⟨grows, more, -⟩ := @perform_grows malloc temp setting
    (performAll malloc temp setting (initial setting) (before ++ after)) call
  have second := @performAll_extends malloc temp setting (perform malloc temp setting
    (performAll malloc temp setting (initial setting) (before ++ after)) call).1 middle
  have reached : performAll malloc temp setting (initial setting)
      (before ++ after ++ call :: middle) = performAll malloc temp setting
        (perform malloc temp setting
          (performAll malloc temp setting (initial setting) (before ++ after)) call).1 middle :=
    performAll_append ..
  rw [reached]
  exact contentOf_length_lt setting (first.trans (grows.trans second))
    (Nat.lt_of_le_of_lt first.entries_le (Nat.lt_of_lt_of_le (more registers) second.entries_le))

/-- Behind a registration the cache gives away what is too short. -/
theorem regular_of_current (mallocs : ∀ count size, (malloc count size).isSome)
    (fits : Fits setting (performAll malloc temp setting (initial setting) calls))
    (current : Current malloc temp setting calls) : Regular malloc temp setting calls := by
  intro front call back split asked again registers
  obtain ⟨middle, later, rfl⟩ := List.append_of_mem again
  have split' : calls = (front ++ call :: middle) ++ .info :: later := by
    rw [split, List.append_assoc, List.cons_append]
  obtain ⟨before, after, doc, rfl, cached, held⟩ :=
    cache_holds mallocs rfl asked (fits_front split fits)
  have answered := current _ _ split'
  have fits' := fits_front split' fits
  have shorter := @contentOf_registers malloc temp setting before (.info :: after) middle call
    registers
  rw [performAll_append] at answered fits' shorter
  have same := congrArg List.length ((current_iff_of_cached mallocs fits'
    (cached_performAll cached _) held).mp answered)
  rw [length_documentBytes, length_documentBytes] at same
  omega

/-- Without registrations the tables are those the cache was filled from. -/
theorem current_of_regular (mallocs : ∀ count size, (malloc count size).isSome)
    (fits : Fits setting (performAll malloc temp setting (initial setting) calls))
    (regular : Regular malloc temp setting calls) : Current malloc temp setting calls := by
  intro front back split
  have fits' := fits_front split fits
  by_cases asked : .info ∈ front
  · obtain ⟨before, after, doc, rfl, cached, held⟩ := cache_holds mallocs rfl asked fits'
    refine (current_iff_of_cached mallocs fits' cached held).mpr ?_
    let asking := performAll malloc temp setting (initial setting) before
    obtain ⟨runtimes, storages⟩ := @info_tables malloc temp setting asking
    obtain ⟨kept, kept'⟩ := @same_performAll malloc temp setting
      (rubicAgentMethodInfo malloc temp setting asking).1 after
        fun other call rest parts registers => by
          refine regular (before ++ .info :: other) call (rest ++ .info :: back) ?_
            (List.mem_append_right _ (.head _)) (List.mem_append_right _ (.head _)) ?_
          · rw [split, parts]
            simp
          · rw [performAll_append]
            exact registers
    have final : performAll malloc temp setting (initial setting) (before ++ .info :: after) =
        performAll malloc temp setting (rubicAgentMethodInfo malloc temp setting asking).1
          after := performAll_append ..
    rw [final, contentOf, contentOf, kept, kept', runtimes, storages]
  · obtain ⟨doc, -, -, answered, generated⟩ :=
      info_fills mallocs (empty_performAll rfl asked) fits'
    rw [answered, generated]
    rfl

/-- The documents returned are all current exactly if nothing is registered between two calls
for them. -/
theorem current_iff_regular (mallocs : ∀ count size, (malloc count size).isSome)
    (fits : Fits setting (performAll malloc temp setting (initial setting) calls)) :
    Current malloc temp setting calls ↔ Regular malloc temp setting calls :=
  ⟨regular_of_current mallocs fits, current_of_regular mallocs fits⟩

end Answers

def oneSlot : Setting where
  maxRuntimes := 1
  maxStorages := 1
  rubicVersion := .of [0x31] rfl
  small := by decide

def plenty : Allocator := fun _ _ => some fun _ => 0

/-- A runtime `a`, then twice the information. -/
theorem current_iff_regular_twice :
    Current plenty (fun _ _ => 0) oneSlot
        [.registerRuntime (some (.of [0x61] rfl)) none, .info, .info] ↔
      Regular plenty (fun _ _ => 0) oneSlot
        [.registerRuntime (some (.of [0x61] rfl)) none, .info, .info] :=
  current_iff_regular (fun _ _ => rfl) ⟨by decide, by decide, by decide⟩

/-- The information, then a runtime `a`, then the information again. -/
theorem current_fails :
    ¬∀ (malloc : Allocator) (temp : Nat → Mem) (setting : Setting) (calls : List Info.Call),
      (∀ count size, (malloc count size).isSome) →
        Fits setting (performAll malloc temp setting (initial setting) calls) →
          Current malloc temp setting calls := by
  intro all
  have current := all plenty (fun _ _ => 0) oneSlot
    [.info, .registerRuntime (some (.of [0x61] rfl)) none, .info] (fun _ _ => rfl)
    ⟨by decide, by decide, by decide⟩
  have answered := current [.info, .registerRuntime (some (.of [0x61] rfl)) none] [] rfl
  revert answered
  decide

end PeridotSw.Rubic.InfoCache

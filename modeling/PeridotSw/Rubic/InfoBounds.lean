import PeridotSw.Bson.Stores
import PeridotSw.Rubic.InfoCache

/-!
# Where `generate_info` stores

`generate_info` builds three documents in buffers of a fixed size and a fourth one in a
buffer that it measures.  The stores are listed here in the order they are made, each with
the buffer it is meant for.
-/

namespace PeridotSw.Rubic.InfoBounds

open PeridotSw.Machine.Memory
open PeridotSw.Machine.Word
open PeridotSw.Bson.Write
open PeridotSw.Bson.Document
open PeridotSw.Bson.Footprint
open PeridotSw.Bson.Stores
open PeridotSw.Rpc.Sink (Allocator)
open PeridotSw.Rpc.Reply (into)
open PeridotSw.Rubic.Agent (keyName)
open PeridotSw.Rubic.Info
open PeridotSw.Rubic.InfoCache

/-! ## The stores -/

/-- The buffers; the last one has the length that was measured. -/
inductive Target where
  | temp
  | subdoc1
  | subdoc2
  | output (len : Nat)
  deriving DecidableEq

def room (setting : Setting) : Target → Nat
  | .temp => 64
  | .subdoc1 => 64 * setting.maxRuntimes
  | .subdoc2 => 64 * setting.maxStorages
  | .output len => len

def onto (target : Target) (stores : List Store) : List (Target × Store) :=
  stores.map fun store => (target, store)

def runtimeStores (temp : Mem) (runtime : Runtime) : List Store :=
  let empty := bsonCreateEmptyDocument temp
  let named := into empty (bsonSetString (some empty) keyName runtime.name)
  createStores ++ setStringStores empty keyName runtime.name ++
    match runtime.version with
    | some version => setStringStores named keyVersion version
    | none => []

def runtimesStores : Nat → Mem → Mem → List (Option Runtime) → List (Target × Store)
  | index, temp, subdoc, some runtime :: rest =>
      let info := runtimeInfo temp runtime
      onto .temp (runtimeStores temp runtime) ++
        (onto .subdoc1 (setSubdocumentStores subdoc (subscript index) 0x03 info) ++
          runtimesStores (index + 1) info
            (into subdoc (bsonSetSubdocument (some subdoc) (subscript index) info)) rest)
  | _, _, _, _ => []

def storagesStores : Mem → List (Option Storage) → List Store
  | subdoc, some storage :: rest =>
      setStringStores subdoc storage.name storage.path ++
        storagesStores (into subdoc (bsonSetString (some subdoc) storage.name storage.path)) rest
  | _, _ => []

def infoStores (setting : Setting) (output subdoc1 subdoc2 : Mem) : List Store :=
  let empty := bsonCreateEmptyDocument output
  let version := into empty (bsonSetString (some empty) keyRubicVersion setting.rubicVersion)
  let runtimes := into version (bsonSetArray (some version) keyRuntimes subdoc1)
  createStores ++ (setStringStores empty keyRubicVersion setting.rubicVersion ++
    (setSubdocumentStores version keyRuntimes 0x04 subdoc1 ++
      setSubdocumentStores runtimes keyStorages 0x03 subdoc2))

/-- The stores of `generate_info`. -/
def generateInfoStores (malloc : Allocator) (temp : Nat → Mem) (setting : Setting)
    (state : State) : List (Target × Store) :=
  match malloc state.mallocs (64 * (setting.maxRuntimes + setting.maxStorages)) with
  | none => []
  | some block =>
      let half : Mem := fun index => block (64 * setting.maxRuntimes + index)
      let subdoc1 := addRuntimes 0 (temp state.mallocs) (bsonCreateEmptyDocument block)
        state.runtimes
      let subdoc2 := addStorages (bsonCreateEmptyDocument half) state.storages
      let len := unsigned (measureInfo setting subdoc1 subdoc2)
      onto .subdoc1 createStores ++ (onto .subdoc2 createStores ++
        (runtimesStores 0 (temp state.mallocs) (bsonCreateEmptyDocument block) state.runtimes ++
          (onto .subdoc2 (storagesStores (bsonCreateEmptyDocument half) state.storages) ++
            match malloc (state.mallocs + 1) len with
            | none => []
            | some output => onto (.output len) (infoStores setting output subdoc1 subdoc2))))

/-- Every store is made inside the buffer it is meant for. -/
def Confined (setting : Setting) (stores : List (Target × Store)) : Prop :=
  ∀ entry ∈ stores, entry.2.Inside (room setting entry.1)

instance (setting : Setting) (stores : List (Target × Store)) :
    Decidable (Confined setting stores) :=
  inferInstanceAs (Decidable (∀ entry ∈ stores, entry.2.Inside (room setting entry.1)))

/-! ## The memory they leave -/

variable {setting : Setting} {state : State} {malloc : Allocator} {temp : Nat → Mem}
  {garbage doc : Mem} {size limit : Nat}

/-- The stores meant for a buffer. -/
def storesTo (target : Target) (stores : List (Target × Store)) : List Store :=
  (stores.filter fun entry => entry.1 = target).map Prod.snd

theorem storesTo_append (target : Target) (first second : List (Target × Store)) :
    storesTo target (first ++ second) = storesTo target first ++ storesTo target second := by
  rw [storesTo, List.filter_append, List.map_append]
  rfl

theorem storesTo_onto (target : Target) (stores : List Store) :
    storesTo target (onto target stores) = stores := by
  simp [storesTo, onto, List.filter_map, Function.comp_def]

theorem storesTo_other {target other : Target} (apart : target ≠ other) (stores : List Store) :
    storesTo other (onto target stores) = [] := by
  simp [storesTo, onto, List.filter_map, Function.comp_def, apart]

theorem applyStores_runtime (temp : Mem) (runtime : Runtime) :
    applyStores temp (runtimeStores temp runtime) = runtimeInfo temp runtime := by
  obtain ⟨name, version⟩ := runtime
  cases version <;> rfl

theorem applyStores_runtimes (index : Nat) (temp subdoc : Mem) (table : List (Option Runtime)) :
    applyStores subdoc (storesTo .subdoc1 (runtimesStores index temp subdoc table)) =
      addRuntimes index temp subdoc table := by
  induction table generalizing index temp subdoc with
  | nil => rfl
  | cons slot rest ih =>
      cases slot with
      | none => rfl
      | some runtime =>
          rw [runtimesStores, storesTo_append, storesTo_append, storesTo_onto,
            storesTo_other (by decide), List.nil_append, applyStores_append,
            applyStores_setSubdocument]
          exact ih _ _ _

theorem applyStores_storages (subdoc : Mem) (table : List (Option Storage)) :
    applyStores subdoc (storagesStores subdoc table) = addStorages subdoc table := by
  induction table generalizing subdoc with
  | nil => rfl
  | cons slot rest ih =>
      cases slot with
      | none => rfl
      | some storage =>
          rw [storagesStores, applyStores_append, applyStores_setString]
          exact ih _

theorem applyStores_info (setting : Setting) (output subdoc1 subdoc2 : Mem) :
    applyStores output (infoStores setting output subdoc1 subdoc2) =
      buildInfo setting output subdoc1 subdoc2 := rfl

/-! ## The stores of one document -/

theorem confined_append {first second : List (Target × Store)} :
    Confined setting (first ++ second) ↔ Confined setting first ∧ Confined setting second :=
  List.forall_mem_append

theorem confined_onto {target : Target} {stores : List Store} :
    Confined setting (onto target stores) ↔ AllInside (room setting target) stores :=
  List.forall_mem_map

theorem length_string_encode (front : Elements) (key text : CString) :
    (Elements.append front key (.string text)).encode.length =
      front.encode.length + elementSize key (text.bytes.length + 5) := by
  rw [length_append_encode, elementSize, Value.encode, List.length_append, List.length_append,
    length_bytes32, List.length_singleton]
  omega

theorem length_document_encode (front : Elements) (key : CString) (content : Elements) :
    (Elements.append front key (.subdocument content)).encode.length =
      front.encode.length + elementSize key (content.encode.length + 5) := by
  rw [length_append_encode, elementSize, Value.encode, length_documentBytes]

theorem length_stringBytes (string : CString) :
    (bytes32 (unsigned (stringSize string)) ++ string.bytes ++ [0]).length =
      string.bytes.length + 5 := by
  rw [List.length_append, List.length_append, length_bytes32, List.length_singleton]
  omega

theorem allInside_setString (occupies : Occupies garbage doc size) (key string : CString) :
    AllInside limit (setStringStores doc key string) ↔
      size + elementSize key (string.bytes.length + 5) ≤ limit := by
  rw [setStringStores, allInside_appendStores occupies, length_stringBytes]

theorem occupies_setString (occupies : Occupies garbage doc size) {key string : CString}
    (fits : size + elementSize key (string.bytes.length + 5) < 2 ^ 31) :
    Occupies garbage (into doc (bsonSetString (some doc) key string))
      (size + elementSize key (string.bytes.length + 5)) := by
  rw [← length_stringBytes] at fits ⊢
  exact occupies.append fits 0x02

theorem allInside_setSubdocument (occupies : Occupies garbage doc size) {subDoc : Mem}
    {content : Elements} (held : HoldsDocument subDoc 0 content) (key : CString) (type : UInt8) :
    AllInside limit (setSubdocumentStores doc key type subDoc) ↔
      size + elementSize key (content.encode.length + 5) ≤ limit := by
  rw [setSubdocumentStores, allInside_appendStores occupies, slice_document held,
    length_documentBytes]

theorem occupies_setSubdocument (occupies : Occupies garbage doc size) {subDoc : Mem}
    {content : Elements} (held : HoldsDocument subDoc 0 content) {key : CString} {type : UInt8}
    (fits : size + elementSize key (content.encode.length + 5) < 2 ^ 31) :
    Occupies garbage (into doc (setSubdocument (some doc) key type subDoc))
      (size + elementSize key (content.encode.length + 5)) := by
  rw [← length_documentBytes, ← slice_document held] at fits ⊢
  exact occupies.append fits type

/-- A runtime is stored inside `temp` exactly when its document fits there. -/
theorem runtime_inside (temp : Mem) (runtime : Runtime) :
    AllInside 64 (runtimeStores temp runtime) ↔
      (runtimeContent runtime).encode.length + 5 ≤ 64 := by
  obtain ⟨name, version⟩ := runtime
  have empty := occupies_create temp
  cases version with
  | none =>
      rw [runtimeStores, List.append_nil, allInside_append, allInside_create,
        allInside_setString empty, runtimeContent, length_string_encode]
      simp only [Elements.encode, List.length_nil]
      omega
  | some version =>
      rw [runtimeStores, allInside_append, allInside_append, allInside_create,
        allInside_setString empty, runtimeContent, length_string_encode, length_string_encode]
      by_cases fits : 5 + elementSize keyName (name.bytes.length + 5) ≤ 64
      · have shorter : 5 + elementSize keyName (name.bytes.length + 5) < 2 ^ 31 := by omega
        rw [allInside_setString (occupies_setString empty shorter)]
        simp only [Elements.encode, List.length_nil]
        omega
      · simp only [Elements.encode, List.length_nil]
        omega

/-- The runtimes are stored inside `temp` and the first document exactly when each fits into
one and all fit into the other. -/
theorem runtimes_inside (small : room setting .subdoc1 < 2 ^ 31) {table : List (Option Runtime)}
    {index : Nat} {temp : Mem} {front : Elements}
    (occupies : Occupies garbage doc (front.encode.length + 5))
    (fits : front.encode.length + 5 ≤ room setting .subdoc1) :
    Confined setting (runtimesStores index temp doc table) ↔
      (∀ runtime ∈ listed table, (runtimeContent runtime).encode.length + 5 ≤ 64) ∧
        (runtimesContent index front (listed table)).encode.length + 5 ≤
          room setting .subdoc1 := by
  induction table generalizing index temp front doc with
  | nil => exact iff_of_true nofun ⟨nofun, fits⟩
  | cons slot rest ih =>
      cases slot with
      | none => exact iff_of_true nofun ⟨nofun, fits⟩
      | some runtime =>
          rw [runtimesStores, confined_append, confined_append, confined_onto, confined_onto,
            listed, List.forall_mem_cons, runtimesContent]
          by_cases single : (runtimeContent runtime).encode.length + 5 ≤ 64
          · obtain ⟨sum, built⟩ := built_runtime temp single
            have longer := runtimesContent_length (index + 1)
              (.append front (subscript index) (.subdocument (runtimeContent runtime)))
              (listed rest)
            have next := length_document_encode front (subscript index) (runtimeContent runtime)
            rw [allInside_setSubdocument occupies built.holds.1]
            by_cases more : front.encode.length + 5 + elementSize (subscript index)
                ((runtimeContent runtime).encode.length + 5) ≤ room setting .subdoc1
            · have stored := @occupies_setSubdocument _ _ _ occupies _ _ built.holds.1
                (subscript index) 0x03 (by omega)
              rw [Nat.add_right_comm, ← next] at stored
              rw [show into doc (bsonSetSubdocument (some doc) (subscript index)
                (runtimeInfo temp runtime)) = into doc (setSubdocument (some doc)
                  (subscript index) 0x03 (runtimeInfo temp runtime)) from rfl,
                ih stored (by omega)]
              exact ⟨fun all => ⟨⟨single, all.2.2.1⟩, all.2.2.2⟩,
                fun all => ⟨(runtime_inside temp runtime).mpr single, more, all.1.2, all.2⟩⟩
            · exact iff_of_false (fun all => more all.2.1) fun all => by omega
          · exact iff_of_false (fun all => single ((runtime_inside temp runtime).mp all.1))
              fun all => single all.1.1

/-- The storages are stored inside the second document exactly when all fit into it. -/
theorem storages_inside (small : limit < 2 ^ 31) {table : List (Option Storage)}
    {front : Elements} (occupies : Occupies garbage doc (front.encode.length + 5))
    (fits : front.encode.length + 5 ≤ limit) :
    AllInside limit (storagesStores doc table) ↔
      (storagesContent front (listed table)).encode.length + 5 ≤ limit := by
  induction table generalizing front doc with
  | nil => exact iff_of_true nofun fits
  | cons slot rest ih =>
      cases slot with
      | none => exact iff_of_true nofun fits
      | some storage =>
          have longer := storagesContent_length
            (.append front storage.name (.string storage.path)) (listed rest)
          have next := length_string_encode front storage.name storage.path
          rw [storagesStores, allInside_append, allInside_setString occupies, listed,
            storagesContent]
          by_cases more : front.encode.length + 5 +
              elementSize storage.name (storage.path.bytes.length + 5) ≤ limit
          · have stored := @occupies_setString _ _ _ occupies storage.name storage.path (by omega)
            rw [Nat.add_right_comm, ← next] at stored
            rw [ih stored (by omega)]
            exact ⟨And.right, fun all => ⟨more, all⟩⟩
          · exact iff_of_false (fun all => more all.1) fun all => by omega

/-! ## The stores of the whole -/

theorem measure_setString {key string : CString}
    (short : elementSize key (string.bytes.length + 5) < 2 ^ 31) :
    (bsonSetString none key string).2 = (elementSize key (string.bytes.length + 5) : Nat) := by
  unfold elementSize at *
  simp only [bsonSetString]
  rw [stringSize_eq (by omega), stringSize_eq (by omega), wrap_of_range (by omega) (by omega)]
  omega

theorem measure_setSubdocument {subDoc : Mem} {content : Elements}
    (held : HoldsDocument subDoc 0 content) {key : CString}
    (short : elementSize key (content.encode.length + 5) < 2 ^ 31) (type : UInt8) :
    (setSubdocument none key type subDoc).2 =
      (elementSize key (content.encode.length + 5) : Nat) := by
  unfold elementSize at *
  simp only [setSubdocument, setSubelement]
  rw [slice_document held, length_documentBytes, stringSize_eq (by omega),
    wrap_of_range (by omega) (by omega)]
  omega

/-- The output is stored inside the length that was measured. -/
theorem info_inside {subdoc1 subdoc2 : Mem} {runtimes storages : Elements}
    (held1 : HoldsDocument subdoc1 0 runtimes) (held2 : HoldsDocument subdoc2 0 storages)
    (small : setting.rubicVersion.bytes.length + runtimes.encode.length +
      storages.encode.length + 64 < 2 ^ 31) (output : Mem) :
    AllInside (unsigned (measureInfo setting subdoc1 subdoc2))
      (infoStores setting output subdoc1 subdoc2) := by
  have version : elementSize keyRubicVersion (setting.rubicVersion.bytes.length + 5) =
      setting.rubicVersion.bytes.length + 19 := by
    rw [elementSize, Nat.add_comm keyRubicVersion.bytes.length]
    rfl
  have first : elementSize keyRuntimes (runtimes.encode.length + 5) =
      runtimes.encode.length + 15 := by
    rw [elementSize, Nat.add_comm keyRuntimes.bytes.length]
    rfl
  have second : elementSize keyStorages (storages.encode.length + 5) =
      storages.encode.length + 15 := by
    rw [elementSize, Nat.add_comm keyStorages.bytes.length]
    rfl
  have len : unsigned (measureInfo setting subdoc1 subdoc2) =
      setting.rubicVersion.bytes.length + runtimes.encode.length + storages.encode.length + 54 := by
    simp only [measureInfo, bsonSetArray, bsonSetSubdocument, bsonEmptySize]
    rw [measure_setString (by omega), measure_setSubdocument held1 (by omega),
      measure_setSubdocument held2 (by omega), version, first, second,
      @wrap_of_range (5 + (setting.rubicVersion.bytes.length + 19 : Nat)) (by omega) (by omega),
      @wrap_of_range (5 + (setting.rubicVersion.bytes.length + 19 : Nat) +
        (runtimes.encode.length + 15 : Nat)) (by omega) (by omega),
      wrap_of_range (by omega) (by omega), unsigned_of_nonneg (by omega) (by omega)]
    omega
  have empty := occupies_create output
  have named := @occupies_setString _ _ _ empty keyRubicVersion setting.rubicVersion (by omega)
  have listed := @occupies_setSubdocument _ _ _ named _ _ held1 keyRuntimes 0x04 (by omega)
  simp only [infoStores, bsonSetArray, allInside_append, allInside_create]
  rw [allInside_setString empty, allInside_setSubdocument named held1,
    allInside_setSubdocument listed held2]
  omega

/-- `generate_info` stores inside its buffers exactly when it gets no memory, or what it
builds in the buffers of a fixed size fits there. -/
theorem stores_confined_iff (malloc : Allocator) (temp : Nat → Mem) (setting : Setting)
    (calls : List Info.Call) :
    Confined setting (generateInfoStores malloc temp setting
        (performAll malloc temp setting (initial setting) calls)) ↔
      malloc (performAll malloc temp setting (initial setting) calls).mallocs
          (64 * (setting.maxRuntimes + setting.maxStorages)) = none ∨
        Fits setting (performAll malloc temp setting (initial setting) calls) := by
  generalize performAll malloc temp setting (initial setting) calls = state
  have small := setting.small
  rw [generateInfoStores]
  cases granted : malloc state.mallocs (64 * (setting.maxRuntimes + setting.maxStorages)) with
  | none => exact iff_of_true nofun (.inl rfl)
  | some block =>
      have fits1 (create : 5 ≤ room setting .subdoc1) :=
        @runtimes_inside setting block _ (by rw [room]; omega) state.runtimes 0
          (temp state.mallocs) .empty (occupies_create block) create
      have fits2 (create : 5 ≤ room setting .subdoc2) :=
        @storages_inside _ _ _ (by rw [room]; omega) state.storages .empty
          (occupies_create fun index => block (64 * setting.maxRuntimes + index)) create
      simp only [confined_append, confined_onto, allInside_create, reduceCtorEq, false_or]
      constructor
      · rintro ⟨create1, create2, runtimes, storages, -⟩
        obtain ⟨single, all⟩ := (fits1 create1).mp runtimes
        exact ⟨single, all, (fits2 create2).mp storages⟩
      · intro fits
        have first := fits.runtimes
        have second := fits.storages
        have create1 : 5 ≤ room setting .subdoc1 := by
          rw [room]
          omega
        have create2 : 5 ≤ room setting .subdoc2 := by
          rw [room]
          omega
        obtain ⟨size1, subdoc1⟩ := built_runtimes fits.runtime 0 (temp state.mallocs)
          (.empty block) (by omega)
        obtain ⟨size2, subdoc2⟩ := @built_storages state.storages .empty _ _
          (.empty fun index => block (64 * setting.maxRuntimes + index)) (by omega)
        refine ⟨create1, create2, (fits1 create1).mpr ⟨fits.runtime, fits.runtimes⟩,
          (fits2 create2).mpr fits.storages, ?_⟩
        split
        · exact nofun
        · rw [confined_onto]
          exact info_inside subdoc1.holds.1 subdoc2.holds.1 (by omega) _

/-- A runtime with a name of 49 bytes. -/
theorem not_stores_confined_longName :
    ¬ Confined oneSlot (generateInfoStores plenty (fun _ _ => 0) oneSlot
      (performAll plenty (fun _ _ => 0) oneSlot (initial oneSlot)
        [.registerRuntime (some (.of (List.replicate 49 0x61) rfl)) none])) := by
  decide +kernel

end PeridotSw.Rubic.InfoBounds

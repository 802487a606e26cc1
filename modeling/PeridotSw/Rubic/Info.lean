import PeridotSw.Rubic.Agent
import PeridotSw.Bson.Document

/-!
# The information of the Rubic agent

`rubic_agent_method_info` builds a document from the tables of runtimes and storages the
first time it is called, and keeps it in `cached_info`.  Neither
`rubic_agent_register_runtime` nor `rubic_agent_register_storage` drops what is kept.
-/

namespace PeridotSw.Rubic.Info

open PeridotSw.Machine.Memory
open PeridotSw.Machine.Word
open PeridotSw.Bson.Read
open PeridotSw.Bson.Write
open PeridotSw.Bson.Document
open PeridotSw.Rpc.Sink (Allocator)
open PeridotSw.Rpc.Reply (into)
open PeridotSw.Rubic.Agent (enomem keyName)

/-! ## The tables -/

/-- A `rubic_agent_runtime` that has a name; no version is `NULL`. -/
structure Runtime where
  name : CString
  version : Option CString

/-- A `rubic_agent_storage` that has a name. -/
structure Storage where
  name : CString
  path : CString

/-- The settings of the package; the buffers of the agent are within the memory an `int`
can measure. -/
structure Setting where
  maxRuntimes : Nat
  maxStorages : Nat
  rubicVersion : CString
  small : 64 * (maxRuntimes + maxStorages) + rubicVersion.bytes.length + 64 < 2 ^ 31

/-- What of `rubic_agent_state_s` the information is made from, with the number of
allocations so far.  A slot without a name is `none`. -/
structure State where
  mallocs : Nat
  runtimes : List (Option Runtime)
  storages : List (Option Storage)
  cachedInfo : Option Mem

def initial (setting : Setting) : State where
  mallocs := 0
  runtimes := List.replicate setting.maxRuntimes none
  storages := List.replicate setting.maxStorages none
  cachedInfo := none

variable {α : Type}

/-- The loop of both registrations: the first slot without a name is filled; `none` for
`-ENOSPC`. -/
def fillSlot (entry : Option α) : List (Option α) → Option (List (Option α))
  | [] => none
  | none :: rest => some (entry :: rest)
  | some taken :: rest => (fillSlot entry rest).map (some taken :: ·)

/-- `rubic_agent_register_runtime`; a name may be `NULL` and leaves the slot without one. -/
def rubicAgentRegisterRuntime (name version : Option CString) (state : State) : Option State :=
  (fillSlot (name.map (Runtime.mk · version)) state.runtimes).map fun runtimes =>
    { state with runtimes := runtimes }

def rubicAgentRegisterStorage (name : Option CString) (path : CString) (state : State) :
    Option State :=
  (fillSlot (name.map (Storage.mk · path)) state.storages).map fun storages =>
    { state with storages := storages }

/-! ## The document -/

def keyVersion : CString := .of [0x76, 0x65, 0x72, 0x73, 0x69, 0x6f, 0x6e] rfl

def keyRubicVersion : CString :=
  .of [0x72, 0x75, 0x62, 0x69, 0x63, 0x56, 0x65, 0x72, 0x73, 0x69, 0x6f, 0x6e] rfl

def keyRuntimes : CString := .of [0x72, 0x75, 0x6e, 0x74, 0x69, 0x6d, 0x65, 0x73] rfl

def keyStorages : CString := .of [0x73, 0x74, 0x6f, 0x72, 0x61, 0x67, 0x65, 0x73] rfl

/-- `subscript[0]`, the difference where the sum was meant. -/
def subscriptByte (index : Nat) : UInt8 := UInt8.ofNat index - 0x30

def subscript (index : Nat) : CString :=
  if nul : subscriptByte index = 0 then ⟨[], nofun⟩
  else ⟨[subscriptByte index], List.forall_mem_singleton.mpr nul⟩

/-- What is written to `temp` for a runtime. -/
def runtimeInfo (temp : Mem) (runtime : Runtime) : Mem :=
  let empty := bsonCreateEmptyDocument temp
  let named := into empty (bsonSetString (some empty) keyName runtime.name)
  match runtime.version with
  | some version => into named (bsonSetString (some named) keyVersion version)
  | none => named

/-- The loop over the runtimes, up to the first slot without a name. -/
def addRuntimes : Nat → Mem → Mem → List (Option Runtime) → Mem
  | index, temp, subdoc, some runtime :: rest =>
      let info := runtimeInfo temp runtime
      addRuntimes (index + 1) info
        (into subdoc (bsonSetSubdocument (some subdoc) (subscript index) info)) rest
  | _, _, subdoc, _ => subdoc

/-- The loop over the storages, up to the first slot without a name. -/
def addStorages : Mem → List (Option Storage) → Mem
  | subdoc, some storage :: rest =>
      addStorages (into subdoc (bsonSetString (some subdoc) storage.name storage.path)) rest
  | subdoc, _ => subdoc

/-- The size of the output. -/
def measureInfo (setting : Setting) (subdoc1 subdoc2 : Mem) : Int :=
  let version := wrap (bsonEmptySize +
    (bsonSetString none keyRubicVersion setting.rubicVersion).2)
  let runtimes := wrap (version + (bsonSetArray none keyRuntimes subdoc1).2)
  wrap (runtimes + (bsonSetSubdocument none keyStorages subdoc2).2)

def buildInfo (setting : Setting) (output subdoc1 subdoc2 : Mem) : Mem :=
  let empty := bsonCreateEmptyDocument output
  let version := into empty (bsonSetString (some empty) keyRubicVersion setting.rubicVersion)
  let runtimes := into version (bsonSetArray (some version) keyRuntimes subdoc1)
  into runtimes (bsonSetSubdocument (some runtimes) keyStorages subdoc2)

/-- `generate_info`, with what `temp` holds before it.  The second document lies in the other
half of the first block; as it is built apart, this says what the source does only as long as
the first document stays in its half. -/
def generateInfo (malloc : Allocator) (temp : Nat → Mem) (setting : Setting) (state : State) :
    State × Int32 :=
  match malloc state.mallocs (64 * (setting.maxRuntimes + setting.maxStorages)) with
  | none => ({ state with mallocs := state.mallocs + 1, cachedInfo := none }, -enomem)
  | some block =>
      let half : Mem := fun index => block (64 * setting.maxRuntimes + index)
      let subdoc1 := addRuntimes 0 (temp state.mallocs) (bsonCreateEmptyDocument block)
        state.runtimes
      let subdoc2 := addStorages (bsonCreateEmptyDocument half) state.storages
      match malloc (state.mallocs + 1) (unsigned (measureInfo setting subdoc1 subdoc2)) with
      | none => ({ state with mallocs := state.mallocs + 2, cachedInfo := none }, -enomem)
      | some output =>
          ({ state with
              mallocs := state.mallocs + 2
              cachedInfo := some (buildInfo setting output subdoc1 subdoc2) }, 0)

/-- The bytes of a document. -/
def documentOf (doc : Mem) : List UInt8 := slice doc 0 (unsigned (bsonMeasureDocument doc))

/-- `rubic_agent_method_info`, with the document it returns. -/
def rubicAgentMethodInfo (malloc : Allocator) (temp : Nat → Mem) (setting : Setting)
    (state : State) : State × Option (List UInt8) :=
  let generated := match state.cachedInfo with
    | some _ => (state, 0)
    | none => generateInfo malloc temp setting state
  match generated.1.cachedInfo with
  | some cached =>
      if generated.2 ≠ 0 then
        (generated.1, none)
      else
        ({ generated.1 with mallocs := generated.1.mallocs + 1 },
          (malloc generated.1.mallocs (unsigned (bsonMeasureDocument cached))).map fun _ =>
            documentOf cached)
  | none => (generated.1, none)

/-! ## Sequences of calls -/

inductive Call where
  | registerRuntime (name version : Option CString)
  | registerStorage (name : Option CString) (path : CString)
  | info

def perform (malloc : Allocator) (temp : Nat → Mem) (setting : Setting) (state : State) :
    Call → State × Option (List UInt8)
  | .registerRuntime name version =>
      ((rubicAgentRegisterRuntime name version state).getD state, none)
  | .registerStorage name path => ((rubicAgentRegisterStorage name path state).getD state, none)
  | .info => rubicAgentMethodInfo malloc temp setting state

def performAll (malloc : Allocator) (temp : Nat → Mem) (setting : Setting) (state : State)
    (calls : List Call) : State :=
  calls.foldl (fun state call => (perform malloc temp setting state call).1) state

end PeridotSw.Rubic.Info

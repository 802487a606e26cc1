import PeridotSw.Machine.Memory

/-!
# Paths the client may open

`peridot_client_fs` keeps a linked list of path entries, filled from three lists with
colons between the paths and by two functions that add one path each.  A path asked for
is checked against the entries in order.
-/

namespace PeridotSw.Client.Paths

open PeridotSw.Machine.Memory

/-! ## Constants of the C library -/

def oAccmode : Nat := 3
def oRdonly : Nat := 0
def oWronly : Nat := 1
def oRdwr : Nat := 2
def oDirectory : Nat := 0x200000

def colon : UInt8 := 0x3a
def slash : UInt8 := 0x2f

/-- `(flags & O_ACCMODE) + 1`, of the bits of an `int`. -/
def accmode (flags : Nat) : Nat := (flags &&& oAccmode) + 1

/-! ## Entries -/

/-- `peridot_client_fs_path_entry`; `len` is the length of `name`. -/
structure PathEntry where
  flags : Nat
  name : List UInt8
  deriving DecidableEq

/-- The list from `ll_first` to `ll_last`, and the number of times `malloc` was called. -/
structure PathList where
  entries : List PathEntry
  mallocs : Nat

/-- `peridot_client_fs_add_path`; `malloc` tells which of its calls succeed.  Whether the
name is copied makes no difference to the list. -/
def peridotClientFsAddPath (malloc : Nat → Bool) (paths : PathList) (path : List UInt8)
    (flags : Nat) : PathList where
  entries :=
    if malloc paths.mallocs then
      paths.entries ++ [⟨flags &&& (oAccmode ||| oDirectory), path⟩]
    else
      paths.entries
  mallocs := paths.mallocs + 1

/-- `find_separator`: the number of bytes in front of it. -/
def findSeparator : List UInt8 → Nat
  | [] => 0
  | ch :: text => if ch = colon then 0 else findSeparator text + 1

/-- `peridot_client_fs_add_list`, for at most `count` passes of its loop. -/
def peridotClientFsAddList (malloc : Nat → Bool) (flags : Nat) :
    Nat → PathList → List UInt8 → PathList
  | 0, paths, _ => paths
  | count + 1, paths, list =>
      let next := findSeparator list
      if next = 0 then
        if list ≠ [] then
          peridotClientFsAddList malloc flags count paths (list.drop 1)
        else
          paths
      else
        let added :=
          if list[next - 1]? = some slash then
            peridotClientFsAddPath malloc paths (list.take (next - 1)) (flags ||| oDirectory)
          else
            peridotClientFsAddPath malloc paths (list.take next) flags
        if list.drop next = [] then added
        else peridotClientFsAddList malloc flags count added (list.drop (next + 1))

/-- The lists `peridot_client_fs_init` adds. -/
def peridotClientFsInit (malloc : Nat → Bool) (rwPath roPath woPath : CString) : PathList :=
  let addList (paths : PathList) (list : CString) (flags : Nat) : PathList :=
    peridotClientFsAddList malloc flags (list.bytes.length + 1) paths list.bytes
  addList (addList (addList ⟨[], 0⟩ rwPath oRdwr) roPath oRdonly) woPath oWronly

/-- A call of `peridot_client_fs_add_file` or `peridot_client_fs_add_directory`. -/
structure AddCall where
  directory : Bool
  path : CString
  flags : Nat
  nonempty : path.bytes ≠ []

def peridotClientFsAddFile (malloc : Nat → Bool) (paths : PathList) (path : CString)
    (flags : Nat) : PathList :=
  peridotClientFsAddPath malloc paths path.bytes (flags &&& oAccmode)

def peridotClientFsAddDirectory (malloc : Nat → Bool) (paths : PathList) (path : CString)
    (flags : Nat) : PathList :=
  let len := path.bytes.length
  let len := if path.bytes[len - 1]? = some slash then len - 1 else len
  peridotClientFsAddPath malloc paths (path.bytes.take len) ((flags &&& oAccmode) ||| oDirectory)

def addOne (malloc : Nat → Bool) (paths : PathList) (call : AddCall) : PathList :=
  if call.directory then peridotClientFsAddDirectory malloc paths call.path call.flags
  else peridotClientFsAddFile malloc paths call.path call.flags

/-- The entries after initialisation and some calls. -/
def pathEntries (malloc : Nat → Bool) (rwPath roPath woPath : CString) (calls : List AddCall) :
    List PathEntry :=
  (calls.foldl (addOne malloc) (peridotClientFsInit malloc rwPath roPath woPath)).entries

/-! ## The check -/

/-- The loop of `peridot_client_fs_validate_path`. -/
def validateEntries (path : CString) (len accRequested : Nat) : List PathEntry → Int
  | [] => 0
  | entry :: next =>
      if len < entry.name.length then
        validateEntries path len accRequested next
      else if path.bytes.take entry.name.length ≠ entry.name then
        validateEntries path len accRequested next
      else if accmode entry.flags &&& accRequested ≠ accRequested then
        0
      else
        let sep := path.bytes[entry.name.length]?.getD 0
        if entry.flags &&& oDirectory ≠ 0 then
          if sep = slash ∨ sep = 0 then 1 else validateEntries path len accRequested next
        else
          if sep = 0 then 1 else validateEntries path len accRequested next

def peridotClientFsValidatePath (entries : List PathEntry) (path : CString) (flags : Nat) : Int :=
  let accRequested := accmode flags
  let len := path.bytes.length
  if len = 0 then
    0
  else
    let len := if path.bytes[len - 1]? = some slash then len - 1 else len
    validateEntries path len accRequested entries

end PeridotSw.Client.Paths

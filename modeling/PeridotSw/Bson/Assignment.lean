import PeridotSw.Bson.Offsets

/-!
# Variables that have been assigned

The variables for the offsets are given to `bson_get_props` with anything in them.  It clears
them behind its look at the length and the last byte of the document: when this fails, they
stay as they are.
-/

namespace PeridotSw.Bson.Assignment

open PeridotSw.Machine.Memory
open PeridotSw.Bson.Read
open PeridotSw.Bson.Walk
open PeridotSw.Bson.Offsets

variable {mem : Mem} {doc : Nat} {names : List CString}

end PeridotSw.Bson.Assignment

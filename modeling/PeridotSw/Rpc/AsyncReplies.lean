import PeridotSw.Bson.Lookup
import PeridotSw.Bson.Offsets
import PeridotSw.Rpc.ReplyLaw

/-!
# Replies sent at once and later

A synchronous method is replied to with the offset of the id that the search for all
members of the request has found.  For an asynchronous one the id is searched for again,
alone, when the outcome is reported.  The request may be any bytes: if the first search
succeeded, the second comes to the same element, and both replies are the same.
-/

namespace PeridotSw.Rpc.AsyncReplies

open PeridotSw.Machine.Memory
open PeridotSw.Machine.Word
open PeridotSw.Bson.Read
open PeridotSw.Bson.Write
open PeridotSw.Bson.Walk
open PeridotSw.Bson.Document
open PeridotSw.Bson.Lookup
open PeridotSw.Bson.Offsets (cleared_eq_keys bsonGetProps_opens bsonGetProps_shut)
open PeridotSw.Rpc.Reply
open PeridotSw.Rpc.ReplyLaw
open PeridotSw.Rpc.Sink (Allocator)

variable {mem : Mem}

/-! ## Searching for one key of several -/

/-- An element of this name is wanted for one of the variables. -/
def Wanted (name : CString) (params : List Param) : Prop :=
  ∃ param ∈ params, param.offset < 0 ∧ param.key = name

instance (name : CString) (params : List Param) : Decidable (Wanted name params) :=
  inferInstanceAs (Decidable (∃ param ∈ params, param.offset < 0 ∧ param.key = name))

theorem map_assign_unwanted {name : CString} {offset : Int} {params : List Param}
    (unwanted : ¬ Wanted name params) : params.map (assign name offset) = params := by
  have each : ∀ param ∈ params, assign name offset param = id param :=
    fun param listed => if_neg fun both => unwanted ⟨param, listed, both⟩
  rw [List.map_congr_left each, List.map_id]

/-- One turn of the loop at an element whose name ends in the document. -/
theorem scanElements_named {doc stop total count data scanned value : Nat}
    {params found : List Param} (item : Item mem stop data value) (behind : doc ≤ data)
    (distinct : (params.map Param.key).Nodup)
    (offers : params.map (assign item.name.text ((data - doc : Nat) : Int)) = found) {now : Nat}
    (counted : (if Wanted item.name.text params then scanned + 1 else scanned) = now) :
    (scanElements doc stop total (count + 1) data scanned params).eval mem =
      if Wanted item.name.text params ∧ now = total then ((now : Int), found)
      else if (measureValue (mem data) value stop).eval mem < 0 then (-1, found)
      else
        (scanElements doc stop total count
          (value + ((measureValue (mem data) value stop).eval mem).toNat) now found).eval mem := by
  have skipped : (skipString (data + 1) stop).eval mem = some value :=
    (skipString_eq_some_iff (data + 1) stop value).mpr item.name
  have offered := @eval_offerName mem doc (data + 1) _ (by omega) item.name.holds _ distinct
  have place : data + 1 - 1 - doc = data - doc := by omega
  rw [place, offers] at offered
  change _ = if Wanted item.name.text params then _ else _ at offered
  rw [scanElements, if_pos item.inside, Access.eval_bind, Access.eval_byte, if_neg item.typed]
  by_cases wanted : Wanted item.name.text params
  · rw [if_pos wanted] at counted offered
    simp only [Access.eval_bind, skipped, offered, Option.isSome_some, if_true, Option.getD_some,
      counted, wanted, true_and]
    split
    case isTrue => rfl
    case isFalse =>
      simp only [Access.eval_bind]
      split <;> rfl
  · rw [map_assign_unwanted wanted] at offers
    rw [if_neg wanted] at counted offered
    simp only [Access.eval_bind, skipped, offered, Option.isSome_none, Bool.false_eq_true,
      false_and, if_false, Option.getD_none, counted, wanted, ← offers]
    split <;> rfl

/-- Where there is no element the loop ends or fails, with the variables as they are. -/
theorem scanElements_unnamed {doc stop total count data scanned : Nat} {params : List Param}
    (unnamed : ∀ value, ¬ Item mem stop data value) :
    (scanElements doc stop total (count + 1) data scanned params).eval mem =
      if data < stop ∧ mem data ≠ 0 then (-1, params) else ((scanned : Int), params) := by
  by_cases open' : data < stop
  · by_cases typed : mem data = 0
    · simp [scanElements, open', typed]
    · have skipped : (skipString (data + 1) stop).eval mem = none :=
        (skipString_eq_none_iff (data + 1) stop).mpr fun value name =>
          unnamed value ⟨open', typed, name⟩
      simp [scanElements, open', typed, skipped]
  · simp [scanElements, open']

/-- Where each key occurs once, a variable with its offset stays as and where it is. -/
theorem scanElements_keeps {doc stop total count data scanned : Nat} {params : List Param}
    (behind : doc ≤ data) (distinct : (params.map Param.key).Nodup) {index : Nat} {param : Param}
    (given : 0 ≤ param.offset) (here : params[index]? = some param) :
    ((scanElements doc stop total count data scanned params).eval mem).2[index]? =
      some param := by
  induction count generalizing data scanned params with
  | zero => exact here
  | succ count ih =>
      by_cases item : ∃ value, Item mem stop data value
      · obtain ⟨value, item⟩ := item
        have kept : (params.map (assign item.name.text ((data - doc : Nat) : Int)))[index]? =
            some param := by
          rw [List.getElem?_map, here, Option.map_some, assign_of_nonneg given]
        have after := item.name.after
        obtain ⟨now, counted⟩ : ∃ now,
          (if Wanted item.name.text params then scanned + 1 else scanned) = now := ⟨_, rfl⟩
        rw [scanElements_named item behind distinct rfl counted]
        split
        case isTrue => exact kept
        case isFalse =>
          split
          case isTrue => exact kept
          case isFalse =>
            exact ih (by omega) (by rw [map_assign_keys]; exact distinct) kept
      · rw [scanElements_unnamed (not_exists.mp item)]
        split <;> exact here

/-- The outcome of a search for a key alone, when a search for more keys has left `offset`
in its variable. -/
def alone (key : CString) (offset : Int) : Int × List Param :=
  (if offset < 0 then 0 else 1, [⟨key, offset⟩])

section

variable {doc stop count data value : Nat} {key : CString}

theorem nodup_alone (key : CString) : (([⟨key, -1⟩] : List Param).map Param.key).Nodup :=
  List.nodup_cons.mpr ⟨List.not_mem_nil, List.nodup_nil⟩

/-- The search for a key alone ends at the first element of its name. -/
theorem scanElements_hit (item : Item mem stop data value) (behind : doc ≤ data)
    (named : key = item.name.text) :
    (scanElements doc stop 1 (count + 1) data 0 [⟨key, -1⟩]).eval mem =
      alone key ((data - doc : Nat) : Int) := by
  have wanted : Wanted item.name.text [⟨key, -1⟩] := ⟨_, .head _, Int.negSucc_lt_zero 0, named⟩
  have taken : assign item.name.text ((data - doc : Nat) : Int) ⟨key, -1⟩ =
      ⟨key, ((data - doc : Nat) : Int)⟩ := if_pos ⟨Int.negSucc_lt_zero 0, named⟩
  rw [scanElements_named item behind (nodup_alone key) rfl (if_pos wanted), if_pos ⟨wanted, rfl⟩,
    List.map_singleton, taken, alone, if_neg (Int.not_lt.mpr (Int.natCast_nonneg _))]
  rfl

/-- Over other elements it goes on. -/
theorem scanElements_miss (item : Item mem stop data value) (behind : doc ≤ data)
    (other : key ≠ item.name.text) :
    (scanElements doc stop 1 (count + 1) data 0 [⟨key, -1⟩]).eval mem =
      if (measureValue (mem data) value stop).eval mem < 0 then (-1, [⟨key, -1⟩])
      else (scanElements doc stop 1 count
        (value + ((measureValue (mem data) value stop).eval mem).toNat) 0 [⟨key, -1⟩]).eval mem := by
  have unwanted : ¬ Wanted item.name.text [⟨key, -1⟩] := by
    rintro ⟨param, listed, -, same⟩
    rw [List.mem_singleton.mp listed] at same
    exact other same
  have passed : assign item.name.text ((data - doc : Nat) : Int) ⟨key, -1⟩ = ⟨key, -1⟩ :=
    if_neg fun both => other both.2
  rw [@scanElements_named mem doc stop 1 count data 0 value _ _ item behind (nodup_alone key) rfl 0
    (if_neg unwanted), if_neg fun both => unwanted both.1, List.map_singleton, passed]

/-- The variables that have their offset are counted on. -/
theorem settled_found {params : List Param} (distinct : (params.map Param.key).Nodup)
    {name : CString} (offset : Nat) :
    (if Wanted name params then settled params + 1 else settled params) =
      settled (params.map (assign name (offset : Int))) := by
  rw [settled_assign (Int.natCast_nonneg offset) distinct]
  change _ = settled params + if Wanted name params then 1 else 0
  split <;> rfl

/-- A search is not done while a variable has no offset. -/
theorem settled_ne_length {params : List Param} {index : Nat}
    (here : params[index]? = some ⟨key, -1⟩) : settled params ≠ params.length := by
  intro all
  have positive := List.countP_eq_length.mp all _ (List.mem_of_getElem? here)
  simp at positive

end

/-- A search that succeeds for several keys comes to the same element for one of them as a
search for that key alone. -/
theorem scanElements_alone {doc stop count data : Nat} {params : List Param}
    (behind : doc ≤ data) (distinct : (params.map Param.key).Nodup) {index : Nat} {key : CString}
    (here : params[index]? = some ⟨key, -1⟩)
    (succeeds : 0 ≤ ((scanElements doc stop params.length count data (settled params)
      params).eval mem).1) :
    ∃ offset, ((scanElements doc stop params.length count data (settled params)
        params).eval mem).2[index]? = some ⟨key, offset⟩ ∧
      (scanElements doc stop 1 count data 0 [⟨key, -1⟩]).eval mem = alone key offset := by
  induction count generalizing data params with
  | zero => exact ⟨-1, here, rfl⟩
  | succ count ih =>
      by_cases item : ∃ value, Item mem stop data value
      swap
      · rw [scanElements_unnamed (not_exists.mp item)] at succeeds ⊢
        rw [scanElements_unnamed (not_exists.mp item)]
        by_cases broken : data < stop ∧ mem data ≠ 0
        · rw [if_pos broken] at succeeds
          cases succeeds
        · rw [if_neg broken, if_neg broken]
          exact ⟨-1, here, rfl⟩
      obtain ⟨value, item⟩ := item
      have after := item.name.after
      obtain ⟨found, offers⟩ : ∃ found,
        params.map (assign item.name.text ((data - doc : Nat) : Int)) = found := ⟨_, rfl⟩
      have keys : (found.map Param.key).Nodup := by
        rw [← offers, map_assign_keys]
        exact distinct
      have size : found.length = params.length := by rw [← offers, List.length_map]
      have there : found[index]? =
          some (assign item.name.text ((data - doc : Nat) : Int) ⟨key, -1⟩) := by
        rw [← offers, List.getElem?_map, here, Option.map_some]
      have now := @settled_found params distinct item.name.text (data - doc)
      rw [offers] at now
      rw [scanElements_named item behind distinct offers now] at succeeds ⊢
      by_cases named : key = item.name.text
      · have fresh : 0 ≤ ((data - doc : Nat) : Int) := Int.natCast_nonneg _
        rw [assign, if_pos ⟨Int.negSucc_lt_zero 0, named⟩] at there
        refine ⟨((data - doc : Nat) : Int), ?_, scanElements_hit item behind named⟩
        split
        case isTrue => exact there
        case isFalse =>
          split
          case isTrue => exact there
          case isFalse => exact scanElements_keeps (by omega) keys fresh there
      · rw [assign, if_neg fun both => named both.2] at there
        have unfinished : settled found ≠ params.length := size ▸ settled_ne_length there
        rw [scanElements_miss item behind named]
        rw [if_neg fun both => unfinished both.2] at succeeds ⊢
        by_cases broken : (measureValue (mem data) value stop).eval mem < 0
        · rw [if_pos broken] at succeeds
          cases succeeds
        · rw [if_neg broken] at succeeds ⊢
          rw [if_neg broken]
          rw [← size] at succeeds ⊢
          exact ih (by omega) keys there succeeds

/-- The search for one of the keys of `bson_get_props` alone. -/
theorem bsonGetProps_alone {doc index : Nat} {params : List Param}
    (distinct : (params.map Param.key).Nodup) {key : CString} {before stale : Int}
    (here : params[index]? = some ⟨key, before⟩)
    (succeeds : 0 ≤ ((bsonGetProps doc params).eval mem).1) :
    ∃ offset, ((bsonGetProps doc params).eval mem).2[index]? = some ⟨key, offset⟩ ∧
      (bsonGetProps doc [⟨key, stale⟩]).eval mem = alone key offset := by
  by_cases open' : ∃ stop, Opens mem doc stop
  · obtain ⟨stop, opens⟩ := open'
    rw [bsonGetProps_opens opens, ← cleared_eq_keys] at succeeds ⊢
    rw [bsonGetProps_opens opens]
    change 0 ≤ ((scanElements doc _ _ _ _ 0 (cleared params)).eval mem).1 at succeeds
    have cleared' : (cleared params)[index]? = some ⟨key, -1⟩ := by
      rw [cleared, List.getElem?_map, here]
      rfl
    rw [← settled_cleared params, ← length_cleared params] at succeeds
    obtain ⟨offset, found, single⟩ := scanElements_alone (Nat.le_add_right doc 4)
      ((cleared_keys params).symm ▸ distinct) cleared' succeeds
    rw [settled_cleared, length_cleared] at found
    exact ⟨offset, found, single⟩
  · rw [bsonGetProps_shut open'] at succeeds
    cases succeeds

/-! ## Requests that are dispatched -/

/-- The function a request is handed to, with the pointer to its parameters, and
`off_id`; `none` for a request that is refused. -/
def dispatched (methods : List MethodEntry) (stale : Fin 4 → Int) (input : Mem) :
    Option (Handler × Option Nat × Int) :=
  let props := (bsonGetProps 0 (requestParams stale)).eval input
  if props.1 ≤ 0 then none
  else if (versionMatches (offsetAt props.2 0)).eval input = false then none
  else do
    let method ← (bsonGetString (some 0) (offsetAt props.2 1)).eval input
    let entry ← (findMethod method methods).eval input
    pure (entry.handler, (bsonGetSubdocument (some 0) (offsetAt props.2 2)).eval input,
      offsetAt props.2 3)

/-- How the request goes on when its function is called. -/
def called (handler : Handler) (params : Option Nat) (offId : Int) (input : Mem) : Verdict :=
  let finish (result : Option Mem) (errno : Int32) : Verdict :=
    if offId < 0 then .notification result
    else .reply result (if result.isSome then 0 else errno)
  match handler with
  | .sync function => finish (function input params).1 (function input params).2
  | .async function =>
      let errno := function input params
      if errno = 0 then .queued else finish none errno

theorem judge_dispatched {methods : List MethodEntry} {stale : Fin 4 → Int} {input : Mem}
    {handler : Handler} {params : Option Nat} {offId : Int}
    (found : dispatched methods stale input = some (handler, params, offId)) :
    judge methods stale input = (called handler params offId input, offId) := by
  simp only [dispatched, judge] at found ⊢
  split at found
  case isTrue => cases found
  case isFalse known =>
    rw [if_neg known]
    split at found
    case isTrue => cases found
    case isFalse version =>
      rw [if_neg version]
      obtain ⟨method, named, found⟩ := Option.bind_eq_some_iff.mp found
      obtain ⟨entry, registered, found⟩ := Option.bind_eq_some_iff.mp found
      cases found
      rw [named]
      simp only [dispatch, registered]
      cases entry.handler <;> rfl

/-- What the first search has found, the search for the id alone finds. -/
theorem id_dispatched {methods : List MethodEntry} {stale : Fin 4 → Int} {input : Mem}
    {handler : Handler} {params : Option Nat} {offId : Int}
    (found : dispatched methods stale input = some (handler, params, offId)) (single : Int) :
    (bsonGetProps 0 [⟨keyId, single⟩]).eval input = alone keyId offId := by
  have distinct : ((requestParams stale).map Param.key).Nodup := by
    simp [requestParams, keyJsonrpc, keyMethod, keyParams, keyId]
  have here : (requestParams stale)[3]? = some ⟨keyId, stale 3⟩ := rfl
  simp only [dispatched] at found
  split at found
  case isTrue => cases found
  case isFalse known =>
    obtain ⟨offset, four, one⟩ := @bsonGetProps_alone input 0 3 _ distinct keyId _ single here
      (by omega)
    split at found
    case isTrue => cases found
    case isFalse =>
      obtain ⟨method, -, found⟩ := Option.bind_eq_some_iff.mp found
      obtain ⟨entry, -, found⟩ := Option.bind_eq_some_iff.mp found
      cases found
      rw [one, offsetAt, four]
      rfl

/-! ## The replies -/

def bytesSent (effects : List Effect) : List (List UInt8) :=
  (sources effects).map fun (output, length) => slice output 0 (unsigned length)

/-- The bytes of the error document do not depend on the local buffer. -/
theorem slice_errorDocument (buffer other : Mem) (errno : Int32) :
    slice (errorDocument buffer none errno) 0
        (unsigned (bsonMeasureDocument (errorDocument buffer none errno))) =
      slice (errorDocument other none errno) 0
        (unsigned (bsonMeasureDocument (errorDocument other none errno))) :=
  (slice_document (errorDocument_held buffer errno)).trans
    (slice_document (errorDocument_held other errno)).symm

theorem setSubdocument_errorDocument (buffer other : Mem) (result : Option Mem) (errno : Int32)
    (doc : Option Mem) :
    bsonSetSubdocument doc keyError (errorDocument buffer result errno) =
      bsonSetSubdocument doc keyError (errorDocument other result errno) := by
  cases result with
  | some error => rfl
  | none => simp only [bsonSetSubdocument, setSubdocument, slice_errorDocument buffer other]

theorem sendReply_buffer (malloc : Allocator) (buffer other input : Mem) (offId : Int)
    (result : Option Mem) (errno : Int32) :
    sendReply malloc buffer input offId result errno =
      sendReply malloc other input offId result errno := by
  have same := setSubdocument_errorDocument buffer other
  simp only [sendReply, replyPass, measureReply, buildReply, same]

/-- A reported outcome does what the outcome of a synchronous method does. -/
theorem callback_called {input : Mem} {offId : Int}
    {function : Mem → Option Nat → Option Mem × Int32} {params : Option Nat} (single : Int)
    (alone' : (bsonGetProps 0 [⟨keyId, single⟩]).eval input = alone keyId offId)
    (outcome : (function input params).1 = none ∨ (function input params).2 = 0)
    (malloc : Allocator) (buffer other : Mem) :
    peridotRpcServerAsyncCallback malloc other single input (function input params).1
        (function input params).2 =
      match called (.sync function) params offId input with
      | .reply result errno => sendReply malloc buffer input offId result errno
      | .notification result => onResult result .free ++ [.free .job]
      | .queued => [] := by
  simp only [peridotRpcServerAsyncCallback, asyncReply, alone', called, alone]
  generalize function input params = returned at outcome ⊢
  obtain ⟨result, errno⟩ := returned
  have passed : (if errno = 0 then result else none) = result := by
    rcases outcome with silent | zero
    · rw [show result = none from silent, ite_self]
    · exact if_pos zero
  have number : (if result.isSome then 0 else errno) = errno := by
    rcases outcome with silent | zero
    · rw [show result = none from silent]
      rfl
    · rw [show errno = 0 from zero, ite_self]
  simp only [passed, number]
  by_cases absent : offId < 0
  · simp only [if_pos absent]
    rfl
  · simp only [if_neg absent, if_true]
    exact sendReply_buffer malloc other buffer input offId result errno

/-- A request is replied to in the same way by a method that returns an outcome and by one
that accepts the request and reports the outcome later. -/
theorem sync_async_agree {syncMethods asyncMethods : List MethodEntry}
    {stale stale' : Fin 4 → Int} {input : Mem}
    {function : Mem → Option Nat → Option Mem × Int32} {accept : Mem → Option Nat → Int32}
    {params params' : Option Nat} {offId offId' : Int}
    (sync : dispatched syncMethods stale input = some (.sync function, params, offId))
    (async : dispatched asyncMethods stale' input = some (.async accept, params', offId'))
    (outcome : (function input params).1 = none ∨ (function input params).2 = 0)
    (accepts : accept input params' = 0) (malloc : Allocator) (buffer buffer' buffer'' : Mem)
    (single : Int) :
    (bsonGetProps 0 [⟨keyId, single⟩]).eval input =
        (if offId < 0 then 0 else 1, [⟨keyId, offId⟩]) ∧
      bytesSent (peridotRpcServerService malloc syncMethods buffer stale (some input)) =
        bytesSent (peridotRpcServerService malloc asyncMethods buffer' stale' (some input) ++
          peridotRpcServerAsyncCallback malloc buffer'' single input (function input params).1
            (function input params).2) := by
  have lookup := id_dispatched sync single
  have queued : called (.async accept) params' offId' input = .queued := if_pos accepts
  refine ⟨lookup, congrArg bytesSent ?_⟩
  rw [callback_called single lookup outcome malloc buffer buffer'']
  simp only [peridotRpcServerService, judge_dispatched sync, judge_dispatched async, queued,
    List.nil_append]
  generalize called (.sync function) params offId input = verdict
  cases verdict <;> rfl

/-- The request `{"jsonrpc": "2.0", "method": "m", "id": 7}` in memory. -/
def pinged : Mem := ((documentBytes ping.encode).getD · 0)

def reluctant : Allocator := fun attempt _ => if attempt = 0 then none else some fun _ => 0xff

theorem sync_async_agree_ping :
    (bsonGetProps 0 [⟨keyId, 99⟩]).eval pinged = (1, [⟨keyId, 35⟩]) ∧
      bytesSent (peridotRpcServerService reluctant [pong] (fun _ => 0xcc) (fun _ => 99)
          (some pinged)) =
        bytesSent (peridotRpcServerService reluctant [⟨.of [0x6d] rfl, .async fun _ _ => 0⟩]
            (fun _ => 0xdd) (fun _ => 98) (some pinged) ++
          peridotRpcServerAsyncCallback reluctant (fun _ => 0xee) 99 pinged none 0) :=
  sync_async_agree (show dispatched [pong] (fun _ => 99) pinged =
    some (.sync fun _ _ => (none, 0), none, 35) by rfl)
    (show dispatched [⟨.of [0x6d] rfl, .async fun _ _ => 0⟩] (fun _ => 98) pinged =
      some (.async fun _ _ => 0, none, 35) by rfl)
    (.inl rfl) rfl reluctant _ _ _ 99

end PeridotSw.Rpc.AsyncReplies

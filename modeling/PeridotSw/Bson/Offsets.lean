import PeridotSw.Bson.Walk

/-!
# The offsets the scan produces

Whatever bytes are scanned, the offsets that end up in the variables are those of the
elements the scan comes to, and each of these can be asked for: by naming its key often
enough.
-/

namespace PeridotSw.Bson.Offsets

open PeridotSw.Machine.Memory
open PeridotSw.Machine.Word
open PeridotSw.Bson.Read
open PeridotSw.Bson.Walk

def keys (names : List CString) : List Param := names.map fun name => ⟨name, -1⟩

/-- The scan of a document for some keys gives one of them this offset. -/
def Produced (mem : Mem) (doc : Nat) (offset : Int) : Prop :=
  ∃ names, ∃ param ∈ ((bsonGetProps doc (keys names)).eval mem).2,
    param.offset = offset ∧ 0 ≤ offset

variable {mem : Mem}

/-- A length that is more than a length field, as the readers compare it. -/
theorem declared_cases (doc : Nat) :
    (4 < word mem doc ∧ word mem doc < 2 ^ 31 ∧
      (doc : Int) + signed (word mem doc) = (doc + word mem doc : Nat)) ∨
      (¬ (4 < word mem doc ∧ word mem doc < 2 ^ 31) ∧
        (doc : Int) + signed (word mem doc) ≤ (doc + 4 : Nat)) := by
  have bound := word_lt mem doc
  unfold signed
  split <;> omega

/-! ## Every offset is that of an element -/

/-- One element changes at most one variable, of its name, to its own offset. -/
theorem offerName_offsets {doc name : Nat} {params found : List Param}
    (outcome : (offerName doc name params).eval mem = some found) :
    ∀ param ∈ found, param ∈ params ∨
      (strcmpEq param.key.bytes name).eval mem = true ∧ param.offset = (name : Int) - 1 - doc := by
  induction params generalizing found with
  | nil => cases outcome
  | cons first rest ih =>
      simp only [offerName, Access.eval_bind] at outcome
      by_cases offered : (keyMatches first name).eval mem = true
      · rw [if_pos offered] at outcome
        cases outcome
        intro param listed
        rcases List.mem_cons.mp listed with rfl | later
        · refine .inr ⟨?_, rfl⟩
          unfold keyMatches at offered
          split at offered
          · exact offered
          · cases offered
        · exact .inl (.tail _ later)
      · rw [if_neg offered] at outcome
        simp only [Access.eval_bind, Access.eval_pure, Option.map_eq_some_iff] at outcome
        obtain ⟨others, inner, rfl⟩ := outcome
        intro param listed
        rcases List.mem_cons.mp listed with rfl | later
        · exact .inl (.head _)
        · exact (ih inner param later).imp_left (.tail _)

/-- One turn of the loop over the elements: there is no element; or the last variable
gets its offset; or the value cannot be measured; or the loop goes on behind it. -/
theorem scanElements_step {doc stop total count data scanned : Nat} {params : List Param}
    (near : stop ≤ data + 2 ^ 31) {offered : Option (List Param)}
    (outcome : (offerName doc (data + 1) params).eval mem = offered) {now : Nat}
    (counted : (if offered.isSome then scanned + 1 else scanned) = now)
    {result : Int × List Param}
    (scanned' : (scanElements doc stop total (count + 1) data scanned params).eval mem = result) :
    (result.2 = params ∧ ∀ value, ¬ Item mem stop data value) ∨
      ∃ value, Item mem stop data value ∧
        ((result = ((now : Int), offered.getD params) ∧ offered.isSome ∧ now = total) ∨
          (¬ (offered.isSome ∧ now = total) ∧
            ((result = (-1, offered.getD params) ∧
                ∀ length, ¬ Extent mem (mem data) value stop length) ∨
              ∃ length, Extent mem (mem data) value stop length ∧
                (scanElements doc stop total count (value + length) now
                  (offered.getD params)).eval mem = result))) := by
  unfold scanElements at scanned'
  by_cases open' : data < stop
  swap
  · rw [if_neg open'] at scanned'
    exact .inl ⟨scanned' ▸ rfl, fun value item => open' item.inside⟩
  rw [if_pos open', Access.eval_bind, Access.eval_byte] at scanned'
  by_cases typed : mem data = 0
  · rw [if_pos typed] at scanned'
    exact .inl ⟨scanned' ▸ rfl, fun value item => item.typed typed⟩
  rw [if_neg typed, Access.eval_bind] at scanned'
  cases skipped : (skipString (data + 1) stop).eval mem with
  | none =>
      rw [skipped] at scanned'
      exact .inl ⟨scanned' ▸ rfl, fun value item =>
        (skipString_eq_none_iff (data + 1) stop).mp skipped value item.name⟩
  | some value =>
      have name := (skipString_eq_some_iff (data + 1) stop value).mp skipped
      have after := name.after
      refine .inr ⟨value, ⟨open', typed, name⟩, ?_⟩
      simp only [skipped, Access.eval_bind, outcome, counted] at scanned'
      by_cases finished : offered.isSome = true ∧ now = total
      · rw [if_pos finished] at scanned'
        exact .inl ⟨scanned'.symm, finished⟩
      · rw [if_neg finished, Access.eval_bind] at scanned'
        refine .inr ⟨finished, ?_⟩
        have near' : stop ≤ value + 2 ^ 31 := by omega
        rcases measureValue_cases near' with ⟨length, measured, extent⟩ | ⟨negative, none⟩
        · rw [measured, if_neg (by omega), Int.toNat_natCast] at scanned'
          exact .inr ⟨length, extent, scanned'⟩
        · rw [if_pos negative] at scanned'
          exact .inl ⟨scanned'.symm, none⟩

/-- At an element that can be measured the loop is done or goes on behind it. -/
theorem scanElements_at {doc stop total count data scanned value length : Nat}
    {params : List Param} (near : stop ≤ data + 2 ^ 31) (item : Item mem stop data value)
    (extent : Extent mem (mem data) value stop length) {offered : Option (List Param)}
    (outcome : (offerName doc (data + 1) params).eval mem = offered) {now : Nat}
    (counted : (if offered.isSome then scanned + 1 else scanned) = now) :
    (scanElements doc stop total (count + 1) data scanned params).eval mem =
      if offered.isSome = true ∧ now = total then ((now : Int), offered.getD params)
      else (scanElements doc stop total count (value + length) now
        (offered.getD params)).eval mem := by
  rcases scanElements_step near outcome counted rfl with
    ⟨-, none⟩ | ⟨other, again, ⟨ended, finished⟩ |
      ⟨unfinished, ⟨-, none⟩ | ⟨other', same, continued⟩⟩⟩
  · exact absurd item (none value)
  · rw [ended, if_pos finished]
  · exact absurd (again.name.unique item.name ▸ extent) (none length)
  · obtain rfl := again.name.unique item.name
    obtain rfl := extent.unique same
    rw [if_neg unfinished, continued]

/-- What holds of the variables so far, and of one with the name and the offset of any element
the scan comes to, holds of all variables afterwards. -/
theorem scanElements_params (good : Param → Prop) {doc stop total : Nat}
    {count data scanned : Nat} {params : List Param} (near : stop ≤ data + 2 ^ 31)
    (elements : ∀ place value (item : Item mem stop place value), Leads mem stop data place →
      good ⟨item.name.text, (place : Int) - doc⟩)
    (given : ∀ param ∈ params, good param) :
    ∀ param ∈ ((scanElements doc stop total count data scanned params).eval mem).2,
      good param := by
  induction count generalizing data scanned params with
  | zero => exact given
  | succ count ih =>
      rcases scanElements_step near rfl rfl rfl with
        ⟨ended, -⟩ | ⟨value, item, outcome⟩
      · rw [ended]
        exact given
      have found : ∀ param ∈ ((offerName doc (data + 1) params).eval mem).getD params,
          good param := by
        cases offered : (offerName doc (data + 1) params).eval mem with
        | none => exact given
        | some found =>
            intro param listed
            rcases offerName_offsets offered param listed with old | ⟨named, new⟩
            · exact given param old
            · have same : ((data + 1 : Nat) : Int) - 1 - doc = (data : Int) - doc := by omega
              have key : param.key = item.name.text := (eval_strcmpEq item.name.holds).mp named
              have whole : param = ⟨item.name.text, (data : Int) - doc⟩ := by
                rw [← key, ← same, ← new]
              rw [whole]
              exact elements data value item (.here data)
      rcases outcome with ⟨ended, -⟩ | ⟨-, ⟨ended, -⟩ | ⟨length, extent, continued⟩⟩
      · rw [ended]
        exact found
      · rw [ended]
        exact found
      · have after := item.name.after
        rw [← continued]
        refine ih (by omega) (fun place other item' leads => ?_) found
        exact elements place other item' (.on item extent leads)

/-- The same of the offsets alone. -/
theorem scanElements_offsets (good : Int → Prop) {doc stop total : Nat} {count data scanned : Nat}
    {params : List Param} (near : stop ≤ data + 2 ^ 31)
    (elements : ∀ place value, Leads mem stop data place → Item mem stop place value →
      good ((place : Int) - doc))
    (given : ∀ param ∈ params, 0 ≤ param.offset → good param.offset) :
    ∀ param ∈ ((scanElements doc stop total count data scanned params).eval mem).2,
      0 ≤ param.offset → good param.offset :=
  scanElements_params (fun param => 0 ≤ param.offset → good param.offset) near
    (fun place value item leads _ => elements place value leads item) given

theorem cleared_eq_keys (params : List Param) :
    (params.map fun param => ({ param with offset := -1 } : Param)) =
      keys (params.map Param.key) := by
  rw [keys, List.map_map]
  rfl

/-- Of a document that opens, the elements are scanned with nothing found yet. -/
theorem bsonGetProps_opens {doc stop : Nat} (opens : Opens mem doc stop) (params : List Param) :
    (bsonGetProps doc params).eval mem =
      (scanElements doc stop params.length (stop - (doc + 4)) (doc + 4) 0
        (keys (params.map Param.key))).eval mem := by
  have declared := opens.declared
  have long := opens.long
  have ends : (doc : Int) + (word mem doc : Nat) = stop := by omega
  have last : ((stop : Int) - 1).toNat = stop - 1 := by omega
  simp only [bsonGetProps, Access.eval_bind, eval_readUnalignedInt,
    signed_eq_of_lt opens.short, ends]
  rw [if_neg (by omega), Access.eval_bind, Access.eval_byte, last,
    if_neg (not_not_intro opens.terminated), Int.toNat_natCast, cleared_eq_keys]

/-- Of one that does not, nothing is touched. -/
theorem bsonGetProps_shut {doc : Nat} (shut : ¬∃ stop, Opens mem doc stop)
    (params : List Param) : (bsonGetProps doc params).eval mem = (-1, params) := by
  simp only [bsonGetProps, Access.eval_bind, eval_readUnalignedInt]
  rcases @declared_cases mem doc with ⟨long, short, ends⟩ | ⟨-, ends⟩
  · have last : ((doc + word mem doc : Nat) - 1 : Int).toNat = doc + word mem doc - 1 := by omega
    rw [ends, if_neg (by omega), Access.eval_bind, Access.eval_byte, last]
    by_cases terminated : mem (doc + word mem doc - 1) = 0
    · exact absurd ⟨_, rfl, long, short, terminated⟩ shut
    · rw [if_pos terminated]
      rfl
  · rw [if_pos ends]
    rfl

/-- The offset of an element the scan comes to. -/
def ElementAt (mem : Mem) (doc : Nat) (offset : Int) : Prop :=
  ∃ place value stop : Nat, offset = (place : Int) - doc ∧ Opens mem doc stop ∧
    Leads mem stop (doc + 4) place ∧ Item mem stop place value

theorem element_of_produced {doc : Nat} {offset : Int} (produced : Produced mem doc offset) :
    ElementAt mem doc offset := by
  obtain ⟨names, param, listed, rfl, nonneg⟩ := produced
  have unset : ∀ names, ∀ param ∈ keys names, ¬ 0 ≤ param.offset := by
    intro names param listed
    obtain ⟨name, -, rfl⟩ := List.mem_map.mp listed
    exact Int.not_le.mpr (Int.negSucc_lt_zero 0)
  by_cases head : ∃ stop, Opens mem doc stop
  · obtain ⟨stop, opens⟩ := head
    have declared := opens.declared
    have short := opens.short
    rw [bsonGetProps_opens opens] at listed
    refine scanElements_offsets (ElementAt mem doc) (by omega) ?_ ?_ param listed nonneg
    · intro place value leads item
      exact ⟨place, value, stop, rfl, opens, leads, item⟩
    · intro cleared among nonneg'
      exact absurd nonneg' (unset _ cleared among)
  · rw [bsonGetProps_shut head] at listed
    exact absurd nonneg (unset names param listed)

/-! ## Every element has its offset produced -/

theorem offerName_keeps {doc name : Nat} {params : List Param} {param : Param}
    (listed : param ∈ params) (given : 0 ≤ param.offset) :
    param ∈ ((offerName doc name params).eval mem).getD params := by
  induction params with
  | nil => cases listed
  | cons first rest ih =>
      simp only [offerName, Access.eval_bind]
      by_cases offered : (keyMatches first name).eval mem = true
      · rw [if_pos offered]
        rcases List.mem_cons.mp listed with rfl | later
        · have wanted : ¬ param.offset < 0 := Int.not_lt.mpr given
          simp [keyMatches, wanted] at offered
        · exact .tail _ later
      · rw [if_neg offered]
        simp only [Access.eval_bind, Access.eval_pure]
        cases outcome : (offerName doc name rest).eval mem with
        | none => exact listed
        | some found =>
            rcases List.mem_cons.mp listed with rfl | later
            · exact .head _
            · have kept := ih later
              rw [outcome] at kept
              exact .tail _ kept

/-- A variable that has its offset keeps it. -/
theorem scanElements_keeps {doc stop total count data scanned : Nat} {params : List Param}
    {param : Param} (near : stop ≤ data + 2 ^ 31) (listed : param ∈ params)
    (given : 0 ≤ param.offset) :
    param ∈ ((scanElements doc stop total count data scanned params).eval mem).2 := by
  induction count generalizing data scanned params with
  | zero => exact listed
  | succ count ih =>
      rcases scanElements_step near rfl rfl rfl with
        ⟨ended, -⟩ | ⟨value, item, outcome⟩
      · rw [ended]
        exact listed
      have found : param ∈ ((offerName doc (data + 1) params).eval mem).getD params :=
        offerName_keeps listed given
      rcases outcome with ⟨ended, -⟩ | ⟨-, ⟨ended, -⟩ | ⟨length, -, continued⟩⟩
      · rw [ended]
        exact found
      · rw [ended]
        exact found
      · have after := item.name.after
        rw [← continued]
        exact ih (by omega) found

theorem offerName_none {doc name : Nat} {key : CString}
    (other : (strcmpEq key.bytes name).eval mem = false) (copies : Nat) :
    (offerName doc name (List.replicate copies ⟨key, -1⟩)).eval mem = none := by
  induction copies with
  | zero => rfl
  | succ copies ih =>
      simp [List.replicate_succ, offerName, keyMatches, other, ih]

/-- Variables of one key, of which the first have their offsets. -/
theorem offerName_copies {doc name : Nat} {key : CString} {done : List Param}
    (set : ∀ param ∈ done, 0 ≤ param.offset) (copies : Nat) :
    (offerName doc name (done ++ List.replicate (copies + 1) ⟨key, -1⟩)).eval mem =
      if (strcmpEq key.bytes name).eval mem then
        some (done ++ ⟨key, (name : Int) - 1 - doc⟩ :: List.replicate copies ⟨key, -1⟩)
      else none := by
  induction done with
  | nil =>
      cases compared : (strcmpEq key.bytes name).eval mem with
      | true => simp [List.replicate_succ, offerName, keyMatches, compared]
      | false =>
          rw [List.nil_append, offerName_none compared]
          rfl
  | cons param rest ih =>
      have wanted : ¬ param.offset < 0 := Int.not_lt.mpr (set param (.head _))
      have inner := ih fun other listed => set other (.tail _ listed)
      simp only [List.cons_append, offerName, keyMatches, if_neg wanted, Access.eval_bind,
        Access.eval_pure, Bool.false_eq_true, if_false, inner]
      split <;> rfl

/-- Naming the key of an element often enough produces its offset: no element before it
can use up the variables. -/
theorem scanElements_produces {doc stop total data place : Nat}
    (leads : Leads mem stop data place) {value : Nat} (item : Item mem stop place value)
    {count scanned copies : Nat} {done : List Param} (set : ∀ param ∈ done, 0 ≤ param.offset)
    (fuel : stop ≤ data + count) (enough : stop ≤ data + copies)
    (all : total = scanned + copies) (near : stop ≤ data + 2 ^ 31) (behind : doc ≤ data) :
    ∃ param ∈ ((scanElements doc stop total count data scanned
        (done ++ List.replicate copies ⟨item.name.text, -1⟩)).eval mem).2,
      param.offset = (place : Int) - doc := by
  induction leads generalizing count scanned copies done with
  | here place =>
      have inside := item.inside
      obtain ⟨count, rfl⟩ : ∃ less, count = less + 1 := ⟨count - 1, by omega⟩
      obtain ⟨copies, rfl⟩ : ∃ less, copies = less + 1 := ⟨copies - 1, by omega⟩
      have named : (strcmpEq item.name.text.bytes (place + 1)).eval mem = true :=
        (eval_strcmpEq item.name.holds).mpr rfl
      have offered : (offerName doc (place + 1)
          (done ++ List.replicate (copies + 1) ⟨item.name.text, -1⟩)).eval mem = _ :=
        offerName_copies set copies
      rw [if_pos named] at offered
      let param : Param := ⟨item.name.text, ((place + 1 : Nat) : Int) - 1 - doc⟩
      have offset : param.offset = (place : Int) - doc := by
        simp only [param]
        omega
      refine ⟨param, ?_, offset⟩
      have found : param ∈ done ++ param :: List.replicate copies ⟨item.name.text, -1⟩ :=
        List.mem_append_right _ (.head _)
      rcases scanElements_step near offered rfl rfl with
        ⟨-, none⟩ | ⟨other, first, ⟨ended, -⟩ | ⟨-, ⟨ended, -⟩ | ⟨length, -, continued⟩⟩⟩
      · exact absurd item (none value)
      · rw [ended]
        exact found
      · rw [ended]
        exact found
      · have after := first.name.after
        rw [← continued]
        exact scanElements_keeps (by omega) found (by omega)
  | @on data between length place first extent leads ih =>
      have inside := item.inside
      have after := first.name.after
      have further := leads.le
      obtain ⟨count, rfl⟩ : ∃ less, count = less + 1 := ⟨count - 1, by omega⟩
      obtain ⟨copies, rfl⟩ : ∃ less, copies = less + 1 := ⟨copies - 1, by omega⟩
      have offered : (offerName doc (data + 1)
          (done ++ List.replicate (copies + 1) ⟨item.name.text, -1⟩)).eval mem = _ :=
        offerName_copies set copies
      rw [scanElements_at near first extent offered rfl]
      by_cases matched : (strcmpEq item.name.text.bytes (data + 1)).eval mem = true
      case pos =>
          let param : Param := ⟨item.name.text, ((data + 1 : Nat) : Int) - 1 - doc⟩
          have set' : ∀ other ∈ done ++ [param], 0 ≤ other.offset := by
            intro other listed
            rcases List.mem_append.mp listed with old | new
            · exact set other old
            · rw [List.mem_singleton.mp new]
              simp only [param]
              omega
          have unfinished : scanned + 1 ≠ total := by omega
          simp only [if_pos matched, Option.isSome_some, if_true, unfinished, and_false, if_false,
            Option.getD_some]
          rw [List.append_cons]
          exact ih item set' (by omega) (by omega) (by omega) (by omega) (by omega)
      case neg =>
          simp only [if_neg matched, Option.isSome_none, Bool.false_eq_true, if_false, false_and,
            Option.getD_none]
          exact ih item set (by omega) (by omega) all (by omega) (by omega)

theorem produced_of_element {doc : Nat} {offset : Int} (element : ElementAt mem doc offset) :
    Produced mem doc offset := by
  obtain ⟨place, value, stop, rfl, opens, leads, item⟩ := element
  have declared := opens.declared
  have long := opens.long
  have short := opens.short
  have further := leads.le
  let cleared := List.replicate stop (⟨item.name.text, -1⟩ : Param)
  have produced : ∃ param ∈ ((scanElements doc stop stop (stop - (doc + 4)) (doc + 4) 0
      ([] ++ cleared)).eval mem).2, param.offset = (place : Int) - doc :=
    scanElements_produces leads item nofun (by omega) (by omega) (by omega) (by omega) (by omega)
  obtain ⟨param, listed, offset⟩ := produced
  refine ⟨List.replicate stop item.name.text, param, ?_, offset, by omega⟩
  have named : keys ((keys (List.replicate stop item.name.text)).map Param.key) = cleared := by
    rw [keys, keys, List.map_replicate, List.map_replicate, List.map_replicate]
  rw [bsonGetProps_opens opens, named, keys, List.length_map, List.length_replicate]
  exact listed

end PeridotSw.Bson.Offsets

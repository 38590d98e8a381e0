import WhoreIrc.Proof.Hashtable
import WhoreIrc.Proof.StringCase
import WhoreIrc.Proof.UpgradeFile
import WhoreIrc.Spec.Hashtable

/-!
# Which hashtables survive `/upgrade` (`hashtable_upgrade_iff`)

The variables of a table are `upgradeVars`. What is in the restored table comes from
variables that were read (`addVars_from`), and these from fields that were written
(`readVars_written`), where an empty string is NULL and a name has no comma; names
are found by the bytes of the prefix (`strncasecmp_bytes`), and not at all if it has
fewer characters than bytes (`strncasecmp_length`).
-/

namespace Wirc

open Framework

/-! ## The names -/

section

variable {pfx : CStr}

/-- The number of an item is short. -/
theorem number_length {n : Nat} (hn : n < 2147483648) : (fmtNatDigits 5 n).length ≤ 10 :=
  fmtNatDigits_length_le (by decide) (by decide) (Nat.lt_of_lt_of_le hn (by decide))

set_option maxRecDepth 10000 in
theorem number_bytes (n : Nat) : ∀ c ∈ fmtNatDigits 5 n, c ≠ 0 ∧ c ≠ ch ',' ∧ utf8LeadSize c = 1 ∧ lowerByte c = c :=
  fun c hc => byte_forall
    (P := fun c => isdigit c = true → c ≠ 0 ∧ c ≠ ch ',' ∧ utf8LeadSize c = 1 ∧ lowerByte c = c) (by decide) c
    (fmtNatDigits_digits 5 n c hc)

/-- A name that is not cut. -/
theorem optionName_val {field : String} {number : Str} (hfield : 0 ∉ lit field) (hnumber : 0 ∉ number)
    (hlength : pfx.val.length + (lit field).length + number.length ≤ 127) :
    (hashtableOptionName pfx field number).val = pfx.val ++ lit field ++ number := by
  rw [hashtableOptionName, List.take_of_length_le (by simp only [List.length_append]; omega)]
  refine cString_of_not_mem ?_
  simp only [List.mem_append, not_or]
  exact ⟨⟨pfx.2, hfield⟩, hnumber⟩

theorem optionName_ne_nil {field : String} {number : Str} {c : Byte} {r : Str} (hfield : lit field = c :: r)
    (hc : c ≠ 0) : (hashtableOptionName pfx field number).val ≠ [] := by
  obtain ⟨b, bytes, hbytes, hb⟩ : ∃ b bytes, pfx.val ++ lit field ++ number = b :: bytes ∧ b ≠ 0 := by
    obtain ⟨_ | ⟨b, bytes⟩, hpfx⟩ := pfx
    · exact ⟨c, r ++ number, by rw [hfield]; rfl, hc⟩
    · exact ⟨b, bytes ++ lit field ++ number, rfl, fun h => hpfx (by rw [h]; exact List.mem_cons_self ..)⟩
  rw [hashtableOptionName, hbytes, List.take_succ_cons, cString]
  dsimp only
  rw [List.takeWhile_cons_of_pos (by simpa using hb)]
  exact List.cons_ne_nil _ _

/-- The variables of the items of a table, whose numbers begin at `itemNumber`. -/
def upgradeVars (pfx : CStr) : (itemNumber : Nat) → List (ItemData Str Str) → List InfolistVar
  | _, [] => []
  | itemNumber, item :: items =>
    ⟨hashtableOptionName pfx "_name_" (fmtNatDigits 5 itemNumber), .string (some (cString item.key))⟩ ::
      ⟨hashtableOptionName pfx "_value_" (fmtNatDigits 5 itemNumber), .string (item.value.map cString)⟩ ::
      upgradeVars pfx (itemNumber + 1) items

theorem addItems_eq (items : List (ItemData Str Str)) (itemNumber : Nat) (vars : List InfolistVar) :
    @hashtableAddItemsToInfolist .string .string pfx itemNumber vars items =
      some (true, vars ++ upgradeVars pfx itemNumber items) := by
  induction items generalizing itemNumber vars with
  | nil => rw [hashtableAddItemsToInfolist, upgradeVars, List.append_nil]
  | cons item items ih =>
    have hname : (hashtableOptionName pfx "_name_" (fmtNatDigits 5 itemNumber)).val ≠ [] :=
      optionName_ne_nil (c := ch '_') rfl (by decide)
    have hvalue : (hashtableOptionName pfx "_value_" (fmtNatDigits 5 itemNumber)).val ≠ [] :=
      optionName_ne_nil (c := ch '_') rfl (by decide)
    simp only [hashtableAddItemsToInfolist, hashtableToString, hashtableNewVarValue, infolistNewVarString,
      infolistNewVar, if_neg hname, if_neg hvalue, Option.bind_eq_bind, Option.bind_some, ih, upgradeVars,
      List.append_assoc, List.cons_append, List.nil_append]

/-- All variables are strings. -/
theorem upgradeVars_string {items : List (ItemData Str Str)} {itemNumber : Nat} {var : InfolistVar}
    (hvar : var ∈ upgradeVars pfx itemNumber items) : ∃ value, var.value = .string value := by
  induction items generalizing itemNumber with
  | nil => cases hvar
  | cons item items ih =>
    rcases hvar with _ | ⟨_, _ | ⟨_, hvar⟩⟩
    · exact ⟨_, rfl⟩
    · exact ⟨_, rfl⟩
    · exact ih hvar

theorem upgradeVars_fieldsSize (pfx : CStr) (items : List (ItemData Str Str)) (itemNumber : Nat) :
    infolistFieldsSize (upgradeVars pfx itemNumber items) + upgradeFieldsSize pfx itemNumber =
      upgradeFieldsSize pfx (itemNumber + items.length) + 1 := by
  induction items generalizing itemNumber with
  | nil => exact Nat.add_comm ..
  | cons item items ih =>
    have ih := ih (itemNumber + 1)
    rw [upgradeFieldsSize] at ih
    rw [List.length_cons, show itemNumber + (items.length + 1) = itemNumber + 1 + items.length by omega, ← ih,
      upgradeVars, infolistFieldsSize, infolistFieldsSize]
    dsimp only
    omega

theorem entries_lt_fieldsSize (pfx : CStr) (n : Nat) : n < upgradeFieldsSize pfx n := by
  induction n with
  | zero => exact Nat.one_pos
  | succ n ih =>
    rw [upgradeFieldsSize]
    omega

end

/-! ## What is read of the fields -/

section

variable {item : InfolistItem} {rest : List Byte} {eof : Bool}

/-- A variable that was read of a field: it has the name of the field, and a string that is not empty. -/
structure ReadFrom (arg : Str) (var : InfolistVar) : Prop where
  name : var.name.val = arg.drop 2
  type : arg.head? = some (ch 's') → ∃ value, var.value = .string value
  string : ∀ value, var.value = .string (some value) → value.val ≠ [] ∧ value.val.length + 1 < 2147483648

/-- A string that was written and is read is not empty, and has the size of an `int`. -/
theorem readString_written {value : CStr} {bytes : List Byte} {string : Option (List Byte)} {file : UpgradeFile}
    (hwrite : upgradeFileWriteString (some value.val) = some bytes)
    (hread : upgradeFileReadString ⟨bytes ++ rest, eof⟩ = (true, string, file)) :
    file = ⟨rest, eof⟩ ∧ ∀ s, string.map cString = some s → s.val ≠ [] ∧ s.val.length + 1 < 2147483648 := by
  obtain ⟨_ | ⟨c, v⟩, hzero⟩ := value
  · cases hwrite
    rw [upgradeFileReadString, readInteger_write] at hread
    cases hread
    exact ⟨rfl, fun s hs => by cases hs⟩
  · obtain ⟨written, hfwrite, heq⟩ : ∃ written, fwrite (c :: v) (Int32.ofNat (c :: v).length) = some written ∧
        upgradeFileWriteInteger (Int32.ofNat (c :: v).length) ++ written = bytes := by
      rw [upgradeFileWriteString] at hwrite
      simpa [Option.bind_eq_bind, Option.bind_eq_some_iff] using hwrite
    have hint : (Int32.ofNat (c :: v).length).toInt = ((c :: v).length : Int).bmod 4294967296 := Int32.toInt_ofNat
    rw [← heq, List.append_assoc, upgradeFileReadString, readInteger_write] at hread
    generalize Int32.ofNat (c :: v).length = length at hfwrite hint hread
    rw [fwrite] at hfwrite
    split at hfwrite
    · rename_i hpos
      rw [Int32.lt_iff_toInt_lt] at hpos
      have hpos : 0 < length.toInt := hpos
      have hmax := length.toInt_lt
      have hle : length.toInt.toNat ≤ (c :: v).length := by
        rw [hint, Int.bmod] at *
        omega
      cases hfwrite
      have hwritten : ((c :: v).take length.toInt.toNat).length = length.toInt.toNat := List.length_take_of_le hle
      have hne : length ≠ 0 := fun h => by
        rw [h] at hpos
        exact absurd hpos (by decide)
      dsimp only at hread
      rw [if_neg hne] at hread
      cases hmalloc : mallocInt (length.toInt + 1) with
      | none =>
        rw [hmalloc] at hread
        cases hread
      | some memory =>
        have hfits := mallocInt_some (by omega) (by omega) hmalloc
        have hsize : toSizeT length.toInt = length.toInt.toNat := by
          rw [toSizeT]
          omega
        rw [hmalloc, hsize, fread_append _ hwritten.symm] at hread
        cases hread
        refine ⟨rfl, fun s hs => ?_⟩
        cases hs
        have hzero' : (0 : Byte) ∉ (c :: v).take length.toInt.toNat := fun h => hzero (List.mem_of_mem_take h)
        rw [cString_of_not_mem hzero']
        refine ⟨List.ne_nil_of_length_pos (by omega), by omega⟩
    · cases hfwrite

variable {scratch : UpgradeScratch} {vars vars' : List InfolistVar} {file : UpgradeFile}

/-- After the name and the type of a variable, its value is read. -/
theorem readVars_value {rounds : Nat} {name : Str} {type : Int32} {header bytes : List Byte}
    (hlength : name.length + 1 < 2147483648) (hheader : upgradeFileWriteHeader name type = some header)
    (hread : upgradeFileReadVars rounds scratch vars ⟨header ++ bytes, eof⟩ = some (some vars', file)) :
    name ≠ [] ∧ ∃ rounds' scratch1 scratch2 vars2 file2,
      upgradeFileReadValue scratch1 vars (cString name) type ⟨bytes, eof⟩ = (some (vars2, scratch2), file2) ∧
      upgradeFileReadVars rounds' scratch2 vars2 file2 = some (some vars', file) := by
  cases rounds with
  | zero => cases hread
  | succ rounds =>
    rw [writeHeader_eq hlength] at hheader
    cases hheader
    rw [headerBytes] at hread
    simp only [List.append_assoc] at hread
    rw [upgradeFileReadVars, readInteger_write] at hread
    dsimp only at hread
    rw [if_neg (by decide), if_pos rfl, upgradeFileReadVar, readString_bytes hlength] at hread
    by_cases hname : name = []
    · rw [if_pos hname] at hread
      cases hread
    · rw [if_neg hname] at hread
      dsimp only at hread
      rw [readInteger_write] at hread
      dsimp only at hread
      refine ⟨hname, rounds, { scratch with name := some name }, ?_⟩
      split at hread
      · rename_i vars2 scratch2 file2 heq
        exact ⟨_, _, _, heq, hread⟩
      · cases hread

/-- An item without buffer is written with no buffer. -/
theorem infolistBuffer_none (hitem : ∀ var ∈ item.vars, ∃ value, var.value = .string value) (name : Str) :
    infolistBuffer item name = none := by
  rw [infolistBuffer]
  split
  · rename_i hsearch
    rw [infolistSearchVar] at hsearch
    split at hsearch
    · cases hsearch
    · obtain ⟨value, hvalue⟩ := hitem _ (List.mem_of_find?_eq_some hsearch)
      cases hvalue
  · rfl

/-- A field that was written is read as a variable, or not at all. -/
theorem readVars_field (hitem : ∀ var ∈ item.vars, ∃ value, var.value = .string value) {arg : Str}
    (harg : 0 ∉ arg) (hlength : arg.length < 2147483648) {bytes : List Byte}
    (hwrite : upgradeFileWriteVar item arg = some bytes) {rounds : Nat}
    (hread : upgradeFileReadVars rounds scratch vars ⟨bytes ++ rest, eof⟩ = some (some vars', file)) :
    ∃ rounds' scratch' vars2, upgradeFileReadVars rounds' scratch' vars2 ⟨rest, eof⟩ = some (some vars', file) ∧
      ∀ var ∈ vars2, var ∈ vars ∨ ReadFrom arg var := by
  have hzero : 0 ∉ arg.drop 2 := fun h => harg (List.mem_of_mem_drop h)
  have hname : (arg.drop 2).length + 1 < 2147483648 := by
    rw [List.length_drop]
    omega
  have hcString : (cString (arg.drop 2)).val = arg.drop 2 := cString_of_not_mem hzero
  -- the variable that is added
  have hadded {value : InfolistValue} (htype : arg.head? = some (ch 's') → ∃ s, value = .string s)
      (hstring : ∀ s, value = .string (some s) → s.val ≠ [] ∧ s.val.length + 1 < 2147483648) :
      ∀ var ∈ infolistNewVar vars (cString (arg.drop 2)) value, var ∈ vars ∨ ReadFrom arg var := by
    intro var hvar
    rw [infolistNewVar] at hvar
    split at hvar
    · exact .inl hvar
    · rcases List.mem_append.mp hvar with hvar | hvar
      · exact .inl hvar
      · obtain rfl := List.mem_singleton.mp hvar
        exact .inr ⟨hcString, htype, hstring⟩
  rw [upgradeFileWriteVar] at hwrite
  split at hwrite
  · rename_i hi
    obtain ⟨header, hheader, heq⟩ := Option.bind_eq_some_iff.mp hwrite
    cases heq
    rw [List.append_assoc] at hread
    obtain ⟨hne, rounds', scratch1, scratch2, vars2, file2, hvalue, hnext⟩ :=
      readVars_value hname hheader hread
    rw [upgradeFileReadValue, if_pos rfl, readInteger_write] at hvalue
    cases hvalue
    exact ⟨_, _, _, hnext, hadded (fun hs => by rw [hi] at hs; exact absurd hs (by decide)) fun s hs => by cases hs⟩
  split at hwrite
  · obtain ⟨header, hheader, heq⟩ := Option.bind_eq_some_iff.mp hwrite
    obtain ⟨value, hstring, heq⟩ := Option.bind_eq_some_iff.mp heq
    cases heq
    rw [List.append_assoc] at hread
    obtain ⟨hne, rounds', scratch1, scratch2, vars2, file2, hvalue, hnext⟩ :=
      readVars_value hname hheader hread
    rw [upgradeFileReadValue, if_neg (by decide), if_pos rfl] at hvalue
    split at hvalue
    · rename_i valueStr file3 hvalueStr
      cases hvalue
      cases hsearch : infolistString item (arg.drop 2) with
      | none =>
        rw [hsearch] at hstring
        cases hstring
        rw [upgradeFileReadString, readInteger_write] at hvalueStr
        cases hvalueStr
        exact ⟨_, _, _, hnext, hadded (fun _ => ⟨_, rfl⟩) fun s hs => by cases hs⟩
      | some found =>
        rw [hsearch] at hstring
        obtain ⟨rfl, hkept⟩ := readString_written hstring hvalueStr
        exact ⟨_, _, _, hnext, hadded (fun _ => ⟨_, rfl⟩) fun s hs => hkept s (InfolistValue.string.inj hs)⟩
    · cases hvalue
  split at hwrite
  · cases hwrite
    exact ⟨_, _, _, hread, fun var hvar => .inl hvar⟩
  split at hwrite
  · rw [infolistBuffer_none hitem] at hwrite
    cases hwrite
    exact ⟨_, _, _, hread, fun var hvar => .inl hvar⟩
  split at hwrite
  · rename_i ht
    obtain ⟨header, hheader, heq⟩ := Option.bind_eq_some_iff.mp hwrite
    cases heq
    rw [List.append_assoc] at hread
    obtain ⟨hne, rounds', scratch1, scratch2, vars2, file2, hvalue, hnext⟩ :=
      readVars_value hname hheader hread
    rw [upgradeFileReadValue, if_neg (by decide), if_neg (by decide), if_neg (by decide), if_neg (by decide), if_pos rfl,
      readTime_write] at hvalue
    cases hvalue
    exact ⟨_, _, _, hnext, hadded (fun hs => by rw [ht] at hs; exact absurd hs (by decide)) fun s hs => by cases hs⟩
  · cases hwrite
    exact ⟨_, _, _, hread, fun var hvar => .inl hvar⟩

/-- What is read of an item that was written is read from its fields. -/
theorem readVars_written (hitem : ∀ var ∈ item.vars, ∃ value, var.value = .string value) {args : List Str}
    (hargs : ∀ arg ∈ args, 0 ∉ arg ∧ arg.length < 2147483648) {pieces : List (List Byte)}
    (hwrite : args.mapM (upgradeFileWriteVar item) = some pieces) {rounds : Nat}
    (hread : upgradeFileReadVars rounds scratch vars
      ⟨pieces.flatten ++ (upgradeFileWriteInteger upgradeTypeObjectEnd ++ rest), eof⟩ = some (some vars', file)) :
    ∀ var ∈ vars', var ∈ vars ∨ ∃ arg ∈ args, ReadFrom arg var := by
  induction args generalizing pieces rounds scratch vars with
  | nil =>
    cases hwrite
    cases rounds with
    | zero => cases hread
    | succ rounds =>
      rw [List.reverse_nil, List.flatten_nil, List.nil_append, upgradeFileReadVars, readInteger_write] at hread
      dsimp only at hread
      rw [if_pos rfl] at hread
      cases hread
      exact fun var hvar => .inl hvar
  | cons arg args ih =>
    obtain ⟨⟨hzero, hlength⟩, hargs⟩ := List.forall_mem_cons.mp hargs
    rw [List.mapM_cons] at hwrite
    obtain ⟨bytes, hbytes, hwrite⟩ := Option.bind_eq_some_iff.mp hwrite
    obtain ⟨pieces', hpieces, heq⟩ := Option.bind_eq_some_iff.mp hwrite
    cases heq
    rw [List.flatten_cons, List.append_assoc] at hread
    obtain ⟨rounds', scratch', vars2, hnext, hvars2⟩ := readVars_field hitem hzero hlength hbytes hread
    intro var hvar
    rcases ih hargs hpieces hnext var hvar with hvar | ⟨arg', harg', hfrom⟩
    · exact (hvars2 var hvar).imp_right fun hfrom => ⟨arg, List.mem_cons_self .., hfrom⟩
    · exact .inr ⟨arg', List.mem_cons_of_mem _ harg', hfrom⟩

end

/-! ## The fields -/

section

variable {vars : List InfolistVar}

theorem infolistField_eq (var : InfolistVar) : ∃ a, (infolistField var) = a :: ch ':' :: var.name.val ∧ a ≠ 0 := by
  obtain ⟨name, value⟩ := var
  cases value with
  | integer => exact ⟨ch 'i', rfl, by decide⟩
  | string => exact ⟨ch 's', rfl, by decide⟩
  | pointer => exact ⟨ch 'p', rfl, by decide⟩
  | buffer => exact ⟨ch 'b', rfl, by decide⟩
  | time => exact ⟨ch 't', rfl, by decide⟩

theorem fieldsString_length (vars : List InfolistVar) :
    (infolistFieldsString vars).length < infolistFieldsSize vars := by
  induction vars with
  | nil => exact Nat.one_pos
  | cons var vars ih =>
    obtain ⟨a, hfield, -⟩ := infolistField_eq var
    cases vars with
    | nil =>
      rw [infolistFieldsString, List.map_singleton, List.intercalate_singleton, hfield, infolistFieldsSize,
        infolistFieldsSize]
      simp only [List.length_cons]
      omega
    | cons var' vars =>
      rw [infolistFieldsString, List.map_cons, List.map_cons, List.intercalate_cons_cons, ← List.map_cons,
        ← infolistFieldsString, hfield, infolistFieldsSize]
      have hcomma : (lit ",").length = 1 := rfl
      simp only [List.length_append, List.length_cons, hcomma]
      omega

theorem fieldsString_zero (vars : List InfolistVar) : 0 ∉ infolistFieldsString vars := by
  intro h
  rcases mem_intercalate h with hcomma | ⟨field, hfield, hzero⟩
  · exact absurd hcomma (by decide)
  · obtain ⟨var, -, rfl⟩ := List.mem_map.mp hfield
    obtain ⟨a, heq, ha⟩ := infolistField_eq var
    rw [heq] at hzero
    rcases hzero with _ | ⟨_, _ | ⟨_, hzero⟩⟩
    · exact ha rfl
    · exact var.name.2 hzero

/-- The bytes of the variables are those of fields, or of none. -/
def FieldsWritten (item : InfolistItem) (bytes : List Byte) : Prop :=
  ∃ (args : List Str) (pieces : List (List Byte)), args.mapM (upgradeFileWriteVar item) = some pieces ∧
    bytes = pieces.flatten ∧ ∀ arg ∈ args, infolistFieldsSize item.vars < 2147483648 ∧
      arg ∈ runs (isIn (lit ",")) (infolistFieldsString item.vars)

theorem writeVars_fields {item : InfolistItem} (hfields : item.fields = none) {bytes : List Byte}
    (hwrite : upgradeFileWriteVars item = some bytes) : FieldsWritten item bytes := by
  have hnone (h : some [] = some bytes) : FieldsWritten item bytes := by
    cases h
    exact ⟨[], [], rfl, rfl, fun arg harg => by cases harg⟩
  rw [upgradeFileWriteVars, infolistFields, hfields] at hwrite
  dsimp only at hwrite
  by_cases hsize : infolistFieldsSize item.vars < 2147483648
  · rw [if_pos hsize] at hwrite
    dsimp only at hwrite
    rw [stringSplit_runs _ (by decide)] at hwrite
    by_cases hruns : runs (isIn (lit ",")) (infolistFieldsString item.vars) = []
    · rw [if_pos hruns] at hwrite
      exact hnone hwrite
    · rw [if_neg hruns] at hwrite
      obtain ⟨pieces, hpieces, heq⟩ := Option.map_eq_some_iff.mp hwrite
      exact ⟨_, pieces, hpieces, heq.symm, fun arg harg => ⟨hsize, harg⟩⟩
  · rw [if_neg hsize] at hwrite
    exact hnone hwrite

/-- What is read of an item of strings that was written is read from its fields. -/
theorem readObject_written (item : InfolistItem) (hitem : ∀ var ∈ item.vars, ∃ value, var.value = .string value)
    (hfields : item.fields = none) {objectId : Int32} {bytes : List Byte}
    (hwrite : upgradeFileWriteObject objectId [item] = some bytes)
    {callbackRead : List UpgradeCall → UpgradeCall → Int} {ok : Bool} {calls : List UpgradeCall} {file : UpgradeFile}
    (hread : upgradeFileReadObject callbackRead [] ⟨bytes, false⟩ = some (ok, calls, file)) :
    ∀ call ∈ calls, ∀ var ∈ call.2, infolistFieldsSize item.vars < 2147483648 ∧
      ∃ arg ∈ runs (isIn (lit ",")) (infolistFieldsString item.vars), ReadFrom arg var := by
  obtain ⟨items, hitems, rfl⟩ := Option.map_eq_some_iff.mp hwrite
  rw [List.mapM_cons] at hitems
  obtain ⟨itemBytes, hitemBytes, hnil⟩ := Option.bind_eq_some_iff.mp hitems
  cases hnil
  obtain ⟨varBytes, hvars, heq⟩ := Option.bind_eq_some_iff.mp hitemBytes
  cases heq
  obtain ⟨args, pieces, hpieces, rfl, hargs⟩ := writeVars_fields hfields hvars
  have hargs' : ∀ arg ∈ args, 0 ∉ arg ∧ arg.length < 2147483648 := fun arg harg => by
    obtain ⟨hsize, hrun⟩ := hargs arg harg
    have hpart := runs_infix hrun
    exact ⟨fun hzero => fieldsString_zero item.vars (hpart.subset hzero),
      (hpart.length_le.trans_lt (fieldsString_length item.vars)).trans hsize⟩
  simp only [List.reverse_nil, List.flatten_cons, List.flatten_nil, List.append_nil, List.append_assoc] at hread
  rw [upgradeFileReadObject, readInteger_write] at hread
  dsimp only at hread
  rw [if_neg (not_not.mpr rfl), readInteger_write] at hread
  obtain ⟨⟨result, file1⟩, hresult, hread⟩ := Option.bind_eq_some_iff.mp hread
  cases result with
  | none =>
    cases hread
    exact fun call hcall => by cases hcall
  | some vars' =>
    cases hread
    intro call hcall var hvar
    obtain rfl := List.mem_singleton.mp hcall
    have hfrom := readVars_written hitem hargs' hpieces (by rw [List.append_nil]; exact hresult) var hvar
    obtain ⟨arg, harg, hfrom⟩ := hfrom.resolve_left List.not_mem_nil
    exact ⟨(hargs arg harg).1, arg, (hargs arg harg).2, hfrom⟩

end

/-! ## The restored table -/

section

variable {pfx : CStr} {item : InfolistItem} {hashtable hashtable' : Hashtable (HashtableKey .string) (HashtableValue .string)}
  {m : Str → Option (Option Str)}

/-- The variable gives a key: its name begins with that of the keys. -/
def NamesKey (pfx : CStr) (ptrName : InfolistVar) : Prop :=
  let prefixName := (hashtableOptionName pfx "_name_" []).val
  stringStrncasecmp ptrName.name.val prefixName prefixName.length = 0

/-- An entry that comes from two variables. -/
structure RestoredFrom (pfx : CStr) (item : InfolistItem) (vars : List InfolistVar) (key : Str) (value : Option Str) :
    Prop where
  key : ∃ ptrName ∈ vars, NamesKey pfx ptrName ∧ infolistValueString ptrName.value = some (some key)
  value : ∃ ptrValue ∈ item.vars, infolistValueOfType .string ptrValue.value = some value

theorem RestoredFrom.cons {vars : List InfolistVar} {key : Str} {value : Option Str}
    (h : RestoredFrom pfx item vars key value) (var : InfolistVar) : RestoredFrom pfx item (var :: vars) key value :=
  ⟨h.key.imp fun _ hname => ⟨List.mem_cons_of_mem _ hname.1, hname.2⟩, h.value⟩

/-- A key is set in a table of strings. -/
theorem setWithSize_string (hm : Refines hashtable m) (htype : hashtable.typeValues = .string) (key : Str)
    (value : Option Str) : ∃ hashtable' item,
    hashtableSetWithSize hashtable key 0 value (hashtableValueSize .string value) = some (hashtable', item) ∧
      hashtable'.typeValues = .string ∧ Refines hashtable' (Function.update m key (some value)) := by
  obtain ⟨hashtable', item, hset, hkind, hm'⟩ := hm.set key value
  rw [htype, if_neg (by decide)] at hm'
  have hsize : hashtableValueSize .string value = 0 := by cases value <;> rfl
  rw [hsize]
  exact ⟨hashtable', item, hset, hkind.typeValues.trans htype, hm'⟩

/-- What is in the table after the loop was there before, or comes from two variables. -/
theorem addVars_from {vars : List InfolistVar} {ok : Bool} (hm : Refines hashtable m)
    (htype : hashtable.typeValues = .string)
    (hadd : hashtableAddVars item pfx hashtable vars = some (hashtable', ok)) :
    ∃ m', Refines hashtable' m' ∧
      ∀ key value, m' key = some value → m key = some value ∨ RestoredFrom pfx item vars key value := by
  induction vars generalizing hashtable m with
  | nil =>
    cases hadd
    exact ⟨m, hm, fun key value h => .inl h⟩
  | cons ptrName vars ih =>
    -- a round that leaves the table as it is
    have hskip (hadd : hashtableAddVars item pfx hashtable vars = some (hashtable', ok)) :
        ∃ m', Refines hashtable' m' ∧
          ∀ key value, m' key = some value → m key = some value ∨ RestoredFrom pfx item (ptrName :: vars) key value := by
      obtain ⟨m', hm', hfrom⟩ := ih hm htype hadd
      exact ⟨m', hm', fun key value h => (hfrom key value h).imp_right fun h => h.cons ptrName⟩
    rw [hashtableAddVars] at hadd
    dsimp only at hadd
    split at hadd
    · rename_i hname
      split at hadd
      · rename_i ptrValue hsearch
        have hptrValue : ptrValue ∈ item.vars := by
          rw [infolistSearchVar] at hsearch
          split at hsearch
          · cases hsearch
          · exact List.mem_of_find?_eq_some hsearch
        split at hadd
        · rename_i value hvalue
          obtain ⟨key, hkey, hadd⟩ := Option.bind_eq_some_iff.mp hadd
          cases key with
          | none => exact hskip hadd
          | some key =>
            obtain ⟨hashtable1, item1, hset, htype1, hm1⟩ := setWithSize_string hm htype key value
            dsimp only at hadd
            rw [hset] at hadd
            obtain ⟨m', hm', hfrom⟩ := ih hm1 htype1 hadd
            refine ⟨m', hm', fun key' value' h => ?_⟩
            rcases hfrom key' value' h with hold | hnew
            · by_cases hsame : key' = key
              · rw [hsame, Function.update_self] at hold
                cases hold
                rw [hsame]
                exact .inr ⟨⟨ptrName, List.mem_cons_self .., hname, hkey⟩, ptrValue, hptrValue, hvalue⟩
              · rw [Function.update_of_ne hsame] at hold
                exact .inl hold
            · exact .inr (hnew.cons ptrName)
        · cases hadd
          exact ⟨m, hm, fun key value h => .inl h⟩
      · exact hskip hadd
    · exact hskip hadd

end

/-! ## The names in the item -/

section

variable {pfx : CStr} {items : List (ItemData Str Str)}

theorem number_zero (n : Nat) : 0 ∉ fmtNatDigits 5 n := fun h => (number_bytes n 0 h).1 rfl

theorem prefixName_val (hpfx : pfx.val.length < 100) :
    (hashtableOptionName pfx "_name_" []).val = pfx.val ++ lit "_name_" := by
  have hlit : (lit "_name_").length = 6 := rfl
  rw [optionName_val (by decide) List.not_mem_nil (by rw [hlit, List.length_nil]; omega), List.append_nil]

theorem name_val (hpfx : pfx.val.length < 100) {n : Nat} (hn : n < 2147483648) :
    (hashtableOptionName pfx "_name_" (fmtNatDigits 5 n)).val = pfx.val ++ lit "_name_" ++ fmtNatDigits 5 n := by
  have hlit : (lit "_name_").length = 6 := rfl
  have hnumber := number_length hn
  exact optionName_val (by decide) (number_zero n) (by omega)

theorem value_val (hpfx : pfx.val.length < 100) {n : Nat} (hn : n < 2147483648) :
    (hashtableOptionName pfx "_value_" (fmtNatDigits 5 n)).val = pfx.val ++ lit "_value_" ++ fmtNatDigits 5 n := by
  have hlit : (lit "_value_").length = 7 := rfl
  have hnumber := number_length hn
  exact optionName_val (by decide) (number_zero n) (by omega)

/-- A variable has the name of a key or of a value. -/
theorem mem_upgradeVars {itemNumber : Nat} {var : InfolistVar} (hvar : var ∈ upgradeVars pfx itemNumber items) :
    ∃ n, itemNumber ≤ n ∧ n < itemNumber + items.length ∧
      (var.name = hashtableOptionName pfx "_name_" (fmtNatDigits 5 n) ∨
        var.name = hashtableOptionName pfx "_value_" (fmtNatDigits 5 n)) := by
  induction items generalizing itemNumber with
  | nil => cases hvar
  | cons item items ih =>
    rw [List.length_cons]
    rcases hvar with _ | ⟨_, _ | ⟨_, hvar⟩⟩
    · exact ⟨itemNumber, Nat.le_refl _, by omega, .inl rfl⟩
    · exact ⟨itemNumber, Nat.le_refl _, by omega, .inr rfl⟩
    · obtain ⟨n, hle, hlt, hname⟩ := ih hvar
      exact ⟨n, by omega, by omega, hname⟩

/-- Names that are the same without case have the same field and number. -/
theorem optionName_distinct {field field' : Str} {n n' : Nat} (hfield : field.map lowerByte = field)
    (hfield' : field'.map lowerByte = field')
    (h : stringStrcasecmp (pfx.val ++ field ++ fmtNatDigits 5 n) (pfx.val ++ field' ++ fmtNatDigits 5 n') = 0) :
    field ++ fmtNatDigits 5 n = field' ++ fmtNatDigits 5 n' := by
  have hnumber (n : Nat) : (fmtNatDigits 5 n).map lowerByte = fmtNatDigits 5 n :=
    (List.map_congr_left fun c hc => (number_bytes n c hc).2.2.2).trans (List.map_id _)
  have hbytes := strcasecmp_bytes h
  simp only [List.map_append, List.append_assoc, hfield, hfield', hnumber] at hbytes
  exact List.append_cancel_left hbytes

theorem name_ne_name (hpfx : pfx.val.length < 100) {n n' : Nat} (hn : n < 2147483648) (hn' : n' < 2147483648)
    (hne : n ≠ n') : stringStrcasecmp (hashtableOptionName pfx "_name_" (fmtNatDigits 5 n)).val
      (hashtableOptionName pfx "_name_" (fmtNatDigits 5 n')).val ≠ 0 := by
  rw [name_val hpfx hn, name_val hpfx hn']
  intro h
  exact hne (fmtNatDigits_injective 5 (List.append_cancel_left (optionName_distinct (by decide) (by decide) h)))

theorem value_ne_value (hpfx : pfx.val.length < 100) {n n' : Nat} (hn : n < 2147483648) (hn' : n' < 2147483648)
    (hne : n ≠ n') : stringStrcasecmp (hashtableOptionName pfx "_value_" (fmtNatDigits 5 n)).val
      (hashtableOptionName pfx "_value_" (fmtNatDigits 5 n')).val ≠ 0 := by
  rw [value_val hpfx hn, value_val hpfx hn']
  intro h
  exact hne (fmtNatDigits_injective 5 (List.append_cancel_left (optionName_distinct (by decide) (by decide) h)))

theorem name_ne_value (hpfx : pfx.val.length < 100) {n n' : Nat} (hn : n < 2147483648) (hn' : n' < 2147483648) :
    stringStrcasecmp (hashtableOptionName pfx "_name_" (fmtNatDigits 5 n)).val
      (hashtableOptionName pfx "_value_" (fmtNatDigits 5 n')).val ≠ 0 := by
  rw [name_val hpfx hn, value_val hpfx hn']
  intro h
  have hbytes := optionName_distinct (by decide) (by decide) h
  injection hbytes with _ hbytes
  injection hbytes with hbyte _
  exact absurd hbyte (by decide)

theorem upgradeVars_distinct (hpfx : pfx.val.length < 100) (itemNumber : Nat)
    (hlength : itemNumber + items.length ≤ 2147483648) :
    (upgradeVars pfx itemNumber items).Pairwise fun var var' => stringStrcasecmp var.name.val var'.name.val ≠ 0 := by
  induction items generalizing itemNumber with
  | nil => exact List.Pairwise.nil
  | cons item items ih =>
    rw [List.length_cons] at hlength
    have ih := ih (itemNumber + 1) (by omega)
    refine List.pairwise_cons.mpr ⟨fun var hvar => ?_, List.pairwise_cons.mpr ⟨fun var hvar => ?_, ih⟩⟩
    · rcases List.mem_cons.mp hvar with rfl | hvar
      · exact name_ne_value hpfx (by omega) (by omega)
      · obtain ⟨n, hle, hlt, hname | hvalue⟩ := mem_upgradeVars hvar
        · rw [hname]
          exact name_ne_name hpfx (by omega) (by omega) (by omega)
        · rw [hvalue]
          exact name_ne_value hpfx (by omega) (by omega)
    · obtain ⟨n, hle, hlt, hname | hvalue⟩ := mem_upgradeVars hvar
      · rw [hname, strcasecmp_swap]
        exact neg_ne_zero.mpr (name_ne_value hpfx (by omega) (by omega))
      · rw [hvalue]
        exact value_ne_value hpfx (by omega) (by omega) (by omega)

theorem upgradeVars_named (hpfx : pfx.val.length < 100) (hcomma : ch ',' ∉ pfx.val)
    (hlength : items.length ≤ 2147483648) : InfolistItem.Named ⟨upgradeVars pfx 0 items, none⟩ where
  ne_nil var hvar := by
    obtain ⟨n, -, -, hname | hvalue⟩ := mem_upgradeVars hvar
    · rw [hname]
      exact optionName_ne_nil (c := ch '_') rfl (by decide)
    · rw [hvalue]
      exact optionName_ne_nil (c := ch '_') rfl (by decide)
  comma var hvar := by
    have hnumber (n : Nat) : ch ',' ∉ fmtNatDigits 5 n := fun h => (number_bytes n _ h).2.1 rfl
    obtain ⟨n, -, hlt, hname | hvalue⟩ := mem_upgradeVars hvar
    · rw [hname, name_val hpfx (by omega)]
      simp only [List.mem_append, not_or]
      exact ⟨⟨hcomma, by decide⟩, hnumber n⟩
    · rw [hvalue, value_val hpfx (by omega)]
      simp only [List.mem_append, not_or]
      exact ⟨⟨hcomma, by decide⟩, hnumber n⟩
  distinct := upgradeVars_distinct hpfx 0 (by rw [Nat.zero_add]; exact hlength)

end

/-! ## What is restored -/

section

variable {pfx : CStr} {item : InfolistItem} {items : List (ItemData Str Str)}
  {hashtable : Hashtable (HashtableKey .string) (HashtableValue .string)} {m : Str → Option (Option Str)}

theorem name_isKey (hpfx : pfx.val.length < 100) (hone : ∀ b ∈ pfx.val, utf8LeadSize b = 1) {n : Nat}
    (hn : n < 2147483648) (value : InfolistValue) :
    NamesKey pfx ⟨hashtableOptionName pfx "_name_" (fmtNatDigits 5 n), value⟩ := by
  rw [NamesKey, prefixName_val hpfx, name_val hpfx hn]
  refine strncasecmp_append (fun b hb => ?_) _
  rcases List.mem_append.mp hb with hb | hb
  · exact hone b hb
  · exact (by decide : ∀ b ∈ lit "_name_", utf8LeadSize b = 1) b hb

theorem value_isNotKey (hpfx : pfx.val.length < 100) {n : Nat} (hn : n < 2147483648) (value : InfolistValue) :
    ¬ NamesKey pfx ⟨hashtableOptionName pfx "_value_" (fmtNatDigits 5 n), value⟩ := by
  rw [NamesKey, prefixName_val hpfx, value_val hpfx hn]
  intro h
  have hbytes := strncasecmp_bytes (Nat.le_refl _) h
  rw [List.append_assoc, List.length_append, List.take_length_add_append, List.map_append, List.map_append] at hbytes
  have hfield := List.append_cancel_left hbytes
  injection hfield with _ hfield
  injection hfield with hbyte _
  exact absurd hbyte (by decide)

/-- All items of a table are restored. -/
theorem addVars_upgradeVars (hpfx : pfx.val.length < 100) (hone : ∀ b ∈ pfx.val, utf8LeadSize b = 1)
    (hnamed : item.Named) (itemNumber : Nat) (hlength : itemNumber + items.length ≤ 2147483648)
    (hvars : ∀ var ∈ upgradeVars pfx itemNumber items, var ∈ item.vars)
    (hends : ∀ d ∈ items, 0 ∉ d.key ∧ ∃ value, d.value = some value ∧ 0 ∉ value)
    (hm : Refines hashtable m) (htype : hashtable.typeValues = .string) :
    ∃ hashtable', hashtableAddVars item pfx hashtable (upgradeVars pfx itemNumber items) = some (hashtable', true) ∧
      Refines hashtable' (items.foldl (fun m d => Function.update m d.key (some d.value)) m) := by
  induction items generalizing itemNumber hashtable m with
  | nil => exact ⟨hashtable, rfl, hm⟩
  | cons d items ih =>
    rw [List.length_cons] at hlength
    obtain ⟨⟨hkey, value, hvalue, hzero⟩, hends⟩ := List.forall_mem_cons.mp hends
    obtain ⟨hname, hvars⟩ := List.forall_mem_cons.mp hvars
    obtain ⟨hvar, hvars⟩ := List.forall_mem_cons.mp hvars
    have hn : itemNumber < 2147483648 := by omega
    have hnumber : (hashtableOptionName pfx "_name_" (fmtNatDigits 5 itemNumber)).val.drop
        (pfx.val ++ lit "_name_").length = fmtNatDigits 5 itemNumber := by
      rw [name_val hpfx hn, List.drop_left]
    obtain ⟨hashtable1, item1, hset, htype1, hm1⟩ := setWithSize_string hm htype d.key (some value)
    obtain ⟨hashtable', hadd, hm'⟩ := ih (itemNumber + 1) (by omega) hvars hends hm1 htype1
    refine ⟨hashtable', ?_, by rwa [List.foldl_cons, hvalue]⟩
    have hstring : infolistValueOfType .string (.string ((some value).map cString)) = some (some value) :=
      congrArg (fun s => some (some s)) (cString_of_not_mem hzero)
    have hkeyString : infolistValueString (.string (some (cString d.key))) = some (some d.key) :=
      congrArg (fun s => some (some s)) (cString_of_not_mem hkey)
    rw [hvalue] at hvar
    have hsearch := hnamed.search hvar
    have hmatch := name_isKey hpfx hone hn (.string (some (cString d.key)))
    have hother := value_isNotKey hpfx hn (.string ((some value).map cString))
    rw [NamesKey, prefixName_val hpfx] at hmatch hother
    rw [upgradeVars, hvalue, hashtableAddVars, prefixName_val hpfx]
    dsimp only at hmatch hother hsearch ⊢
    rw [if_pos hmatch, hnumber, hsearch]
    dsimp only
    rw [hstring, hkeyString]
    simp only [Option.bind_eq_bind, Option.bind_some, hset]
    rw [hashtableAddVars, prefixName_val hpfx]
    dsimp only
    rw [if_neg hother]
    exact hadd

/-- The last entries with the keys are those of the items. -/
theorem foldl_update (m' : Str → Option (Option Str)) (hitems : ∀ d ∈ items, m' d.key = some d.value) {key : Str}
    (hkey : m key = m' key ∨ ∃ d ∈ items, d.key = key) :
    (items.foldl (fun m d => Function.update m d.key (some d.value)) m : Str → Option (Option Str)) key = m' key := by
  induction items generalizing m with
  | nil => exact hkey.resolve_right fun ⟨d, hd, _⟩ => by cases hd
  | cons d items ih =>
    obtain ⟨hd, hitems⟩ := List.forall_mem_cons.mp hitems
    refine ih hitems ?_
    dsimp only
    by_cases hsame : key = d.key
    · rw [hsame, Function.update_self]
      exact .inl hd.symm
    · rw [Function.update_of_ne hsame]
      refine hkey.imp_right ?_
      rintro ⟨d', hd', rfl⟩
      rcases List.mem_cons.mp hd' with rfl | hd'
      · exact absurd rfl hsame
      · exact ⟨d', hd', rfl⟩

/-- The strings of the variables are the keys and the values. -/
theorem string_of_mem_upgradeVars {itemNumber : Nat} {var : InfolistVar} {s : CStr}
    (hvar : var ∈ upgradeVars pfx itemNumber items) (hs : var.value = .string (some s)) :
    ∃ d ∈ items, s = cString d.key ∨ ∃ value, d.value = some value ∧ s = cString value := by
  induction items generalizing itemNumber with
  | nil => cases hvar
  | cons d items ih =>
    rcases hvar with _ | ⟨_, _ | ⟨_, hvar⟩⟩
    · cases hs
      exact ⟨d, List.mem_cons_self .., .inl rfl⟩
    · obtain ⟨value, hvalue, rfl⟩ := Option.map_eq_some_iff.mp (InfolistValue.string.inj hs)
      exact ⟨d, List.mem_cons_self .., .inr ⟨value, hvalue, rfl⟩⟩
    · obtain ⟨d', hd', hstring⟩ := ih hvar
      exact ⟨d', List.mem_cons_of_mem _ hd', hstring⟩

/-- An item of strings that are not empty and have the size of an `int` is saved as it is. -/
theorem upgrade_eq (pfx : CStr) (restored : Hashtable (HashtableKey .string) (HashtableValue .string)) (objectId : Int32)
    (hwalk : hashtableWalk hashtable = some items) (hnamed : InfolistItem.Named ⟨upgradeVars pfx 0 items, none⟩)
    (hfields : infolistFieldsSize (upgradeVars pfx 0 items) < 2147483648)
    (hstrings : ∀ var ∈ upgradeVars pfx 0 items, ∀ s, var.value = .string (some s) →
      s.val ≠ [] ∧ s.val.length + 1 < 2147483648) :
    hashtableUpgrade objectId pfx hashtable restored =
      (hashtableAddVars ⟨upgradeVars pfx 0 items, none⟩ pfx restored (upgradeVars pfx 0 items)).map Prod.fst := by
  have hfits : InfolistItem.Fits ⟨upgradeVars pfx 0 items, none⟩ := by
    refine ⟨by rintro fields ⟨⟩, hfields, fun var hvar s hs => (hstrings var hvar s hs).2, fun var hvar s hs => ?_⟩
    obtain ⟨value, hvalue⟩ := upgradeVars_string hvar
    rw [hvalue] at hs
    cases hs
  have hkept : (upgradeVars pfx 0 items).filterMap InfolistVar.kept = upgradeVars pfx 0 items := by
    refine (List.filterMap_congr fun var hvar => ?_).trans (List.filterMap_some ..)
    obtain ⟨value, hvalue⟩ := upgradeVars_string hvar
    obtain ⟨name, value'⟩ := var
    cases hvalue
    cases value with
    | none => rfl
    | some s =>
      rw [InfolistVar.kept]
      dsimp only
      rw [if_neg (hstrings _ hvar s rfl).1]
  have hwrite : upgradeFileWriteObject objectId [⟨upgradeVars pfx 0 items, none⟩] =
      some (itemBytes (objectId, ⟨upgradeVars pfx 0 items, none⟩)) := by
    rw [upgradeFileWriteObject, List.mapM_cons, upgradeFileWriteItem, writeVars_eq hnamed hfits, itemBytes]
    simp only [Option.bind_eq_bind, Option.bind_some, List.mapM_nil, Option.pure_def, Option.map_some, List.flatten_cons,
      List.flatten_nil, List.append_nil]
  have hread : upgradeFileReadObject (fun _ _ => 0) []
      ⟨itemBytes (objectId, ⟨upgradeVars pfx 0 items, none⟩) ++ [], false⟩ =
        some (true, [entryCall (objectId, ⟨upgradeVars pfx 0 items, none⟩)], ⟨[], false⟩) :=
    readObject_item hnamed hfits []
  rw [List.append_nil] at hread
  rw [hashtableUpgrade, hashtableAddToInfolist, hwalk]
  simp only [Option.bind_eq_bind, Option.bind_some, addItems_eq, List.nil_append, hwrite, hread, entryCall, hkept,
    List.head?_cons, hashtableAddFromInfolist]
  cases hashtableAddVars ⟨upgradeVars pfx 0 items, none⟩ pfx restored (upgradeVars pfx 0 items) with
  | none => rfl
  | some result => rfl

end

/-! ## Tables -/

section

variable {pfx : CStr} {objectId : Int32} {items : List (ItemData Str Str)}
  {hashtable restored : Hashtable (HashtableKey .string) (HashtableValue .string)} {m : Str → Option Str}

/-- The entries of a table that survives come from variables that were read of its fields. -/
theorem UpgradeSurvives.from (h : UpgradeSurvives objectId pfx hashtable restored m)
    (hrestored : StringTable restored fun _ => none) (hwalk : hashtableWalk hashtable = some items) :
    ∃ vars, (∀ var ∈ vars, infolistFieldsSize (upgradeVars pfx 0 items) < 2147483648 ∧
        ∃ arg ∈ runs (isIn (lit ",")) (infolistFieldsString (upgradeVars pfx 0 items)), ReadFrom arg var) ∧
      ∀ key value, m key = some value → RestoredFrom pfx ⟨vars, none⟩ vars key (some value) := by
  obtain ⟨hashtable', hupgrade, hall⟩ := h
  rw [hashtableUpgrade, hashtableAddToInfolist, hwalk] at hupgrade
  simp only [Option.bind_eq_bind, Option.bind_some, addItems_eq, List.nil_append] at hupgrade
  obtain ⟨bytes, hwrite, hupgrade⟩ := Option.bind_eq_some_iff.mp hupgrade
  obtain ⟨⟨ok, calls, file⟩, hread, hupgrade⟩ := Option.bind_eq_some_iff.mp hupgrade
  obtain ⟨⟨id, vars⟩, hcall, hupgrade⟩ := Option.bind_eq_some_iff.mp hupgrade
  obtain ⟨⟨hashtable1, ok1⟩, hadd, heq⟩ := Option.bind_eq_some_iff.mp hupgrade
  cases heq
  have hvars := readObject_written ⟨upgradeVars pfx 0 items, none⟩
    (fun var hvar => upgradeVars_string hvar) rfl hwrite hread _ (List.mem_of_head? hcall)
  obtain ⟨m', hm', hfrom⟩ := addVars_from hrestored.refines hrestored.typeValues hadd
  refine ⟨vars, hvars, fun key value hkey => ?_⟩
  obtain ⟨-, hget⟩ := hall key value hkey
  rw [hm'.get, Option.some_inj, Option.join_eq_some_iff] at hget
  exact (hfrom key _ hget).resolve_left fun h => by cases h

/-- A name with fewer characters than bytes in its prefix is not that of a key. -/
theorem not_namesKey (hpfx : pfx.val.length < 100) {b : Byte} (hb : b ∈ pfx.val) (hlead : utf8LeadSize b ≠ 1)
    {var : InfolistVar} (hlonger : (pfx.val ++ lit "_name_").length < var.name.val.length) : ¬ NamesKey pfx var := by
  rw [NamesKey, prefixName_val hpfx]
  intro h
  have hlength := strncasecmp_length (utf8Strlen_lt (by decide) hb hlead) h
  omega

set_option maxRecDepth 10000 in
theorem UpgradeSurvives.fits (h : UpgradeSurvives objectId pfx hashtable restored m) (htable : StringTable hashtable m)
    (hrestored : StringTable restored fun _ => none) (hpfx : pfx.val.length < 100) (hentry : ∃ key, m key ≠ none) :
    UpgradeFits pfx hashtable m := by
  obtain ⟨items, hwalk, hitems, -, hcount⟩ := htable.refines.walk
  obtain ⟨vars, hvars, hfrom⟩ := h.from hrestored hwalk
  obtain ⟨key0, hkey0⟩ := hentry
  obtain ⟨value0, hvalue0⟩ := Option.ne_none_iff_exists'.mp hkey0
  obtain ⟨⟨ptrName, hptrName, hname, -⟩, -⟩ := hfrom key0 value0 hvalue0
  obtain ⟨hsize, arg0, harg0, hread0⟩ := hvars ptrName hptrName
  have hfields : upgradeFieldsSize pfx hashtable.itemsCount.toNat < 2147483648 := by
    have hsum := upgradeVars_fieldsSize pfx items 0
    rw [Nat.zero_add, hcount, show upgradeFieldsSize pfx 0 = 1 from rfl] at hsum
    omega
  have hlength : items.length < 2147483648 := by
    rw [hcount]
    exact (entries_lt_fieldsSize pfx _).trans hfields
  -- a comma of the prefix would be in a field
  have hcomma : ch ',' ∉ pfx.val := fun hmem => by
    rw [NamesKey, prefixName_val hpfx] at hname
    have hbytes := strncasecmp_bytes (Nat.le_refl _) hname
    have hin : ch ',' ∈ (pfx.val ++ lit "_name_").map lowerByte :=
      List.mem_map.mpr ⟨ch ',', List.mem_append_left _ hmem, by decide⟩
    rw [← hbytes] at hin
    obtain ⟨c, hc, hlower⟩ := List.mem_map.mp hin
    have hcomma : c = ch ',' :=
      byte_forall (P := fun c => lowerByte c = ch ',' → c = ch ',') (by decide) c hlower
    have hc := List.mem_of_mem_drop (hread0.name ▸ List.mem_of_mem_take hc)
    have hsep := (runs_forall harg0).2 c hc
    rw [hcomma] at hsep
    exact absurd hsep (by decide)
  have hnamed := upgradeVars_named hpfx hcomma (Nat.le_of_lt hlength)
  -- the variable of each variable that was read
  have hvar (var : InfolistVar) (hvar : var ∈ vars) : ∃ var' ∈ upgradeVars pfx 0 items, var.name = var'.name ∧
      ∃ s, var.value = .string s ∧ ∀ value, s = some value → value.val ≠ [] ∧ value.val.length + 1 < 2147483648 := by
    obtain ⟨-, arg, harg, hread⟩ := hvars var hvar
    rw [hnamed.runs] at harg
    obtain ⟨var', hvar', rfl⟩ := List.mem_map.mp harg
    obtain ⟨value', hvalue'⟩ := upgradeVars_string hvar'
    have hfield : infolistField var' = lit "s:" ++ var'.name.val := by rw [infolistField, hvalue']
    have htype := hread.type (by rw [hfield]; rfl)
    have hvarName := hread.name
    rw [hfield] at hvarName
    obtain ⟨s, hs⟩ := htype
    exact ⟨var', hvar', Subtype.ext hvarName, s, hs, fun value hvalue => hread.string value (hvalue ▸ hs)⟩
  refine ⟨hcomma, fun b hb => ?_, fun key value hkey => ?_, fun key value hkey => ?_, hfields⟩
  · by_contra hlead
    obtain ⟨var', hvar', heq, -⟩ := hvar ptrName hptrName
    refine not_namesKey hpfx hb hlead ?_ hname
    obtain ⟨n, -, hn, hname' | hvalue'⟩ := mem_upgradeVars hvar'
    · have hnumber := List.length_pos_of_ne_nil (fmtNatDigits_ne_nil 5 n)
      rw [heq, hname', name_val hpfx (by omega)]
      simp only [List.length_append]
      omega
    · have hlit : (lit "_name_").length < (lit "_value_").length := by decide
      rw [heq, hvalue', value_val hpfx (by omega)]
      simp only [List.length_append]
      omega
  · obtain ⟨⟨ptrName', hptrName', -, hstring⟩, -⟩ := hfrom key value hkey
    obtain ⟨-, -, -, s, hs, hfits⟩ := hvar ptrName' hptrName'
    rw [hs] at hstring
    obtain ⟨s', rfl, rfl⟩ := Option.map_eq_some_iff.mp (Option.some_inj.mp hstring)
    exact hfits s' rfl
  · obtain ⟨-, ptrValue, hptrValue, hstring⟩ := hfrom key value hkey
    obtain ⟨-, -, -, s, hs, hfits⟩ := hvar ptrValue hptrValue
    rw [hs] at hstring
    obtain ⟨s', rfl, rfl⟩ := Option.map_eq_some_iff.mp (Option.some_inj.mp hstring)
    exact hfits s' rfl

theorem survives_of_empty (htable : StringTable hashtable m) (hempty : ∀ key, m key = none) :
    UpgradeSurvives objectId pfx hashtable restored m := by
  obtain ⟨items, hwalk, hitems, -, -⟩ := htable.refines.walk
  obtain rfl : items = [] := List.eq_nil_iff_forall_not_mem.mpr fun d hd => by
    have hd := (hitems d.key d.value).mpr hd
    rw [hempty] at hd
    cases hd
  have hnone (var : InfolistVar) : var ∉ upgradeVars pfx 0 [] := List.not_mem_nil
  have hupgrade := upgrade_eq pfx restored objectId hwalk
    ⟨fun var hvar => absurd hvar (hnone var), fun var hvar => absurd hvar (hnone var), List.Pairwise.nil⟩
    Nat.one_lt_ofNat fun var hvar => absurd hvar (hnone var)
  refine ⟨restored, hupgrade, fun key value hkey => ?_⟩
  rw [hempty] at hkey
  cases hkey

theorem UpgradeFits.survives (h : UpgradeFits pfx hashtable m) (htable : StringTable hashtable m)
    (hrestored : StringTable restored fun _ => none) (hpfx : pfx.val.length < 100) :
    UpgradeSurvives objectId pfx hashtable restored m := by
  obtain ⟨items, hwalk, hitems, -, hcount⟩ := htable.refines.walk
  have hentry (d : ItemData Str Str) (hd : d ∈ items) : ∃ value, d.value = some value ∧ m d.key = some value := by
    obtain ⟨value, hvalue, heq⟩ := Option.map_eq_some_iff.mp ((hitems d.key d.value).mpr hd)
    exact ⟨value, heq.symm, hvalue⟩
  have hlength : items.length < 2147483648 := by
    rw [hcount]
    exact (entries_lt_fieldsSize pfx _).trans h.fields
  have hfields : infolistFieldsSize (upgradeVars pfx 0 items) < 2147483648 := by
    have hsum := upgradeVars_fieldsSize pfx items 0
    have hsize := h.fields
    rw [Nat.zero_add, hcount, show upgradeFieldsSize pfx 0 = 1 from rfl] at hsum
    omega
  have hnamed := upgradeVars_named hpfx h.comma (Nat.le_of_lt hlength)
  have hupgrade := upgrade_eq pfx restored objectId hwalk hnamed hfields
    fun var hvar s hs => by
      obtain ⟨d, hd, hstring⟩ := string_of_mem_upgradeVars hvar hs
      obtain ⟨value, hvalue, hkey⟩ := hentry d hd
      obtain ⟨hkeyEnd, hvalueEnd⟩ := htable.ends _ _ hkey
      rcases hstring with rfl | ⟨value', hvalue', rfl⟩
      · rw [cString_of_not_mem hkeyEnd]
        exact h.key _ _ hkey
      · rw [hvalue] at hvalue'
        cases hvalue'
        rw [cString_of_not_mem hvalueEnd]
        exact h.value _ _ hkey
  obtain ⟨hashtable', hadd, hm'⟩ := addVars_upgradeVars hpfx h.oneByte hnamed 0 (by omega)
    (fun _ hvar => hvar)
    (fun d hd => by
      obtain ⟨value, hvalue, hkey⟩ := hentry d hd
      obtain ⟨hkeyEnd, hvalueEnd⟩ := htable.ends _ _ hkey
      exact ⟨hkeyEnd, value, hvalue, hvalueEnd⟩)
    hrestored.refines hrestored.typeValues
  rw [hadd] at hupgrade
  refine ⟨hashtable', hupgrade, fun key value hkey => ?_⟩
  have hm : (items.foldl (fun m d => Function.update m d.key (some d.value)) (fun _ => (none : Option Str).map some) :
      Str → Option (Option Str)) key = some (some value) := by
    have hd := (hitems key (some value)).mp (congrArg (Option.map some) hkey)
    rw [foldl_update (fun key => (m key).map some) (fun d hd => (hitems d.key d.value).mpr hd)
      (.inr ⟨_, hd, rfl⟩), hkey]
    rfl
  rw [hm'.hasKey, hm'.get, hm]
  exact ⟨rfl, rfl⟩

/-- A table of strings survives `/upgrade` if and only if it is empty, or the prefix
has no comma and no character of several bytes, no key and no value is empty, and the
sizes are those of an `int`. -/
theorem hashtable_upgrade_iff (objectId : Int32) (pfx : CStr)
    (hashtable restored : Hashtable (HashtableKey .string) (HashtableValue .string)) (m : Str → Option Str)
    (htable : StringTable hashtable m) (hrestored : StringTable restored fun _ => none)
    (hpfx : pfx.val.length < 100) :
    UpgradeSurvives objectId pfx hashtable restored m ↔ (∀ key, m key = none) ∨ UpgradeFits pfx hashtable m := by
  constructor
  · intro h
    by_cases hempty : ∀ key, m key = none
    · exact .inl hempty
    · exact .inr (h.fits htable hrestored hpfx (not_forall.mp hempty))
  · rintro (hempty | hfits)
    · exact survives_of_empty htable hempty
    · exact hfits.survives htable hrestored hpfx

end

/-! A table with one key, that has a value or an empty one. -/

/-- A new table of strings. -/
def emptyTable : Hashtable (HashtableKey .string) (HashtableValue .string) where
  size := 1
  htable := fun _ => none
  itemsCount := 0
  typeKeys := .string
  typeValues := .string
  callbackHashKey := hashtableHashKeyDefaultCb .string
  callbackKeycmp := hashtableKeycmpDefaultCb .string
  items := fun _ => none
  nextAddr := 0

theorem emptyTable_ok : StringTable emptyTable fun _ => none := by
  obtain ⟨hashtable, hnew, -, -, -, -, hm⟩ :=
    hashtableNew_refines (HashtableValue .string) Int.one_pos (by decide : HashtableType.string ≠ .buffer) .string
  cases (show hashtableNew 1 .string .string (HashtableValue .string) = some emptyTable from rfl).symm.trans hnew
  exact ⟨hm, rfl, rfl, fun key value h => by cases h⟩

/-- The entries of a table with one key. -/
def oneEntry (value : Str) (key : Str) : Option Str := if key = lit "a" then some value else none

theorem oneTable (value : Str) (hvalue : 0 ∉ value) :
    ∃ hashtable, StringTable hashtable (oneEntry value) ∧ hashtable.itemsCount = 1 := by
  obtain ⟨hashtable, item, hset, hkind, hm⟩ := emptyTable_ok.refines.set (lit "a") (some value)
  have hcount : (hashtableSet emptyTable (lit "a") (some value)).map (fun r => (r.1.itemsCount, r.1.typeKeys)) =
      some (1, .string) := rfl
  rw [hset] at hcount
  obtain ⟨hcount, hkeys⟩ := Prod.mk.inj (Option.some_inj.mp hcount)
  refine ⟨hashtable, ⟨?_, hkeys, hkind.typeValues, fun key value' h => ?_⟩, hcount⟩
  · rw [if_neg (by decide)] at hm
    convert hm using 1
    funext key
    rw [oneEntry]
    by_cases hkey : key = lit "a"
    · rw [if_pos hkey, hkey, Function.update_self]
      rfl
    · rw [if_neg hkey, Function.update_of_ne hkey]
  · rw [oneEntry] at h
    split at h
    · rename_i hkey
      cases h
      rw [hkey]
      exact ⟨by decide, hvalue⟩
    · cases h

/-- The prefix of the names of local variables. -/
def localVariables : CStr := cString (lit "localvar")

theorem hashtable_upgrade_iff_one : ∃ hashtable, StringTable hashtable (oneEntry (lit "x")) ∧
    UpgradeSurvives 3 localVariables hashtable emptyTable (oneEntry (lit "x")) := by
  obtain ⟨hashtable, htable, hcount⟩ := oneTable (lit "x") (by decide)
  refine ⟨hashtable, htable, (hashtable_upgrade_iff 3 localVariables hashtable emptyTable _ htable emptyTable_ok
    (by decide)).mpr (.inr ⟨by decide, by decide, ?_, ?_, ?_⟩)⟩
  · intro key value h
    rw [oneEntry] at h
    split at h
    · rename_i hkey
      rw [hkey]
      exact ⟨by decide, by decide⟩
    · cases h
  · intro key value h
    rw [oneEntry] at h
    split at h
    · cases h
      exact ⟨by decide, by decide⟩
    · cases h
  · rw [hcount]
    decide

/-- An empty value is NULL after the upgrade. -/
theorem hashtable_upgrade_fails : ∃ hashtable, StringTable hashtable (oneEntry []) ∧
    ¬ UpgradeSurvives 3 localVariables hashtable emptyTable (oneEntry []) := by
  obtain ⟨hashtable, htable, -⟩ := oneTable [] List.not_mem_nil
  refine ⟨hashtable, htable, fun h => ?_⟩
  have hfits := h.fits htable emptyTable_ok (by decide) ⟨lit "a", by decide⟩
  exact (hfits.value (lit "a") [] (by decide)).1 rfl

end Wirc

import WhoreIrc.Proof.ConfigFile
import WhoreIrc.Proof.Secure
import WhoreIrc.Proof.StringSplit
import WhoreIrc.Spec.UpgradeFile

/-!
# Upgrade files are read back

Each thing that is written is read back before anything that follows it: an
integer, a string, a variable (`readVars_var`), an item (`readObject_item`) and
the objects.
-/

namespace Wirc

open Framework

/-! ## Numbers and strings -/

section

variable {rest : List Byte} {eof : Bool}

theorem fread_append (l : List Byte) {n : Nat} (hn : n = l.length) :
    fread ⟨l ++ rest, eof⟩ n = (some l, ⟨rest, eof⟩) := by
  rw [fread, if_pos (by rw [hn, List.length_append]; exact Nat.le_add_right ..), hn]
  simp only [List.take_left, List.drop_left]

theorem readInteger_write (value : Int32) :
    upgradeFileReadInteger ⟨upgradeFileWriteInteger value ++ rest, eof⟩ = (some value, ⟨rest, eof⟩) := by
  rw [upgradeFileReadInteger, upgradeFileWriteInteger, fread_append _ (length_leBytes 4 _).symm]
  dsimp only
  rw [leNat_leBytes_of_lt (by have := value.toUInt32.toNat_lt; omega), UInt32.ofNat_toNat]
  rfl

theorem readTime_write (date : Int64) :
    upgradeFileReadTime ⟨upgradeFileWriteTime date ++ rest, eof⟩ = (some date, ⟨rest, eof⟩) := by
  rw [upgradeFileReadTime, upgradeFileWriteTime, fread_append _ (length_leBytes 8 _).symm]
  dsimp only
  rw [leNat_leBytes_of_lt (by have := date.toUInt64.toNat_lt; omega), UInt64.ofNat_toNat]
  rfl

theorem toInt_ofNat_length {n : Nat} (h : n < 2147483648) : (Int32.ofNat n).toInt = n := by
  rw [Int32.toInt_ofNat_of_lt h]

theorem fwrite_length {s : List Byte} (hs : s ≠ []) (h : s.length < 2147483648) :
    fwrite s (Int32.ofNat s.length) = some s := by
  have hpos := List.length_pos_iff.mpr hs
  have hlt : (0 : Int32) < Int32.ofNat s.length := by
    rw [Int32.lt_iff_toInt_lt, toInt_ofNat_length h]
    exact Int.natCast_pos.mpr hpos
  rw [fwrite, if_pos hlt, toInt_ofNat_length h, Int.toNat_natCast, List.take_length]

/-- A string in a file: its length, and its bytes. -/
def stringBytes (s : List Byte) : List Byte := upgradeFileWriteInteger (Int32.ofNat s.length) ++ s

theorem writeString_eq {s : Str} (h : s.length + 1 < 2147483648) :
    upgradeFileWriteString (some s) = some (stringBytes s) := by
  cases s with
  | nil => rfl
  | cons c s =>
    rw [upgradeFileWriteString, fwrite_length (List.cons_ne_nil c s) (Nat.lt_of_succ_lt h)]
    rfl

theorem readString_bytes {s : List Byte} (h : s.length + 1 < 2147483648) :
    upgradeFileReadString ⟨stringBytes s ++ rest, eof⟩ = (true, if s = [] then none else some s, ⟨rest, eof⟩) := by
  rw [upgradeFileReadString, stringBytes, List.append_assoc, readInteger_write]
  dsimp only
  rcases eq_or_ne s [] with rfl | hs
  · rfl
  · have hpos := List.length_pos_iff.mpr hs
    have htoInt := toInt_ofNat_length (n := s.length) (by omega)
    have hne : Int32.ofNat s.length ≠ 0 := fun h0 => by
      rw [h0] at htoInt
      have : (0 : Int) = s.length := htoInt
      omega
    have hmalloc : mallocInt ((s.length : Int) + 1) = some (s.length + 1) := mallocInt_of_fits h
    rw [if_neg hne, htoInt, hmalloc]
    dsimp only
    rw [toSizeT_natCast (by omega), fread_append s rfl, if_neg hs]

theorem readBuffer_bytes {s : List Byte} (hs : s ≠ []) (h : s.length < 2147483648) (size : Int32) :
    upgradeFileReadBuffer ⟨stringBytes s ++ rest, eof⟩ size =
      (true, some s, Int32.ofNat s.length, ⟨rest, eof⟩) := by
  have hpos := List.length_pos_iff.mpr hs
  have htoInt := toInt_ofNat_length h
  have hlt : (0 : Int32) < Int32.ofNat s.length := by
    rw [Int32.lt_iff_toInt_lt, htoInt]
    exact Int.natCast_pos.mpr hpos
  rw [upgradeFileReadBuffer, stringBytes, List.append_assoc, readInteger_write]
  dsimp only
  rw [if_pos hlt, htoInt, Int.toNat_natCast, fread_append s rfl]

end

/-! ## Fields -/

section

variable {item : InfolistItem} {var : InfolistVar}

/-- The first variable with the name of a variable is this one. -/
theorem InfolistItem.Named.search (h : item.Named) (hvar : var ∈ item.vars) :
    infolistSearchVar item var.name.val = some var := by
  rw [infolistSearchVar, if_neg (h.ne_nil var hvar)]
  obtain ⟨xs, ys, hxy⟩ := List.append_of_mem hvar
  have hdistinct := h.distinct
  rw [hxy, List.pairwise_append] at hdistinct
  rw [hxy, List.find?_append, List.find?_eq_none.mpr fun x hx => ?_, Option.none_or, List.find?_cons_of_pos]
  · rw [stringStrcasecmp_self]
    rfl
  · rw [decide_eq_true_eq]
    exact hdistinct.2.2 x hx var (List.mem_cons_self ..)

/-- The fields are those of the variables. -/
theorem InfolistItem.Named.runs (h : item.Named) :
    runs (isIn (lit ",")) (infolistFieldsString item.vars) = item.vars.map infolistField := by
  have hsep : ∀ c, isIn (lit ",") c = false ↔ c ≠ ch ',' := fun c => by
    rw [isIn, decide_eq_false_iff_not]
    exact not_congr List.mem_singleton
  refine runs_intercalate (by decide) fun w hw => ?_
  obtain ⟨var, hvar, rfl⟩ := List.mem_map.mp hw
  refine ⟨?_, fun c hc => (hsep c).mpr ?_⟩
  · rw [infolistField]
    exact List.append_ne_nil_of_right_ne_nil _ (h.ne_nil var hvar)
  · rintro rfl
    rw [infolistField, List.mem_append] at hc
    rcases hc with hc | hc
    · cases hvalue : var.value with
      | integer value => exact absurd (show ch ',' ∈ lit "i:" by rwa [hvalue] at hc) (by decide)
      | string value => exact absurd (show ch ',' ∈ lit "s:" by rwa [hvalue] at hc) (by decide)
      | pointer => exact absurd (show ch ',' ∈ lit "p:" by rwa [hvalue] at hc) (by decide)
      | buffer value => exact absurd (show ch ',' ∈ lit "b:" by rwa [hvalue] at hc) (by decide)
      | time value => exact absurd (show ch ',' ∈ lit "t:" by rwa [hvalue] at hc) (by decide)
    · exact h.comma var hvar hc

/-- The fields are split into the variables. -/
theorem InfolistItem.Named.split (h : item.Named) :
    stringSplit (infolistFieldsString item.vars) (lit ",") none ⟨true, true, true, false⟩ 0 =
      if item.vars = [] then none else some (item.vars.map infolistField) := by
  rw [stringSplit_runs _ (by decide), h.runs]
  simp only [List.map_eq_nil_iff]

/-- The fields have room for each name. -/
theorem name_lt_fieldsSize {vars : List InfolistVar} (hvar : var ∈ vars) :
    var.name.val.length + 1 < infolistFieldsSize vars := by
  induction hvar with
  | head vars =>
    rw [infolistFieldsSize]
    omega
  | tail var' hvar ih =>
    rw [infolistFieldsSize]
    omega

theorem InfolistItem.Fits.name (h : item.Fits) (hvar : var ∈ item.vars) : var.name.val.length + 1 < 2147483648 :=
  (name_lt_fieldsSize hvar).trans h.fields

/-! ## Variables -/

/-- What is written before the value of a variable. -/
def headerBytes (name : Str) (type : Int32) : List Byte :=
  upgradeFileWriteInteger upgradeTypeObjectVar ++ (stringBytes name ++ upgradeFileWriteInteger type)

/-- What is written for a variable. -/
def varBytes (var : InfolistVar) : List Byte :=
  match var.value with
  | .integer value => headerBytes var.name.val infolistTypeInteger ++ upgradeFileWriteInteger value
  | .string value => headerBytes var.name.val infolistTypeString ++ stringBytes ((value.map Subtype.val).getD [])
  | .pointer => []
  | .buffer (some (b :: buf)) => headerBytes var.name.val infolistTypeBuffer ++ stringBytes (b :: buf)
  | .buffer _ => []
  | .time value => headerBytes var.name.val infolistTypeTime ++ upgradeFileWriteTime value

theorem writeHeader_eq {name : Str} (h : name.length + 1 < 2147483648) (type : Int32) :
    upgradeFileWriteHeader name type = some (headerBytes name type) := by
  rw [upgradeFileWriteHeader, writeString_eq h, headerBytes]
  simp only [Option.bind_eq_bind, Option.bind_some, List.append_assoc]

/-- Each field is written as its variable. -/
theorem writeVar_eq (hnamed : item.Named) (hfits : item.Fits) (hvar : var ∈ item.vars) :
    upgradeFileWriteVar item (infolistField var) = some (varBytes var) := by
  have hsearch := hnamed.search hvar
  have hheader := writeHeader_eq (hfits.name hvar)
  have hstring := hfits.string var hvar
  have hbuffer := hfits.buffer var hvar
  obtain ⟨name, value⟩ := var
  dsimp only at hsearch hheader hstring hbuffer
  cases value with
  | integer value =>
    have hdrop : (infolistField ⟨name, .integer value⟩).drop 2 = name.val := rfl
    have hhead : (infolistField ⟨name, .integer value⟩).head? = some (ch 'i') := rfl
    simp only [upgradeFileWriteVar, hdrop, hhead, if_true, infolistInteger, hsearch, hheader, varBytes,
      Option.bind_eq_bind, Option.bind_some]
  | string value =>
    have hdrop : (infolistField ⟨name, .string value⟩).drop 2 = name.val := rfl
    have hhead : (infolistField ⟨name, .string value⟩).head? = some (ch 's') := rfl
    have hvalue : upgradeFileWriteString (value.map Subtype.val) =
        some (stringBytes ((value.map Subtype.val).getD [])) := by
      cases value with
      | none => rfl
      | some value => exact writeString_eq (hstring value rfl)
    simp only [upgradeFileWriteVar, hdrop, hhead, infolistString, hsearch, hheader, hvalue, varBytes,
      Option.bind_eq_bind, Option.bind_some]
    rfl
  | pointer => rfl
  | buffer value =>
    have hdrop : (infolistField ⟨name, .buffer value⟩).drop 2 = name.val := rfl
    have hhead : (infolistField ⟨name, .buffer value⟩).head? = some (ch 'b') := rfl
    cases value with
    | none =>
      simp only [upgradeFileWriteVar, hdrop, hhead, infolistBuffer, hsearch, varBytes]
      rfl
    | some value =>
      cases value with
      | nil =>
        simp only [upgradeFileWriteVar, hdrop, hhead, infolistBuffer, hsearch, varBytes]
        rfl
      | cons b buf =>
        have hlength := hbuffer (b :: buf) rfl
        have hlt : (0 : Int32) < Int32.ofNat (b :: buf).length := by
          rw [Int32.lt_iff_toInt_lt, toInt_ofNat_length hlength]
          exact Int.natCast_pos.mpr (Nat.succ_pos _)
        simp only [upgradeFileWriteVar, hdrop, hhead, infolistBuffer, hsearch, hlt, hheader, varBytes,
          upgradeFileWriteBuffer, fwrite_length (List.cons_ne_nil b buf) hlength, Option.bind_eq_bind,
          Option.bind_some, if_true]
        rfl
  | time value =>
    have hdrop : (infolistField ⟨name, .time value⟩).drop 2 = name.val := rfl
    have hhead : (infolistField ⟨name, .time value⟩).head? = some (ch 't') := rfl
    simp only [upgradeFileWriteVar, hdrop, hhead, infolistTime, hsearch, hheader, varBytes,
      Option.bind_eq_bind, Option.bind_some]
    rfl

/-- The fields are split, and each variable is written. -/
theorem writeVars_mapM (hnamed : item.Named) (hfields : infolistFields item = some (infolistFieldsString item.vars)) :
    upgradeFileWriteVars item = (item.vars.mapM (upgradeFileWriteVar item ∘ infolistField)).map List.flatten := by
  rw [upgradeFileWriteVars, hfields]
  dsimp only
  rw [hnamed.split]
  by_cases hnil : item.vars = []
  · rw [if_pos hnil, hnil]
    rfl
  · rw [if_neg hnil]
    dsimp only
    rw [List.mapM_map]

/-- The variables of an item, in order. -/
theorem writeVars_eq (hnamed : item.Named) (hfits : item.Fits) :
    upgradeFileWriteVars item = some (item.vars.map varBytes).flatten := by
  have hfields : infolistFields item = some (infolistFieldsString item.vars) := by
    rw [infolistFields]
    cases hf : item.fields with
    | some fields => rw [hfits.current fields hf]
    | none => rw [if_pos hfits.fields]
  have hmap : item.vars.mapM (upgradeFileWriteVar item ∘ infolistField) = some (item.vars.map varBytes) :=
    mapM_some fun var hvar => writeVar_eq hnamed hfits hvar
  rw [writeVars_mapM hnamed hfields, hmap, Option.map_some]

/-! ## Reading variables -/

variable {rest : List Byte} {eof : Bool}

/-- A variable is read if its value is. -/
theorem readVars_header {name : CStr} (hname : name.val ≠ []) (hlength : name.val.length + 1 < 2147483648) {type : Int32}
    {value : List Byte} {scratch scratch' : UpgradeScratch} {vars vars' : List InfolistVar}
    (hvalue : upgradeFileReadValue { scratch with name := some name.val } vars name type ⟨value ++ rest, eof⟩ =
      (some (vars', scratch'), ⟨rest, eof⟩)) (rounds : Nat) :
    upgradeFileReadVars (rounds + 1) scratch vars ⟨headerBytes name.val type ++ value ++ rest, eof⟩ =
      upgradeFileReadVars rounds scratch' vars' ⟨rest, eof⟩ := by
  have hcString : cString name.val = name := Subtype.ext (cString_of_not_mem name.2)
  have hvar : upgradeFileReadVar scratch vars
      ⟨stringBytes name.val ++ (upgradeFileWriteInteger type ++ (value ++ rest)), eof⟩ =
      (some (vars', scratch'), ⟨rest, eof⟩) := by
    rw [upgradeFileReadVar, readString_bytes hlength, if_neg hname]
    dsimp only
    rw [readInteger_write]
    dsimp only
    rw [hcString, hvalue]
  rw [headerBytes]
  simp only [List.append_assoc]
  rw [upgradeFileReadVars, readInteger_write]
  dsimp only
  rw [if_neg (by decide), if_pos rfl, hvar]

/-- A variable that is left out has no bytes. -/
theorem varBytes_of_kept_none (h : var.kept = none) : varBytes var = [] := by
  obtain ⟨name, value⟩ := var
  cases value with
  | integer value => cases h
  | string value => cases value <;> cases h
  | pointer => rfl
  | buffer value =>
    cases value with
    | none => rfl
    | some value =>
      cases value with
      | nil => rfl
      | cons b buf => cases h
  | time value => cases h

/-- A variable that is kept is read back. -/
theorem readVars_var {var' : InfolistVar} (hnamed : item.Named) (hfits : item.Fits) (hvar : var ∈ item.vars)
    (hkept : var.kept = some var') (scratch : UpgradeScratch) (vars : List InfolistVar) (rounds : Nat) :
    varBytes var ≠ [] ∧ ∃ scratch', upgradeFileReadVars (rounds + 1) scratch vars ⟨varBytes var ++ rest, eof⟩ =
      upgradeFileReadVars rounds scratch' (vars ++ [var']) ⟨rest, eof⟩ := by
  have hname := hnamed.ne_nil var hvar
  have hlength := hfits.name hvar
  have hstring := hfits.string var hvar
  have hbuffer := hfits.buffer var hvar
  obtain ⟨name, value⟩ := var
  dsimp only at hname hlength hstring hbuffer
  have hne : ∀ type bytes, headerBytes name.val type ++ bytes ≠ [] := fun type bytes h => by
    have hlen := congrArg List.length h
    rw [headerBytes, List.length_append, List.length_append, upgradeFileWriteInteger, length_leBytes] at hlen
    rw [List.length_nil] at hlen
    omega
  cases value with
  | integer value =>
    cases hkept
    have hvalue : upgradeFileReadValue { scratch with name := some name.val } vars name infolistTypeInteger
        ⟨upgradeFileWriteInteger value ++ rest, eof⟩ =
        (some (vars ++ [⟨name, .integer value⟩], { scratch with name := some name.val }), ⟨rest, eof⟩) := by
      rw [upgradeFileReadValue, if_pos rfl, readInteger_write]
      dsimp only
      rw [infolistNewVarInteger, infolistNewVar, if_neg hname]
    exact ⟨hne _ _, _, readVars_header hname hlength hvalue rounds⟩
  | string value =>
    have hkept' : var' = ⟨name, .string (if (value.map Subtype.val).getD [] = [] then none else value)⟩ := by
      cases value with
      | none => cases hkept; rfl
      | some value => cases hkept; rfl
    have hfit : ((value.map Subtype.val).getD []).length + 1 < 2147483648 := by
      cases value with
      | none => exact Nat.one_lt_ofNat
      | some value => exact hstring value rfl
    have hcString : (if (value.map Subtype.val).getD [] = [] then none else
        some ((value.map Subtype.val).getD [])).map cString =
        if (value.map Subtype.val).getD [] = [] then none else value := by
      split
      · rfl
      · cases value with
        | none => contradiction
        | some value => exact congrArg some (Subtype.ext (cString_of_not_mem value.2))
    have hvalue : upgradeFileReadValue { scratch with name := some name.val } vars name infolistTypeString
        ⟨stringBytes ((value.map Subtype.val).getD []) ++ rest, eof⟩ =
        (some (vars ++ [var'], ⟨some name.val, if (value.map Subtype.val).getD [] = [] then none else
          some ((value.map Subtype.val).getD []), scratch.buffer, scratch.size⟩), ⟨rest, eof⟩) := by
      rw [upgradeFileReadValue, if_neg (by decide), if_pos rfl, readString_bytes hfit]
      dsimp only
      rw [hcString, infolistNewVarString, infolistNewVar, if_neg hname, hkept']
    exact ⟨hne _ _, _, readVars_header hname hlength hvalue rounds⟩
  | pointer => cases hkept
  | buffer value =>
    rcases value with _ | _ | ⟨b, buf⟩
    · cases hkept
    · cases hkept
    · cases hkept
      have hfit := hbuffer (b :: buf) rfl
      have htoInt := toInt_ofNat_length hfit
      have hpos : ¬ Int32.ofNat (b :: buf).length ≤ 0 := by
        rw [Int32.le_iff_toInt_le, htoInt]
        exact not_le.mpr (Int.natCast_pos.mpr (Nat.succ_pos _))
      have hvalue : upgradeFileReadValue { scratch with name := some name.val } vars name infolistTypeBuffer
          ⟨stringBytes (b :: buf) ++ rest, eof⟩ =
          (some (vars ++ [⟨name, .buffer (some (b :: buf))⟩],
            ⟨some name.val, scratch.valueStr, some (b :: buf), Int32.ofNat (b :: buf).length⟩), ⟨rest, eof⟩) := by
        rw [upgradeFileReadValue, if_neg (by decide), if_neg (by decide), if_neg (by decide), if_pos rfl,
          readBuffer_bytes (List.cons_ne_nil b buf) hfit]
        dsimp only
        rw [infolistNewVarBuffer, if_neg hpos, infolistNewVar, if_neg hname, htoInt, Int.toNat_natCast,
          Option.getD_some, List.take_length]
      exact ⟨hne _ _, _, readVars_header hname hlength hvalue rounds⟩
  | time value =>
    cases hkept
    have hvalue : upgradeFileReadValue { scratch with name := some name.val } vars name infolistTypeTime
        ⟨upgradeFileWriteTime value ++ rest, eof⟩ =
        (some (vars ++ [⟨name, .time value⟩], { scratch with name := some name.val }), ⟨rest, eof⟩) := by
      rw [upgradeFileReadValue, if_neg (by decide), if_neg (by decide), if_neg (by decide), if_neg (by decide),
        if_pos rfl, readTime_write]
      dsimp only
      rw [infolistNewVarTime, infolistNewVar, if_neg hname]
    exact ⟨hne _ _, _, readVars_header hname hlength hvalue rounds⟩

/-- The variables that are kept are read back, up to the end of the item. -/
theorem readVars_vars (hnamed : item.Named) (hfits : item.Fits) {left : List InfolistVar}
    (hleft : ∀ var ∈ left, var ∈ item.vars) (rest : List Byte) (eof : Bool) :
    ∀ (rounds : Nat) (scratch : UpgradeScratch) (vars : List InfolistVar),
    (left.map varBytes).flatten.length < rounds →
    upgradeFileReadVars rounds scratch vars
      ⟨(left.map varBytes).flatten ++ (upgradeFileWriteInteger upgradeTypeObjectEnd ++ rest), eof⟩ =
      some (some (vars ++ left.filterMap InfolistVar.kept), ⟨rest, eof⟩) := by
  induction left with
  | nil =>
    rintro (_ | rounds) scratch vars hrounds
    · cases hrounds
    · rw [upgradeFileReadVars, List.map_nil, List.flatten_nil, List.nil_append, readInteger_write]
      dsimp only
      rw [if_pos rfl, List.filterMap_nil, List.append_nil]
  | cons var left ih =>
    intro rounds scratch vars hrounds
    have ih := ih fun var hvar => hleft var (List.mem_cons_of_mem _ hvar)
    rw [List.map_cons, List.flatten_cons, List.length_append] at hrounds
    rw [List.map_cons, List.flatten_cons, List.append_assoc]
    cases hkept : var.kept with
    | none =>
      rw [varBytes_of_kept_none hkept, List.nil_append, List.filterMap_cons_none hkept]
      exact ih rounds scratch vars (by omega)
    | some var' =>
      obtain ⟨rounds, rfl⟩ := Nat.exists_eq_succ_of_ne_zero (Nat.ne_zero_of_lt hrounds)
      obtain ⟨hne, scratch', hread⟩ := readVars_var hnamed hfits (hleft var (List.mem_cons_self ..)) hkept scratch vars
        rounds
      have hpos := List.length_pos_iff.mpr hne
      rw [Nat.succ_eq_add_one, hread, ih rounds scratch' _ (by omega), List.filterMap_cons_some hkept,
        List.append_assoc, List.singleton_append]

/-! ## Objects -/

/-- What is written for an item of an object. -/
def itemBytes (entry : Int32 × InfolistItem) : List Byte :=
  upgradeFileWriteInteger upgradeTypeObjectStart ++ upgradeFileWriteInteger entry.1 ++
    (entry.2.vars.map varBytes).flatten ++ upgradeFileWriteInteger upgradeTypeObjectEnd

/-- The items of the objects, each with its object. -/
def entries (objects : List (Int32 × List InfolistItem)) : List (Int32 × InfolistItem) :=
  objects.flatMap fun object => object.2.map fun item => (object.1, item)

/-- The call that is expected for an item. -/
def entryCall (entry : Int32 × InfolistItem) : UpgradeCall := (entry.1, entry.2.vars.filterMap InfolistVar.kept)

theorem upgradeCalls_eq (objects : List (Int32 × List InfolistItem)) :
    upgradeCalls objects = (entries objects).map entryCall := by
  rw [upgradeCalls, entries, List.map_flatMap]
  simp only [List.map_map]
  rfl

/-- The items are written one after the other. -/
theorem write_eq {objects : List (Int32 × List InfolistItem)}
    (hobjects : ∀ object ∈ objects, ∀ item ∈ object.2, item.Named ∧ item.Fits) :
    upgradeFileWrite objects = some (stringBytes upgradeSignature ++ ((entries objects).map itemBytes).flatten) := by
  have hnew : upgradeFileNew = some (stringBytes upgradeSignature) := writeString_eq (by decide)
  have hobject : ∀ object ∈ objects, upgradeFileWriteObject object.1 object.2 =
      some (object.2.map fun item => itemBytes (object.1, item)).flatten := fun object hobject => by
    rw [upgradeFileWriteObject, mapM_some (g := fun item => itemBytes (object.1, item)) fun item hitem => ?_,
      Option.map_some]
    obtain ⟨hnamed, hfits⟩ := hobjects object hobject item hitem
    rw [upgradeFileWriteItem, writeVars_eq hnamed hfits]
    rfl
  have hentries : (objects.map fun object => (object.2.map fun item => itemBytes (object.1, item)).flatten).flatten =
      ((entries objects).map itemBytes).flatten := by
    rw [entries, List.map_flatMap, List.flatten_eq_flatMap, List.flatten_eq_flatMap, List.flatMap_assoc,
      List.flatMap_map]
    simp only [List.map_map, List.flatten_eq_flatMap, id]
    rfl
  rw [upgradeFileWrite, hnew, mapM_some hobject, ← hentries]
  rfl

section

variable {callbackRead : List UpgradeCall → UpgradeCall → Int}

/-- An item is read back, and the callback called. -/
theorem readObject_item {entry : Int32 × InfolistItem} (hnamed : entry.2.Named) (hfits : entry.2.Fits)
    (calls : List UpgradeCall) :
    upgradeFileReadObject callbackRead calls ⟨itemBytes entry ++ rest, eof⟩ =
      some (decide (callbackRead calls (entryCall entry) ≠ rcError), calls ++ [entryCall entry], ⟨rest, eof⟩) := by
  have hvars := readVars_vars hnamed hfits (fun _ h => h) rest eof
    (((entry.2.vars.map varBytes).flatten ++
      (upgradeFileWriteInteger upgradeTypeObjectEnd ++ rest)).length + 1) ⟨none, none, none, 0⟩ []
    (by rw [List.length_append]; omega)
  rw [itemBytes]
  simp only [List.append_assoc]
  rw [upgradeFileReadObject, readInteger_write]
  dsimp only
  rw [if_neg (fun h => h rfl), readInteger_write]
  dsimp only
  rw [hvars]
  rfl

/-- All items are read back, up to the first error of the callback. -/
theorem readObjects_entries {left : List (Int32 × InfolistItem)}
    (hleft : ∀ entry ∈ left, entry.2.Named ∧ entry.2.Fits) : ∀ (rounds : Nat) (calls : List UpgradeCall),
    (left.map itemBytes).flatten.length + 1 < rounds →
    upgradeFileReadObjects callbackRead rounds calls ⟨(left.map itemBytes).flatten, false⟩ =
      some (callsUntilError callbackRead calls (left.map entryCall)) := by
  induction left with
  | nil =>
    rintro (_ | _ | rounds) calls hrounds
    · cases hrounds
    · exact absurd hrounds (lt_irrefl _)
    · rfl
  | cons entry left ih =>
    intro rounds calls hrounds
    have ih := ih fun entry hentry => hleft entry (List.mem_cons_of_mem _ hentry)
    obtain ⟨hnamed, hfits⟩ := hleft entry (List.mem_cons_self ..)
    obtain ⟨rounds, rfl⟩ := Nat.exists_eq_succ_of_ne_zero (Nat.ne_zero_of_lt hrounds)
    have hitem : 4 ≤ (itemBytes entry).length := by
      have hend : (upgradeFileWriteInteger upgradeTypeObjectEnd).length = 4 := length_leBytes ..
      rw [itemBytes, List.length_append, hend]
      exact Nat.le_add_left ..
    rw [List.map_cons, List.flatten_cons, List.length_append] at hrounds
    rw [List.map_cons, List.flatten_cons, Nat.succ_eq_add_one, upgradeFileReadObjects, if_neg Bool.false_ne_true,
      readObject_item hnamed hfits, List.map_cons, callsUntilError]
    by_cases herror : callbackRead calls (entryCall entry) = rcError
    · rw [if_pos herror, decide_eq_false (not_not.mpr herror)]
    · rw [if_neg herror, decide_eq_true herror]
      exact ih rounds _ (by omega)

end

end

/-! ## Files -/

section

variable {callbackRead : List UpgradeCall → UpgradeCall → Int}

/-- All calls are made if there is no error. -/
theorem callsUntilError_all (hcallback : ∀ calls call, callbackRead calls call ≠ rcError)
    (left calls : List UpgradeCall) :
    callsUntilError callbackRead calls left = (true, calls ++ left) := by
  induction left generalizing calls with
  | nil => rw [callsUntilError, List.append_nil]
  | cons call left ih =>
    rw [callsUntilError, if_neg (hcallback calls call), ih, List.append_assoc, List.singleton_append]

/-- After the signature, all items are read back. -/
theorem read_entries {left : List (Int32 × InfolistItem)} (hleft : ∀ entry ∈ left, entry.2.Named ∧ entry.2.Fits) :
    upgradeFileRead callbackRead ⟨stringBytes upgradeSignature ++ (left.map itemBytes).flatten, false⟩ =
      some (callsUntilError callbackRead [] (left.map entryCall)) := by
  have hsignature : (cString upgradeSignature).val = upgradeSignature := cString_of_not_mem (by decide)
  rw [upgradeFileRead, readString_bytes (by decide), if_neg (by decide)]
  dsimp only
  rw [if_pos hsignature]
  exact readObjects_entries hleft _ [] (Nat.lt_succ_self _)

end

/-- What was written is read back. -/
theorem write_read {objects : List (Int32 × List InfolistItem)}
    (hobjects : ∀ object ∈ objects, ∀ item ∈ object.2, item.Named ∧ item.Fits) :
    ∃ bytes, upgradeFileWrite objects = some bytes ∧ ∀ callbackRead : List UpgradeCall → UpgradeCall → Int,
      upgradeFileRead callbackRead ⟨bytes, false⟩ =
        some (callsUntilError callbackRead [] (upgradeCalls objects)) := by
  refine ⟨_, write_eq hobjects, fun callbackRead => ?_⟩
  rw [upgradeCalls_eq]
  refine read_entries fun entry hentry => ?_
  obtain ⟨object, hobject, hentry⟩ := List.mem_flatMap.mp hentry
  obtain ⟨item, hitem, rfl⟩ := List.mem_map.mp hentry
  exact hobjects object hobject item hitem

theorem roundtrip_of_fits {objects : List (Int32 × List InfolistItem)}
    (hobjects : ∀ object ∈ objects, ∀ item ∈ object.2, item.Named ∧ item.Fits) : UpgradeRoundtrip objects := by
  obtain ⟨bytes, hwrite, hread⟩ := write_read hobjects
  refine ⟨bytes, hwrite, fun callbackRead hcallback => ?_⟩
  rw [hread, callsUntilError_all hcallback, List.nil_append]

/-- Upgrade files are read back, with a call for each item, up to the first
error of the callback; names are not empty, have no comma and are distinct, sizes
are those of an `int`, and no list of fields is an old one. -/
theorem upgradeFile_roundtrip (objects : List (Int32 × List InfolistItem))
    (hobjects : ∀ object ∈ objects, ∀ item ∈ object.2, item.Named ∧ item.Fits) :
    UpgradeRoundtrip objects ∧ ∃ bytes, upgradeFileWrite objects = some bytes ∧
      ∀ callbackRead : List UpgradeCall → UpgradeCall → Int, upgradeFileRead callbackRead ⟨bytes, false⟩ =
        some (callsUntilError callbackRead [] (upgradeCalls objects)) :=
  ⟨roundtrip_of_fits hobjects, write_read hobjects⟩

/-- An item with one variable of each type. -/
def mixedItem : InfolistItem :=
  ⟨[⟨cString (lit "n"), .integer 5⟩, ⟨cString (lit "s"), .string (some (cString (lit "x")))⟩,
    ⟨cString (lit "e"), .string (some (cString []))⟩, ⟨cString (lit "p"), .pointer⟩,
    ⟨cString (lit "b"), .buffer (some [0, 1])⟩, ⟨cString (lit "t"), .time 7⟩], none⟩

theorem mixedItem_named : mixedItem.Named := ⟨by decide, by decide, by decide +kernel⟩

theorem mixedItem_fits : mixedItem.Fits where
  current := by rintro fields ⟨⟩
  fields := by decide
  string := by
    rintro var (_ | ⟨_, _ | ⟨_, _ | ⟨_, _ | ⟨_, _ | ⟨_, _ | ⟨_, ⟨⟩⟩⟩⟩⟩⟩⟩) value hvalue
    all_goals cases hvalue
    all_goals decide
  buffer := by
    rintro var (_ | ⟨_, _ | ⟨_, _ | ⟨_, _ | ⟨_, _ | ⟨_, _ | ⟨_, ⟨⟩⟩⟩⟩⟩⟩⟩) value hvalue
    all_goals cases hvalue
    decide

theorem upgradeFile_roundtrip_mixed : UpgradeRoundtrip [(3, [mixedItem])] :=
  (upgradeFile_roundtrip [(3, [mixedItem])] (by
    intro object hobject item hitem
    obtain rfl := List.mem_singleton.mp hobject
    obtain rfl := List.mem_singleton.mp hitem
    exact ⟨mixedItem_named, mixedItem_fits⟩)).1

/-! A variable was added to the item after its fields were asked, and a string
has more bytes than an `int` can count. -/

/-- An item whose list of fields was made before its second variable. -/
def staleItem : InfolistItem :=
  ⟨[⟨cString (lit "a"), .integer 1⟩, ⟨cString (lit "b"), .integer 2⟩], some (lit "i:a")⟩

/-- An item with one string. -/
def stringItem (value : CStr) : InfolistItem := ⟨[⟨cString (lit "s"), .string (some value)⟩], none⟩

/-- `n` times a letter. -/
def longString (n : Nat) : CStr := ⟨List.replicate n 120, fun h => absurd (List.eq_of_mem_replicate h) (by decide)⟩

theorem stringItem_named (value : CStr) : (stringItem value).Named where
  ne_nil := by
    intro var hvar
    obtain rfl := List.mem_singleton.mp hvar
    exact (by decide : (cString (lit "s")).val ≠ [])
  comma := by
    intro var hvar
    obtain rfl := List.mem_singleton.mp hvar
    exact (by decide : ch ',' ∉ (cString (lit "s")).val)
  distinct := List.pairwise_singleton ..

theorem longString_one_fits : (stringItem (longString 1)).Fits where
  current := by rintro fields ⟨⟩
  fields := by decide
  string := by
    rintro var (_ | ⟨_, ⟨⟩⟩) value hvalue
    cases hvalue
    decide
  buffer := by
    rintro var (_ | ⟨_, ⟨⟩⟩) value hvalue
    cases hvalue

/-- The length of a string is cut to an `int`. -/
theorem writeString_wraps {s : Str} (h : s.length = 4294967297) :
    upgradeFileWriteString (some s) = upgradeFileWriteString (some (s.take 1)) := by
  cases s with
  | nil => cases h
  | cons c s =>
    have hone : Int32.ofNat (c :: s).length = 1 := by
      rw [h]
      rfl
    rw [upgradeFileWriteString, hone]
    rfl

/-- Of a long string, only what its length is cut to is written. -/
theorem write_stringItem_wraps {value value' : CStr} (h : value.val.length = 4294967297)
    (hvalue : value'.val = value.val.take 1) :
    upgradeFileWrite [(0, [stringItem value])] = upgradeFileWrite [(0, [stringItem value'])] := by
  have hstring : upgradeFileWriteString (some value.val) = upgradeFileWriteString (some value'.val) := by
    rw [writeString_wraps h, hvalue]
  have hvar : ∀ value : CStr, upgradeFileWriteVar (stringItem value) (lit "s:s") =
      (upgradeFileWriteHeader (lit "s") infolistTypeString).bind fun bytes =>
        (upgradeFileWriteString (some value.val)).bind fun value => some (bytes ++ value) := fun value => by
    have hname : infolistString (stringItem value) (lit "s") = some value := by
      have hsearch := (stringItem_named value).search (List.mem_singleton_self _)
      rw [infolistString, show lit "s" = (cString (lit "s")).val from rfl, hsearch]
    rw [upgradeFileWriteVar, show (lit "s:s").drop 2 = lit "s" from rfl, hname]
    rfl
  have hvars : ∀ value : CStr, upgradeFileWriteVars (stringItem value) =
      ([lit "s:s"].mapM (upgradeFileWriteVar (stringItem value))).map List.flatten := fun value => by
    rw [writeVars_mapM (stringItem_named value) rfl]
    rfl
  have hitem : upgradeFileWriteVars (stringItem value) = upgradeFileWriteVars (stringItem value') := by
    rw [hvars, hvars, List.mapM_cons, List.mapM_cons, hvar, hvar, hstring]
    rfl
  have hobject : upgradeFileWriteItem 0 (stringItem value) = upgradeFileWriteItem 0 (stringItem value') := by
    rw [upgradeFileWriteItem, hitem, upgradeFileWriteItem]
  have hobjects : upgradeFileWriteObject 0 [stringItem value] = upgradeFileWriteObject 0 [stringItem value'] := by
    rw [upgradeFileWriteObject, List.mapM_cons, hobject, upgradeFileWriteObject, List.mapM_cons]
  rw [upgradeFileWrite, List.mapM_cons, hobjects, upgradeFileWrite, List.mapM_cons]

/-- The string is in the call. -/
theorem stringItem_calls {value value' : CStr} (hne : value.val ≠ []) (hne' : value'.val ≠ [])
    (h : upgradeCalls [(0, [stringItem value])] = upgradeCalls [(0, [stringItem value'])]) : value = value' := by
  have hcalls : ∀ {value : CStr}, value.val ≠ [] → upgradeCalls [(0, [stringItem value])] =
      [(0, [⟨cString (lit "s"), .string (some value)⟩])] := fun {value} hne => by
    have hkept : InfolistVar.kept ⟨cString (lit "s"), .string (some value)⟩ =
        some ⟨cString (lit "s"), .string (some value)⟩ := by
      rw [InfolistVar.kept]
      dsimp only
      rw [if_neg hne]
    rw [upgradeCalls, List.flatMap_singleton, stringItem, List.map_singleton, List.filterMap_cons_some hkept,
      List.filterMap_nil]
  rw [hcalls hne, hcalls hne'] at h
  injection h with h
  injection h with _ h
  injection h with h
  injection h with _ h
  injection h with h
  injection h

/-- The variable that was added is not in the file, nor are the bytes that are not
counted; an error of the callback ends the reading. -/
theorem upgradeFile_roundtrip_fails :
    (staleItem.Named ∧ ¬ UpgradeRoundtrip [(0, [staleItem])]) ∧
      ((stringItem (longString 4294967297)).Named ∧
        ¬ UpgradeRoundtrip [(0, [stringItem (longString 4294967297)])]) ∧
      (upgradeFileWrite [(3, [stringItem (longString 1), stringItem (longString 1)])]).bind
        (fun bytes => upgradeFileRead (fun _ _ => rcError) ⟨bytes, false⟩) =
          some (false, upgradeCalls [(3, [stringItem (longString 1)])]) := by
  refine ⟨⟨⟨by decide, by decide, by decide +kernel⟩, ?_⟩, ⟨stringItem_named _, ?_⟩, by decide +kernel⟩
  · rintro ⟨bytes, hwrite, hread⟩
    have hlost : (upgradeFileWrite [(0, [staleItem])]).bind (fun bytes => upgradeFileRead (fun _ _ => 0) ⟨bytes, false⟩) ≠
        some (true, upgradeCalls [(0, [staleItem])]) := by decide +kernel
    rw [hwrite, Option.bind_some, hread (fun _ _ => 0) fun _ _ => by decide] at hlost
    exact hlost rfl
  · rintro ⟨bytes, hwrite, hread⟩
    have hlength : (longString 4294967297).val.length = 4294967297 := List.length_replicate
    have htake : (longString 1).val = (longString 4294967297).val.take 1 := by
      rw [longString, longString, List.take_replicate]
      rfl
    obtain ⟨bytes', hwrite', hread'⟩ := roundtrip_of_fits
      fun object (hobject : object ∈ [(0, [stringItem (longString 1)])]) item hitem => by
        obtain rfl := List.mem_singleton.mp hobject
        obtain rfl := List.mem_singleton.mp hitem
        exact ⟨stringItem_named _, longString_one_fits⟩
    rw [write_stringItem_wraps hlength htake, hwrite'] at hwrite
    cases hwrite
    have hcalls := (hread (fun _ _ => 0) fun _ _ => by decide).symm.trans (hread' (fun _ _ => 0) fun _ _ => by decide)
    have hne : (longString 4294967297).val ≠ [] := List.length_pos_iff.mp (by omega)
    have hsame := stringItem_calls hne (by decide) (Prod.mk.inj (Option.some_inj.mp hcalls)).2
    rw [hsame] at hlength
    cases hlength

end Wirc

import WhoreIrc.Proof.ConfigFile
import WhoreIrc.Proof.SecureRun
import WhoreIrc.Spec.Secure

/-!
# Secured data in a file

The lines of section "data" are read as they were written (`readText_lines`),
and each item is read as what it was written from (`readLines_items`), except an
empty value that is not encrypted. No line gives a name that is not readable
(`readText_readable`).
-/

namespace Wirc

/-! ## Lines -/

section Lines

variable (g : Gcrypt) (passphraseFile : Option (List Byte))

/-- What the reader does with a line. -/
def secureReadKind (reader : Option SecureReader) (kind : ConfigLineKind) : Option SecureReader :=
  match reader, kind with
  | none, _ => none
  | some reader, .nothing => some reader
  | some reader, .sectionName name => some { reader with inData := stringStrcasecmp (lit "data") name = 0 }
  | some reader, .option optionName value =>
    if reader.inData then
      (secureConfigDataReadCb g passphraseFile reader.state reader.answers optionName (value.map cString)).map
        fun r => { reader with state := r.1, answers := r.2 }
    else some reader

theorem secureReadLine_kind (reader : Option SecureReader) (line : Str) :
    secureConfigReadLine g passphraseFile reader line = secureReadKind g passphraseFile reader (configFileLineKind line) := by
  unfold secureConfigReadLine secureReadKind
  cases reader with
  | none => rfl
  | some reader =>
    cases configFileLineKind line with
    | nothing => rfl
    | sectionName name => rfl
    | option optionName value =>
      dsimp only
      split
      · cases secureConfigDataReadCb g passphraseFile reader.state reader.answers optionName (value.map cString) with
        | none => rfl
        | some r => rfl
      · rfl

theorem secureReadKind_nothing (reader : Option SecureReader) :
    secureReadKind g passphraseFile reader .nothing = reader := by
  cases reader with
  | none => rfl
  | some reader => rfl

/-- Nothing is read once the program has exited. -/
theorem secureReadLoop_none (file : Str) : configFileLoop (secureConfigReadLine g passphraseFile) none file = none := by
  generalize hreader : (none : Option SecureReader) = reader
  fun_induction configFileLoop (secureConfigReadLine g passphraseFile) reader file with
  | case1 reader => rfl
  | case2 reader c file' ih =>
    subst hreader
    exact ih rfl

/-- A word on one line is escaped. -/
theorem escaped_word {name : Str} (h : SecureWord name) (hcr : ch '\r' ∉ name) (hlf : ch '\n' ∉ name) :
    Escaped (configFileOptionEscape name ++ name) name := by
  refine escaped_oneLine h.nonempty (fun c hc => ⟨?_, ?_, ?_⟩) ?_ ?_ ?_
  · exact fun heq => h.noZero (heq ▸ hc)
  · exact fun heq => hcr (heq ▸ hc)
  · exact fun heq => hlf (heq ▸ hc)
  · exact fun hin => h.noSpace (hin.subset (by decide))
  · exact fun hhead => h.noSpace (List.mem_of_mem_head? hhead)
  · exact fun hlast => h.noSpace (List.mem_of_mem_getLast? hlast)

theorem lineKind_write {text name tail : Str} (h : Escaped text name) (htail : OneLine tail) :
    configFileLineKind (text ++ (lit " = " ++ tail)) = .option name (configFileLineValue (lit " " ++ tail)) := by
  obtain ⟨c, rest, htext, hspace, hcomment, hbracket, hcr, hlf⟩ := h.head
  rw [@lineKind_option (text ++ (lit " = " ++ tail)) (rest ++ (lit " = " ++ tail)) c (by rw [htext]; rfl)
    hspace hcomment hbracket hcr hlf, parseLine_value h htail]

/-- A line of an option that is written is read with its name and its value. -/
theorem readLoop_write {name value : Str} (h : SecureWord name) (hcr : ch '\r' ∉ name) (hlf : ch '\n' ∉ name)
    (hne : value ≠ []) (hvalue : OneLine value) (hlen : (configFileWriteLine name (some value)).length ≤ 16383)
    (reader : Option SecureReader) (rest : Str) :
    configFileLoop (secureConfigReadLine g passphraseFile) reader (configFileWriteLine name (some value) ++ rest) =
      configFileLoop (secureConfigReadLine g passphraseFile)
        (secureReadKind g passphraseFile reader (.option name (configFileLineValue (lit " " ++ value)))) rest := by
  have hescaped := escaped_word h hcr hlf
  obtain ⟨c, value, rfl⟩ := List.exists_cons_of_ne_nil hne
  have hwrite : configFileWriteLine name (some (c :: value)) ++ rest =
      configFileOptionEscape name ++ name ++ (lit " = " ++ (c :: value)) ++ ch '\n' :: rest := by
    simp [configFileWriteLine, lit]
  have hlength : (configFileOptionEscape name ++ name ++ (lit " = " ++ (c :: value))).length < 16383 := by
    rw [configFileWriteLine] at hlen
    simp only [List.length_append] at hlen ⊢
    have : (lit "\n").length = 1 := rfl
    omega
  have honeLine : OneLine (configFileOptionEscape name ++ name ++ (lit " = " ++ (c :: value))) :=
    oneLine_append hescaped.oneLine (oneLine_append (by decide) hvalue)
  have hskip : skipSpaces (configFileOptionEscape name ++ name ++ (lit " = " ++ (c :: value))) ≠ [] := by
    obtain ⟨d, tail, htext, hspace, -⟩ := hescaped.head
    rw [htext, List.cons_append, skipSpaces, List.dropWhile_cons_of_neg (by simpa using hspace)]
    exact List.cons_ne_nil _ _
  rw [hwrite, configFileLoop_line (secureReadLine_kind g passphraseFile) (secureReadKind_nothing g passphraseFile)
    honeLine hskip hlength, lineKind_write hescaped hvalue]

/-- Lines that fit are read as they were written. -/
theorem readLoop_quoted {lines : List ConfigLine}
    (hlines : ∀ line ∈ lines, SecureWord line.1 ∧ ch '\r' ∉ line.1 ∧ ch '\n' ∉ line.1 ∧
      (∃ value, line.2 = some value ∧ OneLine value.val) ∧ (secureQuotedLine line).length ≤ 16383)
    {reader : SecureReader} (hdata : reader.inData = true) (rest : Str) :
    configFileLoop (secureConfigReadLine g passphraseFile) (some reader) (lines.flatMap secureQuotedLine ++ rest) =
      configFileLoop (secureConfigReadLine g passphraseFile)
        ((secureConfigReadLines g passphraseFile reader.state reader.answers lines).map fun r =>
          { reader with state := r.1, answers := r.2 }) rest := by
  induction lines generalizing reader with
  | nil => rfl
  | cons line lines ih =>
    obtain ⟨hword, hcr, hlf, ⟨value, hvalue, honeLine⟩, hlen⟩ := hlines line List.mem_cons_self
    have hrest := fun line hline => hlines line (List.mem_cons_of_mem _ hline)
    obtain ⟨name, value'⟩ := line
    dsimp only at hword hcr hlf hvalue
    subst hvalue
    have hquoted : OneLine (lit "\"" ++ value.val ++ lit "\"") :=
      oneLine_append (oneLine_append (by decide) honeLine) (by decide)
    have hcstring : cString value.val = value := Subtype.ext (cString_of_not_mem value.2)
    rw [secureQuotedLine, Option.map_some] at hlen
    rw [List.flatMap_cons, List.append_assoc, secureQuotedLine, Option.map_some,
      readLoop_write g passphraseFile hword hcr hlf (by simp [lit]) hquoted hlen, lineValue_string]
    simp only [secureReadKind, if_pos hdata, Option.map_some, hcstring, secureConfigReadLines]
    cases hread : secureConfigDataReadCb g passphraseFile reader.state reader.answers name (some value) with
    | none => rw [Option.map_none, secureReadLoop_none, secureReadLoop_none]
    | some r =>
      rw [Option.map_some]
      exact ih hrest hdata

end Lines

/-! ## Items -/

section Items

variable {g : Gcrypt} {passphraseFile : Option (List Byte)} {encrypted : Bool} {passphrase : Option Str}
  {written : Str → CStr → CStr} {kept : Str × CStr → Prop}

/-- Lines for items of different names, each of which the callback keeps or
leaves out. -/
theorem readLines_items {items : List (Str × CStr)} (hnodup : (items.map Prod.fst).Nodup)
    (hkept : ∀ item ∈ items, kept item → ∀ state answers, state.dataEncrypted = encrypted →
      state.passphrase = passphrase →
      secureConfigDataReadCb g passphraseFile state answers item.1 (some (written item.1 item.2)) =
        some ({ state with hashtableData := state.hashtableData.insert item.1 item.2 }, answers))
    (hleft : ∀ item ∈ items, ¬ kept item → ∀ state answers, state.dataEncrypted = encrypted →
      state.passphrase = passphrase →
      secureConfigDataReadCb g passphraseFile state answers item.1 (some (written item.1 item.2)) =
        some (state, answers))
    {state : SecureState} (hstate : state.dataEncrypted = encrypted) (hpassphrase : state.passphrase = passphrase)
    (answers : List Str) :
    ∃ state', secureConfigReadLines g passphraseFile state answers
        (items.map fun item => (item.1, some (written item.1 item.2))) = some (state', answers) ∧
      (∀ item ∈ items, kept item → state'.hashtableData.lookup item.1 = some item.2) ∧
      ∀ name, (∀ item ∈ items, kept item → item.1 ≠ name) →
        state'.hashtableData.lookup name = state.hashtableData.lookup name := by
  induction items generalizing state with
  | nil => exact ⟨state, rfl, fun _ h => (List.not_mem_nil h).elim, fun _ _ => rfl⟩
  | cons item items ih =>
    rw [List.map_cons, List.nodup_cons] at hnodup
    have hitem : item ∈ item :: items := List.mem_cons_self
    have hrest : ∀ item' ∈ items, item' ∈ item :: items := fun _ h => List.mem_cons_of_mem _ h
    have hother : ∀ item' ∈ items, item'.1 ≠ item.1 := fun item' h heq =>
      hnodup.1 (List.mem_map.mpr ⟨item', h, heq⟩)
    have ih' := fun {state : SecureState} => @ih hnodup.2 (fun item h => hkept item (hrest item h))
      (fun item h => hleft item (hrest item h)) state
    simp only [List.map_cons, secureConfigReadLines]
    by_cases hk : kept item
    · rw [hkept item hitem hk state answers hstate hpassphrase]
      obtain ⟨state', hread, hin, hout⟩ := @ih'
        { state with hashtableData := state.hashtableData.insert item.1 item.2 } hstate hpassphrase
      refine ⟨state', hread, fun item' hmem hkept' => ?_, fun name hname => ?_⟩
      · rcases List.mem_cons.mp hmem with rfl | hmem
        · rw [hout _ fun item'' h _ => hother item'' h]
          exact AList.lookup_insert _
        · exact hin item' hmem hkept'
      · rw [hout name fun item' h => hname item' (hrest item' h)]
        exact AList.lookup_insert_ne (Ne.symm (hname item hitem hk))
    · rw [hleft item hitem hk state answers hstate hpassphrase]
      obtain ⟨state', hread, hin, hout⟩ := ih' hstate hpassphrase
      refine ⟨state', hread, fun item' hmem hkept' => ?_, fun name hname =>
        hout name fun item' h => hname item' (hrest item' h)⟩
      rcases List.mem_cons.mp hmem with rfl | hmem
      · exact absurd hkept' hk
      · exact hin item' hmem hkept'

/-- A value in clear, which may be empty. -/
theorem readCb_plain {name : Str} (hname : name ≠ secureDataPassphraseFlag) {state : SecureState}
    (hstate : state.dataEncrypted = false) (answers : List Str) (value : CStr) :
    secureConfigDataReadCb g passphraseFile state answers name (some value) =
      if value.val = [] then some (state, answers)
      else some ({ state with hashtableData := state.hashtableData.insert name value }, answers) := by
  rw [secureConfigDataReadCb, if_neg hname, hstate, if_pos Bool.false_ne_true]

/-- A value that was encrypted with the passphrase in use. -/
theorem readCb_encrypted {name : Str} (hname : name ≠ secureDataPassphraseFlag) {state : SecureState} {p : Str}
    (hstate : state.dataEncrypted = true) (hpassphrase : state.passphrase = some p) (answers : List Str) (salt : Salt)
    (value : CStr) :
    secureConfigDataReadCb g passphraseFile state answers name
        (some (cString (stringBase16Encode (secureEncryptData g salt (value.val ++ [0]) p)).2)) =
      some ({ state with hashtableData := state.hashtableData.insert name value }, answers) := by
  have hdecrypt : secureDecryptData g (stringBase16Decode
      (cString (stringBase16Encode (secureEncryptData g salt (value.val ++ [0]) p)).2)).2 p = .ok (value.val ++ [0]) := by
    rw [stringBase16Decode_encode]
    exact secureDecryptData_encrypt g salt (by simp) p
  have hne : (cString (stringBase16Encode (secureEncryptData g salt (value.val ++ [0]) p)).2).val ≠ [] := by
    intro hnil
    rw [hnil] at hdecrypt
    exact absurd hdecrypt (by simp [secureDecryptData, stringBase16Decode, base16DecodeLoop])
  rw [secureConfigDataReadCb, if_neg hne, if_neg hname, if_neg (by rw [hstate]; simp), hpassphrase]
  dsimp only
  rw [secureConfigDecryptLoop, hdecrypt]
  dsimp only
  rw [cString_append_zero, ← hpassphrase]

end Items

/-! ## Names that are read -/

theorem configFileLoop_invariant {S : Type} {readLine : S → Str → S} {I : S → Prop}
    (hline : ∀ reader line, I reader → I (readLine reader line)) {reader : S} (h : I reader) (file : Str) :
    I (configFileLoop readLine reader file) := by
  fun_induction configFileLoop readLine reader file with
  | case1 reader => exact h
  | case2 reader c file' ih => exact ih (hline reader _ h)

theorem mem_lineName {name : Str} {c : Byte} (h : c ∈ configFileUnescape (configFileLineName name)) : c ∈ name := by
  have hname : configFileLineName name ⊆ name := by
    cases name with
    | nil => exact List.Subset.refl _
    | cons d rest => exact List.cons_subset_cons _ (List.rdropWhile_prefix _ _).subset
  refine hname ?_
  unfold configFileUnescape at h
  split at h
  · cases h
  · rename_i d rest heq
    rw [heq]
    split at h
    · exact List.mem_cons_of_mem _ h
    · exact h

/-- The name in a line has no end of line in it. -/
theorem parseLine_name (line : Str) :
    ch '\r' ∉ (configFileParseLine line).1 ∧ ch '\n' ∉ (configFileParseLine line).1 := by
  have hcut : ∀ c ∈ (line.takeWhile (· ≠ ch '\r')).takeWhile (· ≠ ch '\n'), c ≠ ch '\r' ∧ c ≠ ch '\n' := by
    intro c hc
    have h1 := List.mem_takeWhile_imp hc
    have h2 := List.mem_takeWhile_imp ((List.takeWhile_prefix _).subset hc)
    exact ⟨by simpa using h2, by simpa using h1⟩
  have hname : ∀ c ∈ (configFileParseLine line).1, c ≠ ch '\r' ∧ c ≠ ch '\n' := by
    intro c hc
    unfold configFileParseLine at hc
    dsimp only at hc
    split at hc
    · exact hcut c ((List.take_subset _ _) (mem_lineName hc))
    · refine hcut c ?_
      unfold configFileUnescape at hc
      split at hc
      · cases hc
      · rename_i d rest heq
        rw [heq]
        split at hc
        · exact List.mem_cons_of_mem _ hc
        · exact hc
  exact ⟨fun h => (hname _ h).1 rfl, fun h => (hname _ h).2 rfl⟩

/-- The name of an option has no end of line in it. -/
theorem lineKind_name {line optionName : Str} {value : Option Str}
    (h : configFileLineKind line = .option optionName value) : ch '\r' ∉ optionName ∧ ch '\n' ∉ optionName := by
  have hparse : optionName = (configFileParseLine line).1 := by
    unfold configFileLineKind at h
    dsimp only at h
    split at h
    · exact (ConfigLineKind.option.inj h).1.symm
    · split at h
      · cases h
      · split at h
        · split at h
          · cases h
          · cases h
        · exact (ConfigLineKind.option.inj h).1.symm
  rw [hparse]
  exact parseLine_name line

section Names

variable {g : Gcrypt} {passphraseFile : Option (List Byte)}

/-- The prompts for a value store nothing under another name. -/
theorem secureConfigDecryptLoop_keys {state state' : SecureState} {optionName : Str} {value : CStr} {passphrase : Str}
    {answers answers' : List Str}
    (h : secureConfigDecryptLoop g state optionName value passphrase answers = some (state', answers')) {name : Str}
    (hname : name ∈ state'.hashtableData) : name = optionName ∨ name ∈ state.hashtableData := by
  fun_induction secureConfigDecryptLoop g state optionName value passphrase answers with
  | case1 passphrase answers data hok =>
    cases h
    exact (AList.mem_insert _).mp hname
  | case2 passphrase answers e herror hgui =>
    cases h
    exact .inr hname
  | case3 passphrase answers e herror hgui huser => cases h
  | case4 passphrase answers e herror hgui p rest huser ih => exact ih h
  | case5 passphrase answers e herror hgui rest huser =>
    cases h
    exact .inr hname

/-- The callback stores only under the name of the line, and nothing under the
reserved name. -/
theorem secureConfigDataReadCb_keys {state state' : SecureState} {optionName : Str} {value : Option CStr}
    {answers answers' : List Str}
    (h : secureConfigDataReadCb g passphraseFile state answers optionName value = some (state', answers')) {name : Str}
    (hname : name ∈ state'.hashtableData) :
    (name = optionName ∧ optionName ≠ secureDataPassphraseFlag) ∨ name ∈ state.hashtableData := by
  unfold secureConfigDataReadCb at h
  split at h
  · cases h
    exact .inr hname
  · split at h
    · cases h
      exact .inr hname
    · split at h
      · refine .inr ?_
        unfold secureConfigReadFlag at h
        dsimp only at h
        split at h
        · split at h
          · cases h
            exact hname
          · obtain ⟨r, -, hr⟩ := Option.map_eq_some_iff.mp h
            cases hr
            exact hname
        · cases h
          exact hname
      · rename_i hflag
        split at h
        · cases h
          exact ((AList.mem_insert _).mp hname).imp_left fun heq => ⟨heq, hflag⟩
        · split at h
          · cases h
            exact .inr hname
          · exact (secureConfigDecryptLoop_keys h hname).imp_left fun heq => ⟨heq, hflag⟩

/-- All names that are read are readable. -/
theorem readText_readable {reader reader' : SecureReader} (hempty : reader.state.hashtableData = ∅) {file : Str}
    (h : secureConfigReadText g passphraseFile reader file = some reader') :
    ∀ name ∈ reader'.state.hashtableData, ReadableName name := by
  have hloop := @configFileLoop_invariant (Option SecureReader) (secureConfigReadLine g passphraseFile)
    (fun r => ∀ reader', r = some reader' → ∀ name ∈ reader'.state.hashtableData, ReadableName name)
  refine hloop (fun reader line ih reader' hread name hname => ?_) ?_ file reader' h
  · rw [secureReadLine_kind] at hread
    unfold secureReadKind at hread
    split at hread
    · cases hread
    · exact ih _ hread name hname
    · cases hread
      exact ih _ rfl name hname
    · rename_i reader optionName value hkind
      split at hread
      · obtain ⟨r, hr, heq⟩ := Option.map_eq_some_iff.mp hread
        subst heq
        rcases secureConfigDataReadCb_keys hr hname with ⟨rfl, hflag⟩ | hold
        · obtain ⟨hcr, hlf⟩ := lineKind_name hkind
          exact ⟨hflag, hcr, hlf⟩
        · exact ih _ rfl name hold
      · exact ih _ hread name hname
  · intro reader' hreader name hname
    cases hreader
    rw [hempty] at hname
    exact absurd hname (AList.notMem_empty _)

end Names

/-! ## The round trip -/

section RoundTrip

variable {g : Gcrypt} {input : SecureWrite} {passphrase : Option Str} {table : SecureTable}

/-- The lines that are written for a table with items. -/
theorem secureConfigDataWriteCb_eq (guiInitOk : Bool) (hne : table ≠ ∅) :
    secureConfigDataWriteCb g input (secureStateOf passphrase table guiInitOk) =
      (secureDataPassphraseFlag, some (cString (if passphrase.isSome then lit "on" else lit "off"))) ::
        (hashtableItems table).map fun item => (item.1, some (writtenValue g input passphrase item.1 item.2)) := by
  rw [secureConfigDataWriteCb, secureStateOf, if_pos (itemsCount_pos.mpr hne)]
  simp only [secureConfigDataWriteMapCb_eq]

theorem writtenValue_oneLine {key : Str} {value : CStr} (hcr : ch '\r' ∉ value.val) (hlf : ch '\n' ∉ value.val) :
    OneLine (writtenValue g input passphrase key value).val := by
  cases passphrase with
  | none => exact fun c hc => ⟨fun h => value.2 (h ▸ hc), fun h => hcr (h ▸ hc), fun h => hlf (h ▸ hc)⟩
  | some p =>
    rw [writtenValue, secureConfigDataWriteMapCb, Option.getD_some, stringBase16Encode,
      cString_of_not_mem (base16EncodeLoop_not_mem _)]
    exact base16EncodeLoop_oneLine _

/-- Whether a value is kept: an empty one is not, in clear. -/
def SecureKept (passphrase : Option Str) (value : CStr) : Prop := passphrase = none → value.val ≠ []

/-- The special line says whether the values are encrypted. -/
theorem readCb_flag (passphraseFile : Option (List Byte)) {state : SecureState} (hstate : state.passphrase = passphrase)
    (answers : List Str) :
    secureConfigDataReadCb g passphraseFile state answers secureDataPassphraseFlag
        (some (cString (if passphrase.isSome then lit "on" else lit "off"))) =
      some ({ state with dataEncrypted := passphrase.isSome }, answers) := by
  obtain ⟨hon, hoff, honNe, hoffNe⟩ := configFileStringToBoolean_flags
  cases passphrase with
  | none =>
    rw [secureConfigDataReadCb]
    simp only [Option.isSome_none, Bool.false_eq_true, if_false, if_neg hoffNe, if_true, secureConfigReadFlag, hoff,
      false_and]
  | some p =>
    rw [secureConfigDataReadCb]
    simp only [Option.isSome_some, if_true, if_neg honNe, secureConfigReadFlag, hon, hstate, true_and, reduceCtorEq,
      false_and, if_false]

/-- The lines of a table with readable names give back all values that are
kept. -/
theorem readLines_table (passphraseFile : Option (List Byte)) (hnames : ∀ name ∈ table, ReadableName name)
    {state : SecureState} (hstate : state.dataEncrypted = passphrase.isSome)
    (hpassphrase : state.passphrase = passphrase)
    (hempty : state.hashtableData = ∅) (answers : List Str) :
    ∃ state', secureConfigReadLines g passphraseFile state answers
        ((hashtableItems table).map fun item => (item.1, some (writtenValue g input passphrase item.1 item.2))) =
          some (state', answers) ∧
      (∀ name value, table.lookup name = some value → SecureKept passphrase value →
        state'.hashtableData.lookup name = some value) ∧
      ∀ name, (∀ value, table.lookup name = some value → ¬ SecureKept passphrase value) →
        state'.hashtableData.lookup name = none := by
  have hflag : ∀ item ∈ hashtableItems table, item.1 ≠ secureDataPassphraseFlag := by
    intro item hitem
    have hlookup := mem_hashtableItems.mp hitem
    exact (hnames item.1 (AList.lookup_isSome.mp (by rw [hlookup]; rfl))).notFlag
  obtain ⟨state', hread, hin, hout⟩ := @readLines_items g passphraseFile passphrase.isSome passphrase
    (writtenValue g input passphrase) (fun item => SecureKept passphrase item.2) _ (hashtableItems_nodup table)
    (fun item hitem hkept state answers hstate hpassphrase => by
      cases passphrase with
      | none => exact (readCb_plain (hflag item hitem) hstate answers item.2).trans (if_neg (hkept rfl))
      | some p => exact readCb_encrypted (hflag item hitem) hstate hpassphrase answers _ item.2)
    (fun item hitem hkept state answers hstate hpassphrase => by
      cases passphrase with
      | none =>
        refine (readCb_plain (hflag item hitem) hstate answers item.2).trans (if_pos ?_)
        by_contra hne
        exact hkept fun _ => hne
      | some p => exact absurd (fun h => by cases h) hkept)
    state hstate hpassphrase answers
  refine ⟨state', hread, fun name value hvalue hkept => hin (name, value) (mem_hashtableItems.mpr hvalue) hkept,
    fun name hname => ?_⟩
  rw [hout name, hempty]
  · rfl
  · rintro item hitem hkept rfl
    exact hname item.2 (mem_hashtableItems.mp hitem) hkept

/-- A table with readable names, whose lines fit, is read back, without the
empty values if they are not encrypted. -/
theorem readText_table (passphraseFile : Option (List Byte)) (answers : List Str) (inData guiInitOk : Bool)
    (hwords : ∀ name ∈ table, SecureWord name)
    (hvalues : ∀ name value, table.lookup name = some value → ch '\r' ∉ value.val ∧ ch '\n' ∉ value.val)
    (hlines : ∀ line ∈ secureConfigDataWriteCb g input (secureStateOf passphrase table guiInitOk),
      (secureQuotedLine line).length ≤ 16383)
    (hnames : ∀ name ∈ table, ReadableName name) :
    ∃ reader, secureConfigReadText g passphraseFile ⟨inData, secureStateOf passphrase ∅ guiInitOk, answers⟩
        (secureConfigDataText (secureConfigDataWriteCb g input (secureStateOf passphrase table guiInitOk))) = some reader ∧
      (∀ name value, table.lookup name = some value → SecureKept passphrase value →
        reader.state.hashtableData.lookup name = some value) ∧
      ∀ name, (∀ value, table.lookup name = some value → ¬ SecureKept passphrase value) →
        reader.state.hashtableData.lookup name = none := by
  have hheader : HeaderName (lit "data") := ⟨by decide, by decide, by decide⟩
  have hloop := fun reader rest => @configFileLoop_header _ _ _ (secureReadLine_kind g passphraseFile)
    (secureReadKind_nothing g passphraseFile) (lit "data") hheader (by decide) reader rest
  have hwriteHeader : configFileWriteLine (lit "data") none = lit "\n[" ++ lit "data" ++ lit "]\n" := rfl
  have hdata : decide (stringStrcasecmp (lit "data") (lit "data") = 0) = true := by
    rw [stringStrcasecmp_self]
    rfl
  by_cases hne : table = ∅
  · subst hne
    refine ⟨⟨true, secureStateOf passphrase ∅ guiInitOk, answers⟩, ?_, fun name value h => ?_, fun _ _ => rfl⟩
    · have hwrite : secureConfigDataWriteCb g input (secureStateOf passphrase ∅ guiInitOk) = [] := rfl
      rw [hwrite, secureConfigReadText, secureConfigDataText, hwriteHeader, hloop, configFileLoop]
      simp only [secureReadKind, hdata]
      rfl
    · cases h
  · rw [secureConfigDataWriteCb_eq guiInitOk hne] at hlines ⊢
    obtain ⟨state', hread, hin, hout⟩ := @readLines_table g input passphrase table passphraseFile hnames
      { secureStateOf passphrase ∅ guiInitOk with dataEncrypted := passphrase.isSome } rfl rfl rfl answers
    refine ⟨⟨true, state', answers⟩, ?_, hin, hout⟩
    have hquoted : ∀ line ∈ (hashtableItems table).map fun item =>
          (item.1, some (writtenValue g input passphrase item.1 item.2)),
        SecureWord line.1 ∧ ch '\r' ∉ line.1 ∧ ch '\n' ∉ line.1 ∧ (∃ value, line.2 = some value ∧ OneLine value.val) ∧
          (secureQuotedLine line).length ≤ 16383 := by
      intro line hline
      have hlen := hlines line (List.mem_cons_of_mem _ hline)
      obtain ⟨item, hitem, rfl⟩ := List.mem_map.mp hline
      have hlookup := mem_hashtableItems.mp hitem
      have hmem : item.1 ∈ table := AList.lookup_isSome.mp (by rw [hlookup]; rfl)
      obtain ⟨hcr, hlf⟩ := hvalues item.1 item.2 hlookup
      exact ⟨hwords _ hmem, (hnames _ hmem).noCr, (hnames _ hmem).noLf, ⟨_, rfl, writtenValue_oneLine hcr hlf⟩, hlen⟩
    have hword : SecureWord secureDataPassphraseFlag := ⟨by decide, by decide, by decide⟩
    have hflag : (cString (if passphrase.isSome then lit "on" else lit "off")).val =
        if passphrase.isSome then lit "on" else lit "off" := by
      cases passphrase.isSome <;> decide
    rw [secureConfigReadText, secureConfigDataText, hwriteHeader, hloop]
    simp only [secureReadKind, hdata, Option.map_some, hflag]
    rw [readLoop_write g passphraseFile hword (by decide) (by decide)
      (by cases passphrase.isSome <;> decide) (by cases passphrase.isSome <;> decide)
      (by cases passphrase.isSome <;> decide), lineValue_word (plainWord_boolean _)]
    simp only [secureReadKind, if_true, Option.map_some]
    have hcb := @readCb_flag g passphrase passphraseFile ⟨passphrase, ∅, ∅, false, guiInitOk⟩ rfl answers
    simp only [secureStateOf] at hcb ⊢
    rw [hcb, Option.map_some]
    have hend := @readLoop_quoted g passphraseFile _ hquoted
      ⟨true, { secureStateOf passphrase ∅ guiInitOk with dataEncrypted := passphrase.isSome }, answers⟩ rfl []
    rw [List.append_nil] at hend
    refine hend.trans ?_
    rw [hread, Option.map_some, configFileLoop]

end RoundTrip

/-- Words with values on one line, in lines that are not too long, come back
from the file if and only if no word is the reserved name or has an end of line
in it, and no value is both empty and not encrypted. -/
theorem secureData_roundtrip_iff (g : Gcrypt) (input : SecureWrite) (passphrase : Option Str) {table : SecureTable}
    (passphraseFile : Option (List Byte)) (answers : List Str) (inData guiInitOk : Bool)
    (hwords : ∀ name ∈ table, SecureWord name)
    (hvalues : ∀ name value, table.lookup name = some value → ch '\r' ∉ value.val ∧ ch '\n' ∉ value.val)
    (hlines : ∀ line ∈ secureConfigDataWriteCb g input (secureStateOf passphrase table guiInitOk),
      (secureQuotedLine line).length ≤ 16383) :
    SecureRoundTrip g input passphrase table passphraseFile answers inData guiInitOk ↔
      (∀ name ∈ table, ReadableName name) ∧
        (passphrase = none → ∀ name value, table.lookup name = some value → value.val ≠ []) := by
  constructor
  · rintro ⟨reader, hread, hsame⟩
    have hnames : ∀ name ∈ table, ReadableName name := by
      intro name hname
      refine readText_readable rfl hread name ?_
      rw [← AList.lookup_isSome, hsame, AList.lookup_isSome]
      exact hname
    refine ⟨hnames, fun hclear name value hvalue hempty => ?_⟩
    obtain ⟨reader', hread', -, hleft⟩ := readText_table passphraseFile answers inData guiInitOk hwords hvalues hlines hnames
    rw [hread] at hread'
    cases hread'
    have hnone := hleft name fun value' hvalue' hkept => by
      rw [hvalue] at hvalue'
      cases hvalue'
      exact hkept hclear hempty
    rw [hsame, hvalue] at hnone
    cases hnone
  · rintro ⟨hnames, hempty⟩
    obtain ⟨reader, hread, hkept, hleft⟩ :=
      readText_table passphraseFile answers inData guiInitOk hwords hvalues hlines hnames
    refine ⟨reader, hread, fun name => ?_⟩
    cases hlookup : table.lookup name with
    | none => exact hleft name fun value hvalue => by rw [hlookup] at hvalue; cases hvalue
    | some value => exact hkept name value hlookup fun hclear => hempty hclear name value hlookup

/-- One item. -/
def oneSecret (name : Str) (value : CStr) : SecureTable := (∅ : SecureTable).insert name value

theorem mem_oneSecret {name name' : Str} {value : CStr} (h : name' ∈ oneSecret name value) : name' = name :=
  ((AList.mem_insert _).mp h).resolve_right (AList.notMem_empty _)

theorem lookup_oneSecret {name name' : Str} {value value' : CStr}
    (h : (oneSecret name value).lookup name' = some value') : value' = value := by
  obtain rfl := mem_oneSecret (AList.lookup_isSome.mp (by rw [h]; rfl))
  rw [oneSecret, AList.lookup_insert] at h
  exact (Option.some.inj h).symm

theorem secureData_roundtrip_iff_hash :
    SecureRoundTrip exampleGcrypt ⟨false, fun _ => secureSaltDefault⟩ (some (lit "x"))
      (oneSecret (lit "#a=b") (cString (lit "s"))) none [] false true := by
  refine (secureData_roundtrip_iff exampleGcrypt ⟨false, fun _ => secureSaltDefault⟩ (some (lit "x")) none [] false true
    (fun name hname => ?_) (fun name value hvalue => ?_) ?_).mpr ⟨fun name hname => ?_, fun h => ?_⟩
  · rw [mem_oneSecret hname]
    exact ⟨by decide, by decide, by decide⟩
  · rw [lookup_oneSecret hvalue]
    decide
  · decide +kernel
  · rw [mem_oneSecret hname]
    exact ⟨by decide, by decide, by decide⟩
  · cases h

/-- A value with the reserved name is written, and not read. -/
theorem secureData_roundtrip_fails :
    SecureWord secureDataPassphraseFlag ∧
      (∀ line ∈ secureConfigDataWriteCb exampleGcrypt ⟨false, fun _ => secureSaltDefault⟩
        (secureStateOf none (oneSecret secureDataPassphraseFlag (cString (lit "a"))) true),
        (secureQuotedLine line).length ≤ 16383) ∧
      ¬ SecureRoundTrip exampleGcrypt ⟨false, fun _ => secureSaltDefault⟩ none
        (oneSecret secureDataPassphraseFlag (cString (lit "a"))) none [] false true := by
  refine ⟨⟨by decide, by decide, by decide⟩, by decide, ?_⟩
  rintro ⟨reader, hread, hsame⟩
  have hmem : secureDataPassphraseFlag ∈ reader.state.hashtableData := by
    rw [← AList.lookup_isSome, hsame, oneSecret, AList.lookup_insert]
    rfl
  exact (readText_readable rfl hread _ hmem).notFlag rfl

end Wirc

import WhoreIrc.Proof.CString
import WhoreIrc.Spec.UpgradeFile

/-!
# Reading any upgrade file (`upgradeFileRead_iff`)

The reader never runs out of rounds: each of them makes the file shorter
(`readVars_some`, `readObjects_some`). A length that is below -1 has no memory,
and ends the reading (`readObjects_negative`).
-/

namespace Wirc

/-! ## Shorter files -/

section

variable {file file' : UpgradeFile}

theorem fread_rest (file : UpgradeFile) (size : Nat) : (fread file size).2.rest.length ≤ file.rest.length := by
  rw [fread]
  split
  · exact (List.drop_suffix size file.rest).length_le
  · exact Nat.zero_le _

theorem readInteger_rest {value : Int32} (h : upgradeFileReadInteger file = (some value, file')) :
    file'.rest.length < file.rest.length := by
  rw [upgradeFileReadInteger, fread] at h
  split at h
  · rename_i hread
    split at hread
    · rename_i hsize
      cases hread
      cases h
      dsimp only
      rw [List.length_drop]
      omega
    · cases hread
  · cases h

theorem readInteger_rest_le (file : UpgradeFile) :
    (upgradeFileReadInteger file).2.rest.length ≤ file.rest.length := by
  have h := fread_rest file 4
  rw [upgradeFileReadInteger]
  split
  · rename_i hread
    rw [hread] at h
    exact h
  · rename_i hread
    rw [hread] at h
    exact h

theorem readString_rest (file : UpgradeFile) : (upgradeFileReadString file).2.2.rest.length ≤ file.rest.length := by
  have h := readInteger_rest_le file
  rw [upgradeFileReadString]
  split
  · rename_i length file1 hlength
    rw [hlength] at h
    have hread := fread_rest file1 (toSizeT length.toInt)
    split
    · exact h
    · split
      · split
        · rename_i heq
          rw [heq] at hread
          exact hread.trans h
        · rename_i heq
          rw [heq] at hread
          exact hread.trans h
      · exact h
  · rename_i file1 hlength
    rw [hlength] at h
    exact h

theorem readBuffer_rest (file : UpgradeFile) (size : Int32) :
    (upgradeFileReadBuffer file size).2.2.2.rest.length ≤ file.rest.length := by
  have h := readInteger_rest_le file
  rw [upgradeFileReadBuffer]
  split
  · rename_i size file1 hsize
    rw [hsize] at h
    have hread := fread_rest file1 size.toInt.toNat
    split
    · split
      · rename_i heq
        rw [heq] at hread
        exact hread.trans h
      · rename_i heq
        rw [heq] at hread
        exact hread.trans h
    · exact h
  · rename_i file1 hsize
    rw [hsize] at h
    exact h

theorem readTime_rest (file : UpgradeFile) : (upgradeFileReadTime file).2.rest.length ≤ file.rest.length := by
  have h := fread_rest file 8
  rw [upgradeFileReadTime]
  split
  · rename_i hread
    rw [hread] at h
    exact h
  · rename_i hread
    rw [hread] at h
    exact h

theorem readValue_rest (scratch : UpgradeScratch) (vars : List InfolistVar) (name : CStr) (typeVar : Int32)
    (file : UpgradeFile) : (upgradeFileReadValue scratch vars name typeVar file).2.rest.length ≤ file.rest.length := by
  have hinteger := readInteger_rest_le file
  have hstring := readString_rest file
  have hbuffer := readBuffer_rest file scratch.size
  have htime := readTime_rest file
  rw [upgradeFileReadValue]
  repeat' split
  all_goals first
    | exact le_rfl
    | (rename_i heq; rw [heq] at hinteger; exact hinteger)
    | (rename_i heq; rw [heq] at hstring; exact hstring)
    | (rename_i heq; rw [heq] at hbuffer; exact hbuffer)
    | (rename_i heq; rw [heq] at htime; exact htime)

theorem readVar_rest (scratch : UpgradeScratch) (vars : List InfolistVar) (file : UpgradeFile) :
    (upgradeFileReadVar scratch vars file).2.rest.length ≤ file.rest.length := by
  have hstring := readString_rest file
  rw [upgradeFileReadVar]
  split
  · rename_i name file1 hname
    rw [hname] at hstring
    have hinteger := readInteger_rest_le file1
    split
    · rename_i typeVar file2 htype
      rw [htype] at hinteger
      exact (readValue_rest _ _ _ _ _).trans (hinteger.trans hstring)
    · rename_i file2 htype
      rw [htype] at hinteger
      exact hinteger.trans hstring
  · rename_i hname
    rw [hname] at hstring
    exact hstring

/-- The loop on the variables has enough rounds. -/
theorem readVars_some {rounds : Nat} (scratch : UpgradeScratch) (vars : List InfolistVar) (file : UpgradeFile)
    (h : file.rest.length < rounds) :
    ∃ result file', upgradeFileReadVars rounds scratch vars file = some (result, file') ∧
      file'.rest.length ≤ file.rest.length := by
  induction rounds generalizing scratch vars file with
  | zero => omega
  | succ rounds ih =>
    have hle := readInteger_rest_le file
    rw [upgradeFileReadVars]
    split
    · rename_i type file1 htype
      have hlt := readInteger_rest htype
      split
      · exact ⟨_, _, rfl, hlt.le⟩
      split
      · have hvar := readVar_rest scratch vars file1
        split
        · rename_i vars2 scratch2 file2 heq
          rw [heq] at hvar
          dsimp only at hvar
          obtain ⟨result, file', hread, hrest⟩ := ih _ _ file2 (by omega)
          exact ⟨result, file', hread, by omega⟩
        · rename_i heq
          rw [heq] at hvar
          dsimp only at hvar
          exact ⟨_, _, rfl, by omega⟩
      · obtain ⟨result, file', hread, hrest⟩ := ih scratch vars file1 (by omega)
        exact ⟨result, file', hread, by omega⟩
    · rename_i file1 htype
      rw [htype] at hle
      exact ⟨_, _, rfl, hle⟩

variable (callbackRead : List UpgradeCall → UpgradeCall → Int)

/-- After an object, the file is shorter or its end was met. -/
theorem readObject_some (calls : List UpgradeCall) (file : UpgradeFile) :
    ∃ ok calls' file', upgradeFileReadObject callbackRead calls file = some (ok, calls', file') ∧
      (ok = true → file'.eof = true ∨ file'.rest.length < file.rest.length) := by
  rw [upgradeFileReadObject]
  split
  · rename_i type file1 htype
    have hlt := readInteger_rest htype
    split
    · exact ⟨_, _, _, rfl, fun h => Bool.noConfusion h⟩
    have hle := readInteger_rest_le file1
    split
    · rename_i objectId file2 hobject
      rw [hobject] at hle
      obtain ⟨result, file3, hvars, hrest⟩ :=
        readVars_some ⟨none, none, none, 0⟩ [] file2 (Nat.lt_succ_self file2.rest.length)
      rw [hvars]
      cases result with
      | some vars => exact ⟨_, _, _, rfl, fun _ => .inr ((hrest.trans hle).trans_lt hlt)⟩
      | none => exact ⟨_, _, _, rfl, fun h => Bool.noConfusion h⟩
    · exact ⟨_, _, _, rfl, fun h => Bool.noConfusion h⟩
  · exact ⟨_, _, _, rfl, .inl⟩

/-- The loop on the objects has enough rounds. -/
theorem readObjects_some {rounds : Nat} (calls : List UpgradeCall) (file : UpgradeFile)
    (h : file.eof = true ∧ 0 < rounds ∨ file.rest.length + 1 < rounds) :
    ∃ result, upgradeFileReadObjects callbackRead rounds calls file = some result := by
  induction rounds generalizing calls file with
  | zero => omega
  | succ rounds ih =>
    rw [upgradeFileReadObjects]
    split
    · exact ⟨_, rfl⟩
    · rename_i heof
      obtain ⟨ok, calls', file', hobject, hnext⟩ := readObject_some callbackRead calls file
      rw [hobject]
      cases ok with
      | false => exact ⟨_, rfl⟩
      | true =>
        have hrounds : file.rest.length + 1 < rounds + 1 := h.resolve_left fun h => heof h.1
        refine ih calls' file' ((hnext rfl).imp (fun h => ⟨h, by omega⟩) fun h => by omega)

theorem read_some (file : UpgradeFile) : ∃ result, upgradeFileRead callbackRead file = some result := by
  rw [upgradeFileRead]
  split
  · split
    · exact readObjects_some callbackRead [] _ (.inr (Nat.lt_succ_self _))
    · exact ⟨_, rfl⟩
  · exact ⟨_, rfl⟩

end

/-! ## Room -/

/-- Every request has room but that of -1 bytes, for which `malloc` is asked for 0. -/
theorem UpgradeRead.fits_iff (read : UpgradeRead) : read.Fits ↔ read ≠ .string (-1) := by
  cases read with
  | buffer size =>
    refine iff_of_true ?_ UpgradeRead.noConfusion
    intro memory bytes hrequest
    rw [request] at hrequest
    split at hrequest
    · cases hrequest
      exact le_rfl
    · cases hrequest
  | string length =>
    constructor
    · rintro h ⟨⟩
      exact absurd (h 0 18446744073709551615 rfl) (by decide)
    · intro hne memory bytes hrequest
      have hminus : length.toInt ≠ -1 := fun h => hne (congrArg string (Int32.toInt_inj.mp h))
      have hrange := length.toInt_lt
      rw [request] at hrequest
      split at hrequest
      · cases hrequest
      · obtain ⟨memory', hmalloc, heq⟩ := Option.map_eq_some_iff.mp hrequest
        cases heq
        rcases lt_or_ge length.toInt 0 with hneg | hpos
        · have hmin := length.le_toInt
          rw [mallocInt, toInt_of_range (by omega) (by omega), if_pos (by omega)] at hmalloc
          cases hmalloc
        · have := mallocInt_some (by omega) (by omega) hmalloc
          rw [toSizeT]
          omega

/-! ## Negative lengths -/

section

variable {length : Int32} {file : UpgradeFile}

/-- There is no memory for a length below -1. -/
theorem readString_negative (hlength : length.toInt < -1) (h : .string length ∈ upgradeFileStringReads file) :
    (upgradeFileReadString file).1 = false := by
  have hmin := length.le_toInt
  have hne : length ≠ 0 := fun h0 => absurd hlength (by rw [h0]; decide)
  have hmalloc : mallocInt (length.toInt + 1) = none := by
    rw [mallocInt, toInt_of_range (by omega) (by omega), if_pos (by omega)]
  rw [upgradeFileStringReads] at h
  rw [upgradeFileReadString]
  cases hread : upgradeFileReadInteger file with
  | mk value file1 =>
    rw [hread] at h
    cases value with
    | none => cases h
    | some value =>
      obtain rfl : length = value := UpgradeRead.string.inj (List.mem_singleton.mp h)
      dsimp only
      rw [if_neg hne, hmalloc]

theorem readValue_negative (hlength : length.toInt < -1) {scratch : UpgradeScratch} {vars : List InfolistVar}
    {name : CStr} {typeVar : Int32} (h : .string length ∈ upgradeFileValueReads typeVar file) :
    (upgradeFileReadValue scratch vars name typeVar file).1 = none := by
  rw [upgradeFileValueReads] at h
  split at h
  · rename_i htype
    have hstring := readString_negative hlength h
    rw [upgradeFileReadValue, if_neg (by rw [htype]; decide), if_pos htype]
    split
    · rename_i heq
      rw [heq] at hstring
      cases hstring
    · rfl
  split at h
  · rw [upgradeFileBufferReads] at h
    obtain ⟨size, _, heq⟩ := List.mem_map.mp h
    cases heq
  · cases h

theorem readVar_negative (hlength : length.toInt < -1) (scratch : UpgradeScratch) (vars : List InfolistVar)
    (h : .string length ∈ upgradeFileVarReads file) : (upgradeFileReadVar scratch vars file).1 = none := by
  rw [upgradeFileVarReads] at h
  rw [upgradeFileReadVar]
  rcases List.mem_append.mp h with hname | hvalue
  · have hstring := readString_negative hlength hname
    split
    · rename_i heq
      rw [heq] at hstring
      cases hstring
    · rfl
  · rcases hstring : upgradeFileReadString file with ⟨_ | _, _ | name, file'⟩
    · rfl
    · rfl
    · rfl
    · rw [hstring] at hvalue
      dsimp only at hvalue ⊢
      rcases hinteger : upgradeFileReadInteger file' with ⟨_ | typeVar, file''⟩
      · rfl
      · rw [hinteger] at hvalue
        exact readValue_negative hlength hvalue

theorem readVars_negative (hlength : length.toInt < -1) {rounds : Nat} {scratch : UpgradeScratch}
    {vars : List InfolistVar} {result : Option (List InfolistVar)} {file' : UpgradeFile}
    (h : .string length ∈ upgradeFileVarsReads rounds scratch vars file)
    (hread : upgradeFileReadVars rounds scratch vars file = some (result, file')) : result = none := by
  induction rounds generalizing scratch vars file with
  | zero => cases hread
  | succ rounds ih =>
    rw [upgradeFileVarsReads] at h
    rw [upgradeFileReadVars] at hread
    split at h
    · rename_i heq
      rw [heq] at hread
      dsimp only at hread
      split at h
      · cases h
      rename_i hend
      rw [if_neg hend] at hread
      split at h
      · rename_i hvar
        rw [if_pos hvar] at hread
        rcases List.mem_append.mp h with hvar | hnext
        · have hnone := readVar_negative hlength scratch vars hvar
          split at hread
          · rename_i heq
            rw [heq] at hnone
            cases hnone
          · cases hread
            rfl
        · split at hnext
          · rename_i heq
            rw [heq] at hread
            exact ih hnext hread
          · cases hnext
      · rename_i hvar
        rw [if_neg hvar] at hread
        exact ih h hread
    · cases h

variable {callbackRead : List UpgradeCall → UpgradeCall → Int} {calls calls' : List UpgradeCall} {ok : Bool}

theorem readObject_negative (hlength : length.toInt < -1) {file' : UpgradeFile}
    (h : .string length ∈ upgradeFileObjectReads file)
    (hread : upgradeFileReadObject callbackRead calls file = some (ok, calls', file')) : ok = false := by
  rw [upgradeFileObjectReads] at h
  rw [upgradeFileReadObject] at hread
  split at h
  · rename_i heq
    rw [heq] at hread
    dsimp only at hread
    split at h
    · cases h
    rename_i htype
    rw [if_neg htype] at hread
    split at h
    · rename_i objectId file2 heq
      rw [heq] at hread
      dsimp only at hread
      obtain ⟨result, file3, hvars, _⟩ :=
        readVars_some ⟨none, none, none, 0⟩ [] file2 (Nat.lt_succ_self file2.rest.length)
      have hnone := readVars_negative hlength h hvars
      rw [hvars, hnone] at hread
      cases hread
      rfl
    · cases h
  · cases h

theorem readObjects_negative (hlength : length.toInt < -1) {rounds : Nat}
    (h : .string length ∈ upgradeFileObjectsReads callbackRead rounds calls file)
    (hread : upgradeFileReadObjects callbackRead rounds calls file = some (ok, calls')) : ok = false := by
  induction rounds generalizing calls file with
  | zero => cases hread
  | succ rounds ih =>
    rw [upgradeFileObjectsReads] at h
    rw [upgradeFileReadObjects] at hread
    split at h
    · cases h
    rename_i heof
    rw [if_neg heof] at hread
    rcases List.mem_append.mp h with hobject | hnext
    · split at hread
      · rename_i heq
        cases readObject_negative hlength hobject heq
      · cases hread
        rfl
      · cases hread
    · split at hnext
      · rename_i heq
        rw [heq] at hread
        exact ih hnext hread
      · cases hnext

theorem read_negative (hlength : length.toInt < -1) (h : .string length ∈ upgradeFileReads callbackRead file)
    (hread : upgradeFileRead callbackRead file = some (ok, calls)) : ok = false := by
  rw [upgradeFileReads] at h
  rw [upgradeFileRead] at hread
  rcases List.mem_append.mp h with hsignature | hobjects
  · have hstring := readString_negative hlength hsignature
    split at hread
    · rename_i heq
      rw [heq] at hstring
      cases hstring
    · cases hread
      rfl
  · split at hobjects
    · rename_i heq
      rw [heq] at hread
      dsimp only at hread
      split at hobjects
      · rename_i hsame
        rw [if_pos hsame] at hread
        exact readObjects_negative hlength hobjects hread
      · cases hobjects
    · cases hobjects

end

/-- Reading any file ends; each string and buffer that is read has room, and no
string with a negative length is accepted, if and only if no length is -1. -/
theorem upgradeFileRead_iff (callbackRead : List UpgradeCall → UpgradeCall → Int) (file : UpgradeFile) :
    UpgradeReadSafe callbackRead file ↔ .string (-1) ∉ upgradeFileReads callbackRead file := by
  constructor
  · intro h hread
    exact (UpgradeRead.fits_iff _).mp (h.fits _ hread) rfl
  · intro h
    refine ⟨read_some callbackRead file, ?_, ?_⟩
    · intro read hread
      exact (UpgradeRead.fits_iff read).mpr fun heq => h (heq ▸ hread)
    · intro length hread hneg
      obtain ⟨⟨ok, calls⟩, hresult⟩ := read_some callbackRead file
      have hminus : length.toInt ≠ -1 := fun heq => h (by
        rwa [Int32.toInt_inj.mp (heq.trans (show (-1 : Int) = (-1 : Int32).toInt from rfl))] at hread)
      have hlt : length.toInt < 0 := Int32.lt_iff_toInt_lt.mp hneg
      obtain rfl := read_negative (by omega) hread hresult
      exact ⟨calls, hresult⟩

/-- A file with an object whose first variable has a name of -1 bytes. -/
def minusOneFile : UpgradeFile :=
  ⟨(upgradeFileNew.getD []) ++ upgradeFileWriteInteger upgradeTypeObjectStart ++ upgradeFileWriteInteger 0 ++
    upgradeFileWriteInteger upgradeTypeObjectVar ++ upgradeFileWriteInteger (-1), false⟩

/-- No byte is allocated for a name of -1 bytes, and 2⁶⁴-1 are asked of the file. -/
theorem upgradeFileRead_fails : .string (-1) ∈ upgradeFileReads (fun _ _ => 0) minusOneFile ∧
    (UpgradeRead.string (-1)).request = some (0, 18446744073709551615) ∧
    ¬ UpgradeReadSafe (fun _ _ => 0) minusOneFile := by
  have hread : .string (-1) ∈ upgradeFileReads (fun _ _ => 0) minusOneFile := by decide
  refine ⟨hread, rfl, ?_⟩
  intro h
  exact (UpgradeRead.fits_iff _).mp (h.fits _ hread) rfl

end Wirc

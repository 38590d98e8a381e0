import WhoreIrc.Impl.UpgradeFile

/-!
# What upgrade files keep

The objects that are written, each with its infolist, and the calls of the read
callback that are expected when the file is read: one for each item, with the
variables that files keep.
-/

namespace Wirc

/-- What is read of a variable that was written: pointers and empty buffers are
left out, and an empty string is NULL. -/
def InfolistVar.kept (var : InfolistVar) : Option InfolistVar :=
  match var.value with
  | .string (some value) => some ⟨var.name, .string (if value.val = [] then none else some value)⟩
  | .pointer => none
  | .buffer (some (_ :: _)) => some var
  | .buffer _ => none
  | _ => some var

/-- Names are not empty, have no comma, and are distinct ignoring case. -/
structure InfolistItem.Named (item : InfolistItem) : Prop where
  ne_nil : ∀ var ∈ item.vars, var.name.val ≠ []
  comma : ∀ var ∈ item.vars, ch ',' ∉ var.name.val
  distinct : item.vars.Pairwise fun var var' => stringStrcasecmp var.name.val var'.name.val ≠ 0

/-- The sizes are those of an `int`, that of a string with its `\0`, and the list of fields is not an old one. -/
structure InfolistItem.Fits (item : InfolistItem) : Prop where
  current : ∀ fields ∈ item.fields, fields = infolistFieldsString item.vars
  fields : infolistFieldsSize item.vars < 2147483648
  string : ∀ var ∈ item.vars, ∀ value, var.value = .string (some value) → value.val.length + 1 < 2147483648
  buffer : ∀ var ∈ item.vars, ∀ value, var.value = .buffer (some value) → value.length < 2147483648

/-- A file with the objects, after the signature. -/
def upgradeFileWrite (objects : List (Int32 × List InfolistItem)) : Option (List Byte) := do
  let signature ← upgradeFileNew
  let bytes ← objects.mapM fun object => upgradeFileWriteObject object.1 object.2
  some (signature ++ bytes.flatten)

/-- The calls of the read callback for all items. -/
def upgradeCalls (objects : List (Int32 × List InfolistItem)) : List UpgradeCall :=
  objects.flatMap fun object => object.2.map fun item => (object.1, item.vars.filterMap InfolistVar.kept)

/-- The calls, up to the first one where the callback returns an error. -/
def callsUntilError (callbackRead : List UpgradeCall → UpgradeCall → Int) (calls : List UpgradeCall) :
    List UpgradeCall → Bool × List UpgradeCall
  | [] => (true, calls)
  | call :: left =>
    if callbackRead calls call = rcError then (false, calls ++ [call])
    else callsUntilError callbackRead (calls ++ [call]) left

/-- Reading makes all calls, with a callback that returns no error. -/
def UpgradeRoundtrip (objects : List (Int32 × List InfolistItem)) : Prop :=
  ∃ bytes, upgradeFileWrite objects = some bytes ∧
    ∀ callbackRead : List UpgradeCall → UpgradeCall → Int, (∀ calls call, callbackRead calls call ≠ rcError) →
      upgradeFileRead callbackRead ⟨bytes, false⟩ = some (true, upgradeCalls objects)

/-!
## The lengths in an upgrade file

The lengths of the strings and the sizes of the buffers that are read, in order,
with the memory that is allocated for each and the bytes that are asked of the
file. The functions follow those that read.
-/

/-- The length of a string or the size of a buffer, as it was read. -/
inductive UpgradeRead
  | string (length : Int32)
  | buffer (size : Int32)
  deriving DecidableEq

/-- The memory that is allocated and the bytes that are asked of the file; `none` if it is not asked for any. -/
def UpgradeRead.request : UpgradeRead → Option (Nat × Nat)
  | string length =>
    if length = 0 then none else (mallocInt (length.toInt + 1)).map fun memory => (memory, toSizeT length.toInt)
  | buffer size => if 0 < size then some (toSizeT size.toInt, toSizeT size.toInt) else none

/-- What is read has room. -/
def UpgradeRead.Fits (read : UpgradeRead) : Prop := ∀ memory size, read.request = some (memory, size) → size ≤ memory

/-! ## The lengths that are read -/

/-- The length read by `upgrade_file_read_string`. -/
def upgradeFileStringReads (file : UpgradeFile) : List UpgradeRead :=
  (upgradeFileReadInteger file).1.toList.map .string

/-- The size read by `upgrade_file_read_buffer`. -/
def upgradeFileBufferReads (file : UpgradeFile) : List UpgradeRead :=
  (upgradeFileReadInteger file).1.toList.map .buffer

/-- The lengths read for a value. -/
def upgradeFileValueReads (typeVar : Int32) (file : UpgradeFile) : List UpgradeRead :=
  if typeVar = infolistTypeString then upgradeFileStringReads file
  else if typeVar = infolistTypeBuffer then upgradeFileBufferReads file
  else []

/-- The lengths read for a variable. -/
def upgradeFileVarReads (file : UpgradeFile) : List UpgradeRead :=
  upgradeFileStringReads file ++
    match upgradeFileReadString file with
    | (true, some _, file) =>
      match upgradeFileReadInteger file with
      | (some typeVar, file) => upgradeFileValueReads typeVar file
      | (none, _) => []
    | (_, _, _) => []

/-- The lengths read by the loop on the variables. -/
def upgradeFileVarsReads : Nat → UpgradeScratch → List InfolistVar → UpgradeFile → List UpgradeRead
  | 0, _, _, _ => []
  | rounds + 1, scratch, vars, file =>
    match upgradeFileReadInteger file with
    | (some type, file) =>
      if type = upgradeTypeObjectEnd then []
      else if type = upgradeTypeObjectVar then
        upgradeFileVarReads file ++
          match upgradeFileReadVar scratch vars file with
          | (some (vars, scratch), file) => upgradeFileVarsReads rounds scratch vars file
          | (none, _) => []
      else upgradeFileVarsReads rounds scratch vars file
    | (none, _) => []

/-- The lengths read by `upgrade_file_read_object`. -/
def upgradeFileObjectReads (file : UpgradeFile) : List UpgradeRead :=
  match upgradeFileReadInteger file with
  | (some type, file) =>
    if type ≠ upgradeTypeObjectStart then []
    else
      match upgradeFileReadInteger file with
      | (some _, file) => upgradeFileVarsReads (file.rest.length + 1) ⟨none, none, none, 0⟩ [] file
      | (none, _) => []
  | (none, _) => []

section

variable (callbackRead : List UpgradeCall → UpgradeCall → Int)

/-- The lengths read by the loop on the objects. -/
def upgradeFileObjectsReads : Nat → List UpgradeCall → UpgradeFile → List UpgradeRead
  | 0, _, _ => []
  | rounds + 1, calls, file =>
    if file.eof then []
    else
      upgradeFileObjectReads file ++
        match upgradeFileReadObject callbackRead calls file with
        | some (true, calls, file) => upgradeFileObjectsReads rounds calls file
        | _ => []

/-- The lengths read by `upgrade_file_read`. -/
def upgradeFileReads (file : UpgradeFile) : List UpgradeRead :=
  upgradeFileStringReads file ++
    match upgradeFileReadString file with
    | (true, some signature, file) =>
      if (cString signature).val = upgradeSignature then
        upgradeFileObjectsReads callbackRead (file.rest.length + 2) [] file
      else []
    | (_, _, _) => []

/-- Reading ends, what is read has room, and no string with a negative length is
accepted. -/
structure UpgradeReadSafe (file : UpgradeFile) : Prop where
  ends : ∃ result, upgradeFileRead callbackRead file = some result
  fits : ∀ read ∈ upgradeFileReads callbackRead file, read.Fits
  rejected : ∀ length, .string length ∈ upgradeFileReads callbackRead file → length < 0 →
    ∃ calls, upgradeFileRead callbackRead file = some (false, calls)

end

end Wirc

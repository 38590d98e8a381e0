import WhoreIrc.Framework.Digits
import WhoreIrc.Impl.Infolist
import WhoreIrc.Impl.StringSplit

/-!
# Upgrade files (`core/wee-upgrade-file.c`)

A file is the list of its bytes. What is written is returned, `none` if nothing
can be written; the disk is never full. An `int` has 4 bytes, a `time_t` has 8
and both have the lowest byte first. Messages and the positions that they show
are left out.
-/

namespace Wirc

open Framework

/-- `UPGRADE_SIGNATURE`. -/
def upgradeSignature : Str := lit "===== WhoreIRC Upgrade file v2.2 - binary, do not edit! ====="

/-- `enum t_upgrade_type`. -/
def upgradeTypeObjectStart : Int32 := 0
def upgradeTypeObjectEnd : Int32 := 1
def upgradeTypeObjectVar : Int32 := 2

/-! ## Writing -/

/-- `fwrite (pointer, size, 1, file)`: nothing can be written if the size is not positive. -/
def fwrite (pointer : List Byte) (size : Int32) : Option (List Byte) :=
  if 0 < size then some (pointer.take size.toInt.toNat) else none

/-- `upgrade_file_write_integer`. -/
def upgradeFileWriteInteger (value : Int32) : List Byte := leBytes 4 value.toUInt32.toNat

/-- `upgrade_file_write_time`. -/
def upgradeFileWriteTime (date : Int64) : List Byte := leBytes 8 date.toUInt64.toNat

/-- `upgrade_file_write_string`. -/
def upgradeFileWriteString (string : Option Str) : Option (List Byte) :=
  match string with
  | some (c :: s) => do
    let length := Int32.ofNat (c :: s).length
    let bytes ← fwrite (c :: s) length
    some (upgradeFileWriteInteger length ++ bytes)
  | _ => some (upgradeFileWriteInteger 0)

/-- `upgrade_file_write_buffer`, of a buffer that is not NULL. -/
def upgradeFileWriteBuffer (pointer : List Byte) (size : Int32) : Option (List Byte) := do
  let bytes ← fwrite pointer size
  some (upgradeFileWriteInteger size ++ bytes)

/-- `upgrade_file_new`, in write mode. -/
def upgradeFileNew : Option (List Byte) := upgradeFileWriteString (some upgradeSignature)

/-- What is written before the value of a variable. -/
def upgradeFileWriteHeader (name : Str) (type : Int32) : Option (List Byte) := do
  let bytes ← upgradeFileWriteString (some name)
  some (upgradeFileWriteInteger upgradeTypeObjectVar ++ bytes ++ upgradeFileWriteInteger type)

/-- `switch (argv[i][0])`. -/
def upgradeFileWriteVar (item : InfolistItem) (arg : Str) : Option (List Byte) :=
  let name := arg.drop 2
  if arg.head? = some (ch 'i') then do
    let bytes ← upgradeFileWriteHeader name infolistTypeInteger
    some (bytes ++ upgradeFileWriteInteger (infolistInteger item name))
  else if arg.head? = some (ch 's') then do
    let bytes ← upgradeFileWriteHeader name infolistTypeString
    let value ← upgradeFileWriteString ((infolistString item name).map Subtype.val)
    some (bytes ++ value)
  else if arg.head? = some (ch 'p') then some []
  else if arg.head? = some (ch 'b') then
    match infolistBuffer item name with
    | some (buf, length) =>
      if 0 < length then do
        let bytes ← upgradeFileWriteHeader name infolistTypeBuffer
        let value ← upgradeFileWriteBuffer buf length
        some (bytes ++ value)
      else some []
    | none => some []
  else if arg.head? = some (ch 't') then do
    let bytes ← upgradeFileWriteHeader name infolistTypeTime
    some (bytes ++ upgradeFileWriteTime (infolistTime item name))
  else some []

/-- The variables of an item. -/
def upgradeFileWriteVars (item : InfolistItem) : Option (List Byte) :=
  match infolistFields item with
  | some fields =>
    match stringSplit fields (lit ",") none ⟨true, true, true, false⟩ 0 with
    | some argv => (argv.mapM (upgradeFileWriteVar item)).map List.flatten
    | none => some []
  | none => some []

/-- A round of the loop on the items. -/
def upgradeFileWriteItem (objectId : Int32) (item : InfolistItem) : Option (List Byte) := do
  let vars ← upgradeFileWriteVars item
  some (upgradeFileWriteInteger upgradeTypeObjectStart ++ upgradeFileWriteInteger objectId ++ vars ++
    upgradeFileWriteInteger upgradeTypeObjectEnd)

/-- `upgrade_file_write_object`. -/
def upgradeFileWriteObject (objectId : Int32) (infolist : List InfolistItem) : Option (List Byte) :=
  (infolist.mapM (upgradeFileWriteItem objectId)).map List.flatten

/-! ## Reading -/

/-- A file that is read: what is left of it, and whether its end was met. -/
structure UpgradeFile where
  rest : List Byte
  eof : Bool
  deriving DecidableEq

/-- `fread (..., size, 1, file)`; nothing is read if there is less. -/
def fread (file : UpgradeFile) (size : Nat) : Option (List Byte) × UpgradeFile :=
  if size ≤ file.rest.length then (some (file.rest.take size), { file with rest := file.rest.drop size })
  else (none, ⟨[], true⟩)

/-- `upgrade_file_read_integer`. -/
def upgradeFileReadInteger (file : UpgradeFile) : Option Int32 × UpgradeFile :=
  match fread file 4 with
  | (some bytes, file) => (some (UInt32.ofNat (leNat bytes)).toInt32, file)
  | (none, file) => (none, file)

/-- `upgrade_file_read_time`. -/
def upgradeFileReadTime (file : UpgradeFile) : Option Int64 × UpgradeFile :=
  match fread file 8 with
  | (some bytes, file) => (some (UInt64.ofNat (leNat bytes)).toInt64, file)
  | (none, file) => (none, file)

/-- `upgrade_file_read_string`: whether it was read, and what `*string` is after
it. The string that it was is freed first. There is no memory if `length + 1` is
negative, and memory for any other size. -/
def upgradeFileReadString (file : UpgradeFile) : Bool × Option (List Byte) × UpgradeFile :=
  match upgradeFileReadInteger file with
  | (some length, file) =>
    if length = 0 then (true, none, file)
    else
      match mallocInt (length.toInt + 1) with
      | some _ =>
        match fread file (toSizeT length.toInt) with
        | (some bytes, file) => (true, some bytes, file)
        | (none, file) => (false, none, file)
      | none => (false, none, file)
  | (none, file) => (false, none, file)

/-- `upgrade_file_read_buffer`: whether it was read, `*buffer` and `*size` after
it. The buffer that it was is freed first, the size stays if none is read. -/
def upgradeFileReadBuffer (file : UpgradeFile) (size : Int32) : Bool × Option (List Byte) × Int32 × UpgradeFile :=
  match upgradeFileReadInteger file with
  | (some size, file) =>
    if 0 < size then
      match fread file size.toInt.toNat with
      | (some bytes, file) => (true, some bytes, size, file)
      | (none, file) => (false, some [], size, file)
    else (true, none, size, file)
  | (none, file) => (false, none, size, file)

/-- The variables of `upgrade_file_read_object` that its loop uses. -/
structure UpgradeScratch where
  name : Option (List Byte)
  valueStr : Option (List Byte)
  buffer : Option (List Byte)
  size : Int32

/-- `switch (type_var)`: the variables of the item, `none` if error. -/
def upgradeFileReadValue (scratch : UpgradeScratch) (vars : List InfolistVar) (name : CStr) (typeVar : Int32)
    (file : UpgradeFile) : Option (List InfolistVar × UpgradeScratch) × UpgradeFile :=
  if typeVar = infolistTypeInteger then
    match upgradeFileReadInteger file with
    | (some value, file) => (some (infolistNewVarInteger vars name value, scratch), file)
    | (none, file) => (none, file)
  else if typeVar = infolistTypeString then
    match upgradeFileReadString file with
    | (true, valueStr, file) =>
      (some (infolistNewVarString vars name (valueStr.map cString), { scratch with valueStr }), file)
    | (false, _, file) => (none, file)
  else if typeVar = infolistTypePointer then (some (vars, scratch), file)
  else if typeVar = infolistTypeBuffer then
    match upgradeFileReadBuffer file scratch.size with
    | (true, buffer, size, file) =>
      (some (infolistNewVarBuffer vars name (buffer.getD []) size, { scratch with buffer, size }), file)
    | (false, _, _, file) => (none, file)
  else if typeVar = infolistTypeTime then
    match upgradeFileReadTime file with
    | (some time, file) => (some (infolistNewVarTime vars name time, scratch), file)
    | (none, file) => (none, file)
  else (some (vars, scratch), file)

/-- A variable, after `UPGRADE_TYPE_OBJECT_VAR`. -/
def upgradeFileReadVar (scratch : UpgradeScratch) (vars : List InfolistVar) (file : UpgradeFile) :
    Option (List InfolistVar × UpgradeScratch) × UpgradeFile :=
  match upgradeFileReadString file with
  | (true, some name, file) =>
    match upgradeFileReadInteger file with
    | (some typeVar, file) =>
      upgradeFileReadValue { scratch with name := some name } vars (cString name) typeVar file
    | (none, file) => (none, file)
  | (_, _, file) => (none, file)

/-- `while (1)`: the variables of the item, `none` if error. Each round reads
something. -/
def upgradeFileReadVars : Nat → UpgradeScratch → List InfolistVar → UpgradeFile →
    Option (Option (List InfolistVar) × UpgradeFile)
  | 0, _, _, _ => none
  | rounds + 1, scratch, vars, file =>
    match upgradeFileReadInteger file with
    | (some type, file) =>
      if type = upgradeTypeObjectEnd then some (some vars, file)
      else if type = upgradeTypeObjectVar then
        match upgradeFileReadVar scratch vars file with
        | (some (vars, scratch), file) => upgradeFileReadVars rounds scratch vars file
        | (none, file) => some (none, file)
      else upgradeFileReadVars rounds scratch vars file
    | (none, file) => some (none, file)

/-- A call of the read callback: the object, and the item of its infolist. -/
abbrev UpgradeCall := Int32 × List InfolistVar

/-- `WHOREIRC_RC_ERROR`. -/
def rcError : Int := -1

section

-- what the read callback returns, after the calls before
variable (callbackRead : List UpgradeCall → UpgradeCall → Int)

/-- `upgrade_file_read_object`, after the calls `calls`: what it returns, and the
calls after it. -/
def upgradeFileReadObject (calls : List UpgradeCall) (file : UpgradeFile) :
    Option (Bool × List UpgradeCall × UpgradeFile) :=
  match upgradeFileReadInteger file with
  | (some type, file) =>
    if type ≠ upgradeTypeObjectStart then some (false, calls, file)
    else
      match upgradeFileReadInteger file with
      | (some objectId, file) => do
        match ← upgradeFileReadVars (file.rest.length + 1) ⟨none, none, none, 0⟩ [] file with
        | (some vars, file) =>
          let call := (objectId, vars)
          some (callbackRead calls call ≠ rcError, calls ++ [call], file)
        | (none, file) => some (false, calls, file)
      | (none, file) => some (false, calls, file)
  | (none, file) => some (file.eof, calls, file)

/-- `while (!feof (upgrade_file->file))`. -/
def upgradeFileReadObjects : Nat → List UpgradeCall → UpgradeFile → Option (Bool × List UpgradeCall)
  | 0, _, _ => none
  | rounds + 1, calls, file =>
    if file.eof then some (true, calls)
    else
      match upgradeFileReadObject callbackRead calls file with
      | some (true, calls, file) => upgradeFileReadObjects rounds calls file
      | some (false, calls, _) => some (false, calls)
      | none => none

/-- `upgrade_file_read`: what it returns, and the calls of the callback. -/
def upgradeFileRead (file : UpgradeFile) : Option (Bool × List UpgradeCall) :=
  match upgradeFileReadString file with
  | (true, some signature, file) =>
    if (cString signature).val = upgradeSignature then
      upgradeFileReadObjects callbackRead (file.rest.length + 2) [] file
    else some (false, [])
  | (_, _, _) => some (false, [])

end

end Wirc

import WhoreIrc.Framework.Digits
import WhoreIrc.Impl.Hashtable
import WhoreIrc.Impl.Weelist

/-!
# Hashtables as strings (`core/wee-hashtable.c`)

`hashtable_get_string`: the keys and the values of a table are put in a string whose
length was counted before. The sorted keys come from a list of strings
(`core/wee-list.c`), that are used where keys of the type of the table are expected.
`none` is returned where the code would write out of the string, or read out of a
key. Values have the types of keys.
-/

namespace Wirc

open Framework

/-- `hashtable_type_string`. -/
def hashtableTypeString : HashtableType → Str
  | .integer => lit "integer"
  | .string => lit "string"
  | .pointer => lit "pointer"
  | .buffer => lit "buffer"
  | .time => lit "time"

/-! ## The list of keys -/

/-- `weelist_add (list, data, WHOREIRC_LIST_POS_SORT, NULL)`: data that is in the list is removed first. -/
def weelistAddSorted (list : List Str) (data : Str) : List Str :=
  if data = [] then list
  else
    insertBefore (fun ptrItem => stringStrcasecmp data ptrItem < 0) data
      (list.eraseP fun ptrItem => strcmp data ptrItem = 0)

theorem weelistAddSorted_eq (list : List Str) (data : Str) : weelistAddSorted list data = weelistAdd list data .posSort := by
  have hremove : weelistRemove list (weelistSearch list data) = list.eraseP fun ptrItem => strcmp data ptrItem = 0 := by
    rw [List.eraseP_eq_eraseIdx, weelistSearch]
    cases list.findIdx? fun ptrItem => strcmp data ptrItem = 0 with
    | none => rfl
    | some item => rfl
  rw [weelistAddSorted, weelistAdd, weelistInsert, hremove]

section

variable {typeKeys typeValues : HashtableType}

/-- `hashtable_get_list_keys`. -/
def hashtableGetListKeys (hashtable : Hashtable (HashtableKey typeKeys) (HashtableKey typeValues)) :
    Option (List Str) := do
  let items ← hashtableWalk hashtable
  items.foldlM (fun list item => (hashtableToString typeKeys item.key).map (weelistAddSorted list)) []

/-- The key that is read at the address of a string; the string may be too short for it. -/
def hashtableKeyAt : (typeKeys : HashtableType) → (data : Str) → Option (HashtableKey typeKeys)
  | .integer, data =>
    if 4 ≤ data.length + 1 then some (UInt32.ofNat (leNat ((data ++ [0]).take 4))).toInt32 else none
  | .string, data => some data
  | .time, data =>
    if 8 ≤ data.length + 1 then some (UInt64.ofNat (leNat ((data ++ [0]).take 8))).toInt64 else none
  | .pointer, _ => none
  | .buffer, _ => none

/-! ## The length -/

/-- `hashtable_compute_length_keys_cb`. -/
def hashtableComputeLengthKeysCb (length : Int) (key : HashtableKey typeKeys) : Option Int := do
  let strKey ← hashtableToString typeKeys key
  some (toInt (length + strKey.length + 1))

/-- `hashtable_compute_length_values_cb`. -/
def hashtableComputeLengthValuesCb (length : Int) : (value : Option (HashtableKey typeValues)) → Option Int
  | some value => do
    let strValue ← hashtableToString typeValues value
    some (toInt (length + strValue.length + 1))
  | none => some (toInt (length + (lit "(null)").length + 1))

/-- `hashtable_compute_length_keys_values_cb`. -/
def hashtableComputeLengthKeysValuesCb (length : Int) (key : HashtableKey typeKeys)
    (value : Option (HashtableKey typeValues)) : Option Int := do
  let length ← hashtableComputeLengthKeysCb length key
  hashtableComputeLengthValuesCb length value

/-! ## The string -/

/-- `strcat (str, s)`, of a string that has `size` bytes. -/
def strcatIn (size : Nat) (str s : Str) : Option Str := if str.length + s.length < size then some (str ++ s) else none

/-- `if (str[0]) strcat (str, ",")`. -/
def hashtableBuildComma (size : Nat) (str : Str) : Option Str :=
  if str ≠ [] then strcatIn size str (lit ",") else some str

/-- `hashtable_build_string_keys_cb`. -/
def hashtableBuildStringKeysCb (size : Nat) (str : Str) (key : HashtableKey typeKeys) : Option Str := do
  let str ← hashtableBuildComma size str
  let strKey ← hashtableToString typeKeys key
  strcatIn size str strKey

/-- `if (value) strcat (str, str_value) else strcat (str, "(null)")`. -/
def hashtableBuildValue (size : Nat) (str : Str) : (value : Option (HashtableKey typeValues)) → Option Str
  | some value => do
    let strValue ← hashtableToString typeValues value
    strcatIn size str strValue
  | none => strcatIn size str (lit "(null)")

/-- `hashtable_build_string_values_cb`. -/
def hashtableBuildStringValuesCb (size : Nat) (str : Str) (value : Option (HashtableKey typeValues)) : Option Str := do
  let str ← hashtableBuildComma size str
  hashtableBuildValue size str value

/-- `hashtable_build_string_keys_values_cb`. -/
def hashtableBuildStringKeysValuesCb (size : Nat) (str : Str) (key : HashtableKey typeKeys)
    (value : Option (HashtableKey typeValues)) : Option Str := do
  let str ← hashtableBuildComma size str
  let strKey ← hashtableToString typeKeys key
  let str ← strcatIn size str strKey
  let str ← strcatIn size str (lit ":")
  hashtableBuildValue size str value

/-- The length that `hashtable_get_keys_values` counts, item by item. -/
def hashtableComputeLength (keys values : Bool) (length : Int)
    (item : ItemData (HashtableKey typeKeys) (HashtableKey typeValues)) : Option Int :=
  if keys && values then hashtableComputeLengthKeysValuesCb length item.key item.value
  else if keys then hashtableComputeLengthKeysCb length item.key
  else hashtableComputeLengthValuesCb length item.value

/-- The string that `hashtable_get_keys_values` builds without sorting, item by item. -/
def hashtableBuildString (keys values : Bool) (size : Nat) (str : Str)
    (item : ItemData (HashtableKey typeKeys) (HashtableKey typeValues)) : Option Str :=
  if keys && values then hashtableBuildStringKeysValuesCb size str item.key item.value
  else if keys then hashtableBuildStringKeysCb size str item.key
  else hashtableBuildStringValuesCb size str item.value

/-- A round of the loop on the sorted keys. -/
def hashtableBuildSorted (hashtable : Hashtable (HashtableKey typeKeys) (HashtableKey typeValues)) (values : Bool)
    (size : Nat) (str data : Str) : Option Str := do
  let key ← hashtableKeyAt typeKeys data
  if values then do
    let value ← hashtableGet hashtable key
    hashtableBuildStringKeysValuesCb size str key value
  else hashtableBuildStringKeysCb size str key

/-- `hashtable_get_keys_values`: the string, NULL if it is empty or if there is no memory for it. -/
def hashtableGetKeysValues (hashtable : Hashtable (HashtableKey typeKeys) (HashtableKey typeValues))
    (keys sortKeys values : Bool) : Option (Option Str) := do
  let items ← hashtableWalk hashtable
  let length ← items.foldlM (hashtableComputeLength keys values) 0
  if length = 0 then some none
  else
    match mallocInt (length + 1) with
    | none => some none
    | some size =>
      if keys && sortKeys then do
        let listKeys ← hashtableGetListKeys hashtable
        let str ← listKeys.foldlM (hashtableBuildSorted hashtable values size) []
        some (some str)
      else do
        let str ← items.foldlM (hashtableBuildString keys values size) []
        some (some str)

/-- `hashtable_get_string`. -/
def hashtableGetString (hashtable : Hashtable (HashtableKey typeKeys) (HashtableKey typeValues)) (property : Str) :
    Option (Option Str) :=
  if stringStrcasecmp property (lit "type_keys") = 0 then some (some (hashtableTypeString typeKeys))
  else if stringStrcasecmp property (lit "type_values") = 0 then some (some (hashtableTypeString typeValues))
  else if stringStrcasecmp property (lit "keys") = 0 then hashtableGetKeysValues hashtable true false false
  else if stringStrcasecmp property (lit "keys_sorted") = 0 then hashtableGetKeysValues hashtable true true false
  else if stringStrcasecmp property (lit "values") = 0 then hashtableGetKeysValues hashtable false false true
  else if stringStrcasecmp property (lit "keys_values") = 0 then hashtableGetKeysValues hashtable true false true
  else if stringStrcasecmp property (lit "keys_values_sorted") = 0 then hashtableGetKeysValues hashtable true true true
  else some none

end

end Wirc

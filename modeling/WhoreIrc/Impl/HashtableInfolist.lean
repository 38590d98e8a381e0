import WhoreIrc.Framework.Digits
import WhoreIrc.Impl.Hashtable
import WhoreIrc.Impl.Infolist
import WhoreIrc.Impl.StringMatch

/-!
# Hashtables in infolists (`core/wee-hashtable.c`)

Each item of a table is two variables of an item of an infolist, its key and its
value, under names that end with the same number. `none` is returned where the
code would read what is not a string, or at a NULL pointer.
-/

namespace Wirc

open Framework

/-- What a value of each type points to; the address of a pointer is left out. -/
abbrev HashtableValue : HashtableType → Type
  | .integer => Int32
  | .string => Str
  | .pointer => Unit
  | .buffer => List Byte
  | .time => Int64

/-- `snprintf (..., 128, "%s%s%s")`. -/
def hashtableOptionName (pfx : CStr) (field : String) (number : Str) : CStr :=
  cString ((pfx.val ++ lit field ++ number).take 127)

/-- The variable of a value: the variables of the item, NULL if error. -/
def hashtableNewVarValue (vars : List InfolistVar) (name : CStr) :
    (typeValues : HashtableType) → Option (HashtableValue typeValues) → Option (Option (List InfolistVar))
  | .integer, some value => some (some (infolistNewVarInteger vars name value))
  | .string, value => some (some (infolistNewVarString vars name (value.map cString)))
  | .pointer, _ => some (some (infolistNewVar vars name .pointer))
  | .buffer, value =>
    let size := Int32.ofNat ((value.map List.length).getD 0)
    some (if size ≤ 0 then none else some (infolistNewVarBuffer vars name (value.getD []) size))
  | .time, some value => some (some (infolistNewVarTime vars name value))
  | _, none => none

section

variable {typeKeys typeValues : HashtableType}

/-- The loop of `hashtable_add_to_infolist`: what it returns, and the variables of
the item. -/
def hashtableAddItemsToInfolist (pfx : CStr) : (itemNumber : Nat) → (vars : List InfolistVar) →
    List (ItemData (HashtableKey typeKeys) (HashtableValue typeValues)) → Option (Bool × List InfolistVar)
  | _, vars, [] => some (true, vars)
  | itemNumber, vars, ptrItem :: items => do
    let key ← hashtableToString typeKeys ptrItem.key
    let number := fmtNatDigits 5 itemNumber
    let vars := infolistNewVarString vars (hashtableOptionName pfx "_name_" number) (some (cString key))
    match ← hashtableNewVarValue vars (hashtableOptionName pfx "_value_" number) typeValues ptrItem.value with
    | some vars => hashtableAddItemsToInfolist pfx (itemNumber + 1) vars items
    | none => some (false, vars)

/-- `hashtable_add_to_infolist`. -/
def hashtableAddToInfolist (hashtable : Hashtable (HashtableKey typeKeys) (HashtableValue typeValues))
    (vars : List InfolistVar) (pfx : CStr) : Option (Bool × List InfolistVar) := do
  let items ← hashtableWalk hashtable
  hashtableAddItemsToInfolist pfx 0 vars items

/-- The string at some bytes that may not end it. -/
def stringAt (bytes : List Byte) : Option Str := if 0 ∈ bytes then some (cString bytes).val else none

/-- `ptr_name->value` as a string, NULL or not. -/
def infolistValueString : InfolistValue → Option (Option Str)
  | .string value => some (value.map Subtype.val)
  | .integer value => (stringAt (leBytes 4 value.toUInt32.toNat)).map some
  | .time value => (stringAt (leBytes 8 value.toUInt64.toNat)).map some
  | .buffer (some value) => (stringAt value).map some
  | .buffer none => some none
  | .pointer => none

/-- `ptr_value->value`; `none` if the variable has another type. -/
def infolistValueOfType : (typeValues : HashtableType) → InfolistValue → Option (Option (HashtableValue typeValues))
  | .integer, .integer value => some (some value)
  | .string, .string value => some (value.map Subtype.val)
  | .pointer, .pointer => some (some ())
  | .buffer, .buffer value => some value
  | .time, .time value => some (some value)
  | _, _ => none

/-- The size of a value that is a buffer, 0 for the others. -/
def hashtableValueSize : (typeValues : HashtableType) → Option (HashtableValue typeValues) → Int
  | .buffer, some value => value.length
  | _, _ => 0

/-- The loop of `hashtable_add_from_infolist`, on the variables `vars` of the item
`item`: the table, and what it returns. -/
def hashtableAddVars (item : InfolistItem) (pfx : CStr)
    (hashtable : Hashtable (HashtableKey .string) (HashtableValue typeValues)) :
    (vars : List InfolistVar) → Option (Hashtable (HashtableKey .string) (HashtableValue typeValues) × Bool)
  | [] => some (hashtable, true)
  | ptrName :: vars =>
    let prefixName := (hashtableOptionName pfx "_name_" []).val
    if stringStrncasecmp ptrName.name.val prefixName prefixName.length = 0 then
      let optionValue := hashtableOptionName pfx "_value_" (ptrName.name.val.drop prefixName.length)
      match infolistSearchVar item optionValue.val with
      | some ptrValue =>
        match infolistValueOfType typeValues ptrValue.value with
        | some value => do
          match ← infolistValueString ptrName.value with
          | some key =>
            let (hashtable, _) ← hashtableSetWithSize hashtable key 0 value (hashtableValueSize typeValues value)
            hashtableAddVars item pfx hashtable vars
          | none => hashtableAddVars item pfx hashtable vars
        | none => some (hashtable, false)
      | none => hashtableAddVars item pfx hashtable vars
    else hashtableAddVars item pfx hashtable vars

end

/-- `hashtable_add_from_infolist`, of an item: the table, and what is returned. -/
def hashtableAddFromInfolist {typeValues : HashtableType} : {typeKeys : HashtableType} →
    Hashtable (HashtableKey typeKeys) (HashtableValue typeValues) → InfolistItem → CStr →
    Option (Hashtable (HashtableKey typeKeys) (HashtableValue typeValues) × Bool)
  | .string, hashtable, item, pfx => hashtableAddVars item pfx hashtable item.vars
  | .integer, hashtable, _, _ | .pointer, hashtable, _, _ | .buffer, hashtable, _, _ | .time, hashtable, _, _ =>
    some (hashtable, false)

end Wirc

import WhoreIrc.Impl.Utf8

/-!
# Infolists (`core/wee-infolist.c`)

An infolist is the list of its items, and an item the list of its variables.
The value of a pointer is left out: nothing here reads it. Memory is not short,
but a size that is not an `int` cannot be asked for.
-/

namespace Wirc

/-- The value of a variable, and its type. A buffer has its size. -/
inductive InfolistValue
  | integer (value : Int32)
  | string (value : Option CStr)
  | pointer
  | buffer (value : Option (List Byte))
  | time (value : Int64)
  deriving DecidableEq

/-- `enum t_infolist_type`. -/
def infolistTypeInteger : Int32 := 0
def infolistTypeString : Int32 := 1
def infolistTypePointer : Int32 := 2
def infolistTypeBuffer : Int32 := 3
def infolistTypeTime : Int32 := 4

structure InfolistVar where
  name : CStr
  value : InfolistValue
  deriving DecidableEq

/-- An item; `fields` is NULL if the fields were never asked. -/
structure InfolistItem where
  vars : List InfolistVar
  fields : Option Str

/-- `infolist_new_var_*`: the variables of the item. -/
def infolistNewVar (vars : List InfolistVar) (name : CStr) (value : InfolistValue) : List InfolistVar :=
  if name.val = [] then vars else vars ++ [⟨name, value⟩]

/-- `infolist_new_var_integer`. -/
def infolistNewVarInteger (vars : List InfolistVar) (name : CStr) (value : Int32) : List InfolistVar :=
  infolistNewVar vars name (.integer value)

/-- `infolist_new_var_string`. -/
def infolistNewVarString (vars : List InfolistVar) (name : CStr) (value : Option CStr) : List InfolistVar :=
  infolistNewVar vars name (.string value)

/-- `infolist_new_var_buffer`. -/
def infolistNewVarBuffer (vars : List InfolistVar) (name : CStr) (pointer : List Byte) (size : Int32) :
    List InfolistVar :=
  if size ≤ 0 then vars else infolistNewVar vars name (.buffer (some (pointer.take size.toInt.toNat)))

/-- `infolist_new_var_time`. -/
def infolistNewVarTime (vars : List InfolistVar) (name : CStr) (time : Int64) : List InfolistVar :=
  infolistNewVar vars name (.time time)

/-- What `infolist_fields` writes for a variable. -/
def infolistField (var : InfolistVar) : Str :=
  (match var.value with
    | .integer _ => lit "i:"
    | .string _ => lit "s:"
    | .pointer => lit "p:"
    | .buffer _ => lit "b:"
    | .time _ => lit "t:") ++ var.name.val

/-- The size of the fields, with the `\0`. -/
def infolistFieldsSize : List InfolistVar → Nat
  | [] => 1
  | var :: vars => var.name.val.length + 3 + infolistFieldsSize vars

/-- The string of the fields. -/
def infolistFieldsString (vars : List InfolistVar) : Str := List.intercalate (lit ",") (vars.map infolistField)

/-- `infolist_fields`: the string, that the item keeps; NULL if there is no
memory for it. -/
def infolistFields (item : InfolistItem) : Option Str :=
  match item.fields with
  | some fields => some fields
  | none =>
    if infolistFieldsSize item.vars < 2147483648 then some (infolistFieldsString item.vars) else none

/-- The loop of `infolist_integer` and the like: the first variable with the name. -/
def infolistSearchVar (item : InfolistItem) (var : Str) : Option InfolistVar :=
  if var = [] then none else item.vars.find? fun ptrVar => stringStrcasecmp ptrVar.name.val var = 0

/-- `infolist_integer`. -/
def infolistInteger (item : InfolistItem) (var : Str) : Int32 :=
  match infolistSearchVar item var with
  | some ⟨_, .integer value⟩ => value
  | _ => 0

/-- `infolist_string`. -/
def infolistString (item : InfolistItem) (var : Str) : Option CStr :=
  match infolistSearchVar item var with
  | some ⟨_, .string value⟩ => value
  | _ => none

/-- `infolist_buffer`: the buffer, and its size. -/
def infolistBuffer (item : InfolistItem) (var : Str) : Option (List Byte × Int32) :=
  match infolistSearchVar item var with
  | some ⟨_, .buffer (some value)⟩ => some (value, Int32.ofNat value.length)
  | _ => none

/-- `infolist_time`. -/
def infolistTime (item : InfolistItem) (var : Str) : Int64 :=
  match infolistSearchVar item var with
  | some ⟨_, .time value⟩ => value
  | _ => 0

end Wirc

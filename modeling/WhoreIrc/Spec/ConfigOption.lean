import WhoreIrc.Impl.ConfigOption

/-!
# What an option may hold

`denotedNumber` is the number that a value string stands for, of any size, and
`ValidValue` says which strings are values for an option. The code reads
numbers as `long`, stores them as `int` and tests the bounds that the syntax
calls for: `BoundsTested` are these tests, and `Misread` the inputs where they
or the clean-up of the value miss something.
-/

namespace Wirc

/-- A change of an option. -/
inductive ConfigOp where
  | set (value : Option Str) (check runCallback : Bool)
  | setNull (runCallback : Bool)
  | reset (runCallback : Bool)

def ConfigOp.apply (palette : GuiPalette) (garbage : Int32) {t : ConfigOptionType} (option : ConfigOption t) :
    ConfigOp → ConfigChange t
  | set value check runCallback => configFileOptionSet palette garbage option value check runCallback
  | setNull runCallback => configFileOptionSetNull option runCallback
  | reset runCallback => configFileOptionReset option runCallback

/-- The option after a change. -/
def configStep (palette : GuiPalette) (garbage : Int32) {t : ConfigOptionType} (option : ConfigOption t)
    (op : ConfigOp) : ConfigOption t :=
  (op.apply palette garbage option).option

/-- The option after some changes. -/
def configRun (palette : GuiPalette) (garbage : Int32) {t : ConfigOptionType} (option : ConfigOption t)
    (ops : List ConfigOp) : ConfigOption t :=
  ops.foldl (configStep palette garbage) option

/-! ## Integers -/

/-- The number that a value string stands for: `N`, or `++N` and `--N` from the
old value. -/
def denotedNumber (oldValue : Option Int32) (value : Str) : Option Int :=
  if startsWith value (lit "++") then (parseNumber (value.drop 2)).map ((oldValue.getD 0).toInt + ·)
  else if startsWith value (lit "--") then (parseNumber (value.drop 2)).map ((oldValue.getD 0).toInt - ·)
  else parseNumber value

/-- The digits of a value string. -/
def numberText (value : Str) : Str :=
  if startsWith value (lit "++") || startsWith value (lit "--") then value.drop 2 else value

/-- The bounds that are tested for a value string: the upper one for `++N`, the
lower one for `--N`, and both for `N`. -/
def BoundsTested (min max : Int32) (value : Str) (number : Int32) : Prop :=
  if startsWith value (lit "++") then number ≤ max
  else if startsWith value (lit "--") then min ≤ number
  else min ≤ number ∧ number ≤ max

/-- The number is within the bounds. -/
def WithinBounds (min max : Int32) (number : Int) : Prop := min.toInt ≤ number ∧ number ≤ max.toInt

/-- The value is within the bounds, if there is one. -/
def ConfigOption.InBounds (option : ConfigOption .integer) : Prop :=
  ∀ v, option.value = some v → WithinBounds option.min option.max v.toInt

/-- The value string of a change stands for a number within the bounds, or for
one that, converted to `int`, does not pass the tests on the bounds (or the
check callback refuses it). -/
def NumberFits (option : ConfigOption .integer) : ConfigOp → Prop
  | .set (some value) check _ => ∀ number, check = true → denotedNumber option.value value = some number →
      WithinBounds option.min option.max number ∨ ¬ BoundsTested option.min option.max value (Int32.ofInt number)
  | _ => True

/-- A change keeps the value within the bounds, and one to a number outside of
them is rejected. -/
def BoundsKept (palette : GuiPalette) (garbage : Int32) (option : ConfigOption .integer) (op : ConfigOp) : Prop :=
  (op.apply palette garbage option).option.InBounds ∧
    ∀ value check runCallback number, op = .set (some value) check runCallback →
      denotedNumber option.value value = some number → ¬ WithinBounds option.min option.max number →
      (op.apply palette garbage option).rc = .error

/-! ## Values of all types -/

/-- A number is read up to the end, and it has digits. -/
def IsNumber (text : Str) : Prop := text ≠ [] ∧ (strtol text).2 = []

/-- The string is a value for the option. -/
def ValidValue (palette : GuiPalette) {t : ConfigOptionType} (option : ConfigOption t) (value : Str) : Prop :=
  match t, option with
  | .boolean, _ => stringStrcasecmp value (lit "toggle") = 0 ∨ configFileStringBooleanIsValid value = true
  | .integer, option =>
    match option.stringValues with
    | some words =>
      (∃ number, (value = lit "++" ++ number ∨ value = lit "--" ++ number) ∧ IsNumber number) ∨
        ∃ word ∈ words, stringStrcasecmp word value = 0
    | none =>
      IsNumber (numberText value) ∧
        ∃ number, denotedNumber option.value value = some number ∧ WithinBounds option.min option.max number
  | .string, _ => True
  | .color, option =>
    let name := guiColorGetName palette (option.value.getD 0)
    let number := (strtol (value.drop 2)).1
    if startsWith value (lit "++") then
      IsNumber (value.drop 2) ∧ (guiColorAssignByDiff palette name (Int32.ofInt number)).isSome
    else if startsWith value (lit "--") then
      IsNumber (value.drop 2) ∧ (guiColorAssignByDiff palette name (Int32.ofInt (-1 * number))).isSome
    else (guiColorAssign palette value).isSome

/-- The index of a word, if there is one. -/
def IndexOf (words : List Str) (value : Option Int32) : Prop :=
  ∀ v, value = some v → 0 ≤ v.toInt ∧ v.toInt < words.length

/-- With string values, `max` is the last index, and the value and the default
value are indices. -/
def ConfigOption.WordsIndexed {t : ConfigOptionType} (option : ConfigOption t) : Prop :=
  match t, option with
  | .integer, option => ∀ words, option.stringValues = some words →
      words ≠ [] ∧ option.max.toInt + 1 = words.length ∧ IndexOf words option.value ∧ IndexOf words option.defaultValue
  | _, _ => True

/-- The code does not see that the string is no value, or does not free the
memory for it. -/
def Misread (palette : GuiPalette) {t : ConfigOptionType} (option : ConfigOption t) (value : Str) : Prop :=
  match t, option with
  | .boolean, _ => False
  | .integer, option =>
    match option.stringValues with
    | some _ => value = lit "++" ∨ value = lit "--"
    | none => ∃ number, denotedNumber option.value value = some number ∧
        BoundsTested option.min option.max value (Int32.ofInt number)
  | .string, _ => False
  | .color, option =>
    option.value = none ∨ (value = lit "++" ∨ value = lit "--") ∧
      (guiColorAssignByDiff palette (guiColorGetName palette (option.value.getD 0)) 0).isSome

/-- A string that is no value leaves the option as it is, with an error, and so
does every error; "changed" is returned for another value only. -/
def RejectedUntouched (palette : GuiPalette) (garbage : Int32) {t : ConfigOptionType} (option : ConfigOption t)
    (value : Str) (check runCallback : Bool) : Prop :=
  let change := configFileOptionSet palette garbage option (some value) check runCallback
  (¬ ValidValue palette option value → change.rc = .error ∧ change.option = option ∧
      ConfigEvent.callbackChange ∉ change.events) ∧
    (change.rc = .error → change.option = option ∧ change.events = []) ∧
    (change.rc = .okChanged ↔ change.option.value ≠ option.value)

end Wirc

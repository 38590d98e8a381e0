import WhoreIrc.Impl.GuiColor
import WhoreIrc.Impl.Secure
import WhoreIrc.Impl.StringSplit

/-!
# Options of a configuration file (`core/wee-config-file.c`)

Memory is never short. Sums of `long` are exact numbers here: what is stored is
their conversion to `int`, which is the same when they wrap. What a callback
answers is an argument, and that it is run is an event of the result.
-/

namespace Wirc

/-- `enum t_config_option_type`. -/
inductive ConfigOptionType where
  | boolean
  | integer
  | string
  | color
  deriving DecidableEq

/-- What `value` and `default_value` of an option of a type point to. -/
abbrev ConfigValue : ConfigOptionType → Type
  | .boolean => Bool
  | .integer => Int32
  | .string => Str
  | .color => Int32

instance (t : ConfigOptionType) : DecidableEq (ConfigValue t) :=
  match t with
  | .boolean => inferInstanceAs (DecidableEq Bool)
  | .integer => inferInstanceAs (DecidableEq Int32)
  | .string => inferInstanceAs (DecidableEq Str)
  | .color => inferInstanceAs (DecidableEq Int32)

/-- `struct t_config_option`. `callbackChange` says that there is a
`callback_change`, `inSection` that the option has a file and a section. -/
structure ConfigOption (t : ConfigOptionType) where
  name : Str
  stringValues : Option (List Str)
  min : Int32
  max : Int32
  defaultValue : Option (ConfigValue t)
  value : Option (ConfigValue t)
  nullValueAllowed : Bool
  callbackChange : Bool
  inSection : Bool
  loaded : Bool
  deriving DecidableEq

/-- An option of some type. -/
abbrev AnyOption := (t : ConfigOptionType) × ConfigOption t

/-- `WHOREIRC_CONFIG_OPTION_SET_*`. -/
inductive ConfigOptionSet where
  | okChanged
  | okSameValue
  | error
  | optionNotFound
  deriving DecidableEq

/-- What runs after a change: `callback_change`, or the config hooks. -/
inductive ConfigEvent where
  | callbackChange
  | hookConfig
  deriving DecidableEq

/-- The value returned, the option, and what was run. -/
structure ConfigChange (t : ConfigOptionType) where
  rc : ConfigOptionSet
  option : ConfigOption t
  events : List ConfigEvent
  deriving DecidableEq

def configBooleanFalse : List Str := [lit "off", lit "no", lit "n", lit "false", lit "f", lit "0"]

/-- `config_file_string_boolean_is_valid`. -/
def configFileStringBooleanIsValid (text : Str) : Bool :=
  (configBooleanTrue.any fun word => stringStrcasecmp text word = 0) ||
    configBooleanFalse.any fun word => stringStrcasecmp text word = 0

/-- `number = strtol (text, &error, 10)`, where the whole text is read:
`error && !error[0]`. -/
def parseNumber (text : Str) : Option Int :=
  if (strtol text).2 = [] then some (strtol text).1 else none

/-! ## `config_file_new_option` -/

/-- The arguments of `config_file_new_option` that the option depends on. -/
structure ConfigOptionArgs where
  name : Str
  type : Str
  stringValues : Option Str
  min : Int32
  max : Int32
  defaultValue : Option Str
  value : Option Str
  nullValueAllowed : Bool
  callbackChange : Bool

/-- `config_option_type_string`. -/
def configOptionTypeString : List (Str × ConfigOptionType) :=
  [(lit "boolean", .boolean), (lit "integer", .integer), (lit "string", .string), (lit "color", .color)]

/-- `config_file_search_option`, in a section. -/
def configFileSearchOption (options : List AnyOption) (optionName : Str) : Option AnyOption :=
  options.find? fun option => stringStrcasecmp option.2.name optionName = 0

/-- The value for the string given to `config_file_new_option`. -/
def configFileInitValue (palette : GuiPalette) (t : ConfigOptionType) (stringValues : Option (List Str))
    (min max : Int32) (text : Str) : ConfigValue t :=
  match t with
  | .boolean => configFileStringToBoolean text
  | .integer =>
    match stringValues with
    | some words => Int32.ofNat ((words.findIdx? fun word => stringStrcasecmp word text = 0).getD 0)
    | none =>
      let number := (parseNumber text).getD 0
      if number < min.toInt then min else if max.toInt < number then max else Int32.ofInt number
  | .string => text
  | .color => (guiColorAssign palette text).getD 0

/-- `string_values && string_values[0]`: the words, if there are any. The outer
`none` is an error. -/
def configFileStringValues (t : ConfigOptionType) (stringValues : Option Str) : Option (Option (List Str)) :=
  match t, stringValues with
  | .integer, some (c :: words) =>
    (stringSplit (c :: words) (lit "|") none ⟨true, true, true, false⟩ 0).map some
  | _, _ => some none

/-- The minimum and the maximum of a new option. -/
def configFileBounds (t : ConfigOptionType) (stringValues : Option (List Str)) (min max : Int32) : Int32 × Int32 :=
  match t, stringValues with
  | .boolean, _ => (0, 1)
  | .integer, some words => (0, if words = [] then 0 else Int32.ofInt (words.length - 1))
  | .color, _ => (min, guiColorGetWeechatColorsNumber - 1)
  | _, _ => (min, max)

/-- `switch (var_type)`: the option with its type, string values and values. -/
def configFileInitOption (palette : GuiPalette) (args : ConfigOptionArgs) (optionName : Str) (inSection : Bool)
    (t : ConfigOptionType) (stringValues : Option (List Str)) (defaultValue value : Option Str) : ConfigOption t :=
  { name := optionName
    stringValues := stringValues
    min := (configFileBounds t stringValues args.min args.max).1
    max := (configFileBounds t stringValues args.min args.max).2
    defaultValue := defaultValue.map (configFileInitValue palette t stringValues args.min args.max)
    value := value.map (configFileInitValue palette t stringValues args.min args.max)
    nullValueAllowed := args.nullValueAllowed
    callbackChange := args.callbackChange
    inSection := inSection
    loaded := true }

/-- The name of an option without that of its parent. -/
def configFileOptionName (name : Str) : Str :=
  match strstr name (lit " << ") with
  | some pos => strndup name (off name pos)
  | none => name

/-- The default value and the value, which stand for each other where NULL is
not allowed. `none` is an error. -/
def configFileInitTexts (args : ConfigOptionArgs) : Option (Option Str × Option Str) :=
  if args.nullValueAllowed then some (args.defaultValue, args.value)
  else
    match args.defaultValue, args.value with
    | some default, some value => some (some default, some value)
    | some default, none => some (some default, some default)
    | none, some value => some (some value, some value)
    | none, none => none

/-- `config_file_new_option`, in a section with some options already. -/
def configFileNewOption (palette : GuiPalette) (options : Option (List AnyOption)) (args : ConfigOptionArgs) :
    Option AnyOption :=
  let optionName := configFileOptionName args.name
  if options.any fun options => (configFileSearchOption options optionName).isSome then none
  else
    match configOptionTypeString.find? fun type => stringStrcasecmp args.type type.1 = 0 with
    | none => none
    | some (_, t) =>
      match configFileInitTexts args with
      | none => none
      | some (defaultValue, value) =>
        match configFileStringValues t args.stringValues with
        | none => none
        | some stringValues =>
          some ⟨t, configFileInitOption palette args optionName options.isSome t stringValues defaultValue value⟩

/-! ## `config_file_option_set` -/

/-- `value_int != old_value`, or no old value: the value is stored. -/
def configFileStoreInt (oldValue : Option Int32) (valueInt : Int32) : ConfigOptionSet × Option Int32 :=
  (if oldValue.isNone || valueInt ≠ oldValue.getD 0 then .okChanged else .okSameValue, some valueInt)

/-- `case CONFIG_OPTION_TYPE_BOOLEAN`. -/
def configFileSetBoolean (oldValue : Option Bool) (value : Str) : ConfigOptionSet × Option Bool :=
  match oldValue with
  | none =>
    if stringStrcasecmp value (lit "toggle") = 0 then (.okChanged, some true)
    else if configFileStringBooleanIsValid value then (.okChanged, some (configFileStringToBoolean value))
    -- the value allocated is freed
    else (.error, none)
  | some old =>
    if stringStrcasecmp value (lit "toggle") = 0 then (.okChanged, some !old)
    else if configFileStringBooleanIsValid value then
      if configFileStringToBoolean value = old then (.okSameValue, some old)
      else (.okChanged, some (configFileStringToBoolean value))
    else (.error, some old)

/-- `value_int`, for an option with string values: negative for an error. -/
def configFileWordIndex (words : List Str) (max old : Int32) (value : Str) : Int32 :=
  if startsWith value (lit "++") then
    match parseNumber (value.drop 2) with
    | some number =>
      let number := number.tmod (max.toInt + 1)
      Int32.ofInt ((old.toInt + number).tmod (max.toInt + 1))
    | none => -1
  else if startsWith value (lit "--") then
    match parseNumber (value.drop 2) with
    | some number =>
      let number := number.tmod (max.toInt + 1)
      Int32.ofInt ((old.toInt + (max.toInt + 1) - number).tmod (max.toInt + 1))
    | none => -1
  else
    match words.findIdx? fun word => stringStrcasecmp word value = 0 with
    | some i => Int32.ofNat i
    | none => -1

/-- `case CONFIG_OPTION_TYPE_INTEGER`, with string values. -/
def configFileSetWord (words : List Str) (max : Int32) (oldValue : Option Int32) (value : Str) :
    ConfigOptionSet × Option Int32 :=
  let valueInt := configFileWordIndex words max (oldValue.getD 0) value
  if 0 ≤ valueInt then configFileStoreInt oldValue valueInt else (.error, oldValue)

/-- `value_int`, for an option without string values, if `new_value_ok`. -/
def configFileNewInteger (min max old : Int32) (value : Str) : Option Int32 :=
  if startsWith value (lit "++") then
    match parseNumber (value.drop 2) with
    | some number =>
      let valueInt := Int32.ofInt (old.toInt + number)
      if valueInt ≤ max then some valueInt else none
    | none => none
  else if startsWith value (lit "--") then
    match parseNumber (value.drop 2) with
    | some number =>
      let valueInt := Int32.ofInt (old.toInt - number)
      if min ≤ valueInt then some valueInt else none
    | none => none
  else
    match parseNumber value with
    | some number =>
      let valueInt := Int32.ofInt number
      if min ≤ valueInt ∧ valueInt ≤ max then some valueInt else none
    | none => none

/-- `case CONFIG_OPTION_TYPE_INTEGER`, without string values. -/
def configFileSetInteger (min max : Int32) (oldValue : Option Int32) (value : Str) :
    ConfigOptionSet × Option Int32 :=
  match configFileNewInteger min max (oldValue.getD 0) value with
  | some valueInt => configFileStoreInt oldValue valueInt
  | none => (.error, oldValue)

/-- `case CONFIG_OPTION_TYPE_STRING`. -/
def configFileSetString (oldValue : Option Str) (value : Str) : ConfigOptionSet × Option Str :=
  (if oldValue.isNone || strcmp (oldValue.getD []) value ≠ 0 then .okChanged else .okSameValue, some value)

/-- `value_int`, for a color, if `new_value_ok`. -/
def configFileNewColor (palette : GuiPalette) (old : Int32) (value : Str) : Option Int32 :=
  if startsWith value (lit "++") then
    match parseNumber (value.drop 2) with
    | some number => guiColorAssignByDiff palette (guiColorGetName palette old) (Int32.ofInt number)
    | none => none
  else if startsWith value (lit "--") then
    match parseNumber (value.drop 2) with
    | some number => guiColorAssignByDiff palette (guiColorGetName palette old) (Int32.ofInt (-1 * number))
    | none => none
  else guiColorAssign palette value

/-- `case CONFIG_OPTION_TYPE_COLOR`. `garbage` is what `malloc` finds in the
memory it allocates for a value: it stays there when the color is refused. -/
def configFileSetColor (palette : GuiPalette) (garbage : Int32) (oldValue : Option Int32) (value : Str) :
    ConfigOptionSet × Option Int32 :=
  match configFileNewColor palette (oldValue.getD 0) value with
  | some valueInt => configFileStoreInt oldValue valueInt
  | none => (.error, some (oldValue.getD garbage))

/-- `switch (option->type)`. -/
def configFileSetValue (palette : GuiPalette) (garbage : Int32) {t : ConfigOptionType} (option : ConfigOption t)
    (value : Str) : ConfigOptionSet × Option (ConfigValue t) :=
  match t, option with
  | .boolean, option => configFileSetBoolean option.value value
  | .integer, option =>
    match option.stringValues with
    | some words => configFileSetWord words option.max option.value value
    | none => configFileSetInteger option.min option.max option.value value
  | .string, option => configFileSetString option.value value
  | .color, option => configFileSetColor palette garbage option.value value

/-- The end of a change: `callback_change`, then the config hooks. -/
def configFileOptionChanged {t : ConfigOptionType} (option : ConfigOption t) (rc : ConfigOptionSet)
    (runCallback : Bool) : ConfigChange t :=
  { rc := rc
    option := option
    events :=
      (if rc = .okChanged && runCallback && option.callbackChange then [.callbackChange] else []) ++
      (if rc ≠ .error && option.inSection then [.hookConfig] else []) }

/-- `config_file_option_set`. `check` is what `callback_check_value` answers,
and true without this callback. -/
def configFileOptionSet (palette : GuiPalette) (garbage : Int32) {t : ConfigOptionType} (option : ConfigOption t)
    (value : Option Str) (check runCallback : Bool) : ConfigChange t :=
  if !check then ⟨.error, option, []⟩
  else
    let r : ConfigOptionSet × Option (ConfigValue t) := match value with
      | some value =>
        let r := configFileSetValue palette garbage option value
        (if option.value.isNone && r.2.isSome then .okChanged else r.1, r.2)
      | none =>
        if option.nullValueAllowed && option.value.isSome then (.okChanged, none)
        else (.okSameValue, option.value)
    configFileOptionChanged { option with value := r.2 } r.1 runCallback

/-- `config_file_option_set_null`. -/
def configFileOptionSetNull {t : ConfigOptionType} (option : ConfigOption t) (runCallback : Bool) : ConfigChange t :=
  if option.nullValueAllowed then
    if option.value.isNone then configFileOptionChanged option .okSameValue runCallback
    else configFileOptionChanged { option with value := none } .okChanged runCallback
  else configFileOptionChanged option .error runCallback

/-! ## `config_file_option_reset` -/

/-- `switch (option->type)`, with a default value. -/
def configFileResetValue {t : ConfigOptionType} (value : Option (ConfigValue t)) (default : ConfigValue t) :
    ConfigOptionSet × Option (ConfigValue t) :=
  match t, value, default with
  | .boolean, none, default => (.okChanged, some default)
  | .boolean, some value, default => if value = default then (.okSameValue, some value) else (.okChanged, some default)
  | .integer, value, default => resetInt value default
  | .string, value, default =>
    (if value.isNone || strcmp (value.getD []) default ≠ 0 then .okChanged else .okSameValue, some default)
  | .color, value, default => resetInt value default
where
  /-- A value that is not there is 0 first. -/
  resetInt (value : Option Int32) (default : Int32) : ConfigOptionSet × Option Int32 :=
    if value.getD 0 = default then (.okSameValue, some (value.getD 0)) else (.okChanged, some default)

/-- `config_file_option_reset`. -/
def configFileOptionReset {t : ConfigOptionType} (option : ConfigOption t) (runCallback : Bool) : ConfigChange t :=
  match option.defaultValue with
  | some default =>
    let r := configFileResetValue option.value default
    configFileOptionChanged { option with value := r.2 }
      (if option.value.isNone && r.2.isSome then .okChanged else r.1) runCallback
  | none =>
    if option.nullValueAllowed then
      if option.value.isSome then configFileOptionChanged { option with value := none } .okChanged runCallback
      else configFileOptionChanged option .okSameValue runCallback
    else configFileOptionChanged option .error runCallback

end Wirc

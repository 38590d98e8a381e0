import WhoreIrc.Impl.ConfigOption
import WhoreIrc.Impl.Secure

/-!
# Configuration files (`core/wee-config-file.c`)

The writer of a section and the reader of a file. The charset of the terminal
is UTF-8, so that lines are not converted; writing does not fail, and the
messages of the reader are left out.
-/

namespace Wirc

/-- A callback of a section, by what it returns and the options it leaves. -/
abbrev ConfigSectionCallback := List AnyOption → (optionName : Str) → (value : Option Str) →
  ConfigOptionSet × List AnyOption

/-- `struct t_config_section`. -/
structure ConfigSection where
  name : Str
  options : List AnyOption
  callbackRead : Option ConfigSectionCallback
  callbackCreateOption : Option ConfigSectionCallback

/-! ## Writing -/

/-- `config_file_option_escape`. -/
def configFileOptionEscape (name : Str) : Str :=
  match name with
  | c :: _ => if c = ch '#' || c = ch '[' || c = ch '\\' then lit "\\" else []
  | [] => []

/-- What is written after ` = `. -/
def configFileValueText (palette : GuiPalette) {t : ConfigOptionType} (option : ConfigOption t)
    (value : ConfigValue t) :
    Str :=
  match t, option, value with
  | .boolean, _, value => if value then lit "on" else lit "off"
  | .integer, option, value =>
    match option.stringValues with
    | some words => words.getD value.toInt.toNat []
    | none => fmtInt value.toInt
  | .string, _, value => lit "\"" ++ value ++ lit "\""
  | .color, _, value => guiColorGetName palette value

/-- `config_file_write_option`. -/
def configFileWriteOption (palette : GuiPalette) (option : AnyOption) : Str :=
  match option.2.value with
  | some value =>
    configFileOptionEscape option.2.name ++ option.2.name ++ lit " = " ++
      configFileValueText palette option.2 value ++ lit "\n"
  | none => configFileOptionEscape option.2.name ++ option.2.name ++ lit "\n"

/-- A section in `config_file_write_internal`, without write callbacks. -/
def configFileWriteSection (palette : GuiPalette) (section_ : ConfigSection) : Str :=
  lit "\n[" ++ section_.name ++ lit "]\n" ++ section_.options.flatMap (configFileWriteOption palette)

/-! ## Reading -/

/-- `fgets`, for at most `n` bytes: the line, and the rest of the file. -/
def fgets : (n : Nat) → (file : Str) → Str × Str
  | 0, file => ([], file)
  | _ + 1, [] => ([], [])
  | n + 1, c :: file => if c = ch '\n' then ([c], file) else (c :: (fgets n file).1, (fgets n file).2)

theorem fgets_length (n : Nat) (file : Str) : (fgets n file).2.length ≤ file.length := by
  fun_induction fgets n file with
  | case1 => simp
  | case2 => simp
  | case3 => simp
  | case4 n c file hc ih =>
    simp only [List.length_cons]
    omega

/-- `config_file_search_section`: its place. -/
def configFileSearchSection (sections : List ConfigSection) (sectionName : Str) : Option Nat :=
  sections.findIdx? fun s => stringStrcasecmp s.name sectionName = 0

/-- The place of an option in a section. -/
def configFileOptionIndex (options : List AnyOption) (optionName : Str) : Option Nat :=
  options.findIdx? fun option => stringStrcasecmp option.2.name optionName = 0

/-- `config_file_search_option`: the places of the section and of the option in
it. Without a section, all sections are searched. -/
def configFileFindOption (sections : List ConfigSection) (ptrSection : Option Nat) (optionName : Str) :
    Option (Nat × Nat) :=
  match ptrSection with
  | some i => (sections[i]?.bind fun s => configFileOptionIndex s.options optionName).map fun j => (i, j)
  | none =>
    (sections.findIdx? fun s => (configFileOptionIndex s.options optionName).isSome).bind fun i =>
      (sections[i]?.bind fun s => configFileOptionIndex s.options optionName).map fun j => (i, j)

/-- The value after ` =`, `none` for an undefined value. -/
def configFileLineValue (pos : Str) : Option Str :=
  match skipSpaces pos with
  | [] => none
  | c :: rest =>
    if stringStrcasecmp (c :: rest) (lit "null") = 0 then none
    else if rest = [] then some [c]
    else
      -- remove simple or double quotes and spaces at the end
      let text := c :: rest.rdropWhile (· = ch ' ')
      if c = ch '\'' ∧ text.getLast? = some (ch '\'') ∨ c = ch '"' ∧ text.getLast? = some (ch '"') then
        some text.tail.dropLast
      else some text

/-- The name without the spaces before ` =`, which are not removed from its
first byte. -/
def configFileLineName (name : Str) : Str :=
  match name with
  | [] => []
  | c :: rest => c :: rest.rdropWhile (· = ch ' ')

/-- `(line[0] == '\\') ? line + 1 : line`. -/
def configFileUnescape (name : Str) : Str :=
  match name with
  | [] => []
  | c :: rest => if c = ch '\\' then rest else c :: rest

/-- The name of the option and the value in a line. -/
def configFileParseLine (line : Str) : Str × Option Str :=
  let line := (line.takeWhile (· ≠ ch '\r')).takeWhile (· ≠ ch '\n')
  match strstr line (lit " =") with
  | some pos =>
    (configFileUnescape (configFileLineName (line.take (off line pos))), configFileLineValue (pos.drop 2))
  | none => (configFileUnescape line, none)

/-- What `config_file_read_internal` takes a line for. -/
inductive ConfigLineKind
  | nothing
  | sectionName (name : Str)
  | option (optionName : Str) (value : Option Str)

/-- The tests of `config_file_read_internal` on a line. -/
def configFileLineKind (line : Str) : ConfigLineKind :=
  let option := ConfigLineKind.option (configFileParseLine line).1 (configFileParseLine line).2
  match skipSpaces line with
  | [] => option
  | c :: rest =>
    if c = ch '#' || c = ch '\r' || c = ch '\n' then .nothing
    else if c = ch '[' ∧ ch '=' ∉ c :: rest then
      match strchr line (ch ']') with
      | some _ => .sectionName (rest.takeWhile (· ≠ ch ']'))
      | none => .nothing
    else option

/-- `while (!feof (config_file->file))`, for any state. -/
def configFileLoop {S : Type} (readLine : S → Str → S) (reader : S) (file : Str) : S :=
  match file with
  | [] => reader
  | c :: file' =>
    configFileLoop readLine (readLine reader ((fgets 16382 (c :: file')).1.takeWhile (· ≠ 0)))
      (fgets 16382 (c :: file')).2
termination_by file.length
decreasing_by
  simp only [fgets]
  split
  · simp
  · exact Nat.lt_succ_of_le (fgets_length 16381 file')

/-- The sections and `ptr_section`. -/
structure ConfigReader where
  sections : List ConfigSection
  ptrSection : Option Nat

section Reading

variable (palette : GuiPalette) (garbage : Int32) (check : AnyOption → Option Str → Bool)

/-- The option with the value of a line, and `loaded`. `check` is what the check
callback of the option answers. -/
def configFileLoadOption (value : Option Str) (option : AnyOption) : AnyOption :=
  ⟨option.1, { (configFileOptionSet palette garbage option.2 value (check option value) true).option with
    loaded := true }⟩

/-- A line with an option. -/
def configFileReadOption (reader : ConfigReader) (optionName : Str) (value : Option Str) : ConfigReader :=
  let ptrSection := reader.ptrSection.bind fun i => reader.sections[i]?
  let callback (run : ConfigSectionCallback) : ConfigReader :=
    { reader with sections := reader.sections.modify (reader.ptrSection.getD 0)
                    fun s => { s with options := (run s.options optionName value).2 } }
  match ptrSection.bind (·.callbackRead) with
  | some run => callback run
  | none =>
    match configFileFindOption reader.sections reader.ptrSection optionName with
    | some (i, j) =>
      { reader with sections := reader.sections.modify i
                      fun s => { s with options := s.options.modify j (configFileLoadOption palette garbage check value) } }
    | none =>
      match ptrSection.bind (·.callbackCreateOption) with
      | some run => callback run
      | none => reader

/-- A line of a file. -/
def configFileReadLine (reader : ConfigReader) (line : Str) : ConfigReader :=
  let option := configFileReadOption palette garbage check reader (configFileParseLine line).1
    (configFileParseLine line).2
  match skipSpaces line with
  | [] => option
  | c :: rest =>
    if c = ch '#' || c = ch '\r' || c = ch '\n' then reader
    else if c = ch '[' ∧ ch '=' ∉ c :: rest then
      match strchr line (ch ']') with
      | some _ =>
        { reader with ptrSection := configFileSearchSection reader.sections (rest.takeWhile (· ≠ ch ']')) }
      | none => reader
    else option

/-- `while (!feof (config_file->file))`. A line is a C string: it ends at the
first zero byte. -/
def configFileReadLoop (reader : ConfigReader) (file : Str) : ConfigReader :=
  match file with
  | [] => reader
  | c :: file' =>
    configFileReadLoop (configFileReadLine palette garbage check reader ((fgets 16382 (c :: file')).1.takeWhile (· ≠ 0)))
      (fgets 16382 (c :: file')).2
termination_by file.length
decreasing_by
  simp only [fgets]
  split
  · simp
  · exact Nat.lt_succ_of_le (fgets_length 16381 file')

/-- `config_file_read_internal`: the sections after it. -/
def configFileReadInternal (sections : List ConfigSection) (file : Str) : List ConfigSection :=
  (configFileReadLoop palette garbage check ⟨sections, none⟩ file).sections

/-! ## Reloading -/

end Reading

/-!
## The file sec.conf (`core/wee-secure-config.c`, `core/wee-config-file.c`)

The text of section "data", and its reading by `config_file_read_internal`
with the read callback of the section. The section "crypt" is left out: the
options are the same when the file is written and read.
-/

/-! ## Writing -/

/-- `config_file_write_line`, with the value formatted (`none` for NULL). -/
def configFileWriteLine (optionName : Str) (value : Option Str) : Str :=
  match value with
  | some (c :: value) => configFileOptionEscape optionName ++ optionName ++ lit " = " ++ (c :: value) ++ lit "\n"
  | _ => lit "\n[" ++ optionName ++ lit "]\n"

/-- `"\"%s\""`. -/
def secureQuotedLine (line : ConfigLine) : Str :=
  configFileWriteLine line.1 (line.2.map fun value => lit "\"" ++ value.val ++ lit "\"")

/-- The text of section "data": only the special line has no quotes. -/
def secureConfigDataText (lines : List ConfigLine) : Str :=
  configFileWriteLine (lit "data") none ++
    match lines with
    | [] => []
    | flag :: lines => configFileWriteLine flag.1 (flag.2.map (·.val)) ++ lines.flatMap secureQuotedLine

/-! ## Reading -/

/-- The reader of sec.conf: whether `ptr_section` is section "data", the secured
data and the answers left to the prompts. -/
structure SecureReader where
  inData : Bool
  state : SecureState
  answers : List Str

/-- A line of sec.conf; `none` once the program has exited. -/
def secureConfigReadLine (g : Gcrypt) (passphraseFile : Option (List Byte)) (reader : Option SecureReader)
    (line : Str) : Option SecureReader :=
  match reader with
  | none => none
  | some reader =>
    match configFileLineKind line with
    | .nothing => some reader
    | .sectionName name => some { reader with inData := stringStrcasecmp (lit "data") name = 0 }
    | .option optionName value =>
      if reader.inData then
        match secureConfigDataReadCb g passphraseFile reader.state reader.answers optionName (value.map cString) with
        | none => none
        | some (state, answers) => some { reader with state, answers }
      else some reader

/-- `secure_config_read`, from the text of the file. -/
def secureConfigReadText (g : Gcrypt) (passphraseFile : Option (List Byte)) (reader : SecureReader) (file : Str) :
    Option SecureReader :=
  let reader := { reader with state := { reader.state with dataEncrypted := false } }
  configFileLoop (secureConfigReadLine g passphraseFile) (some reader) file

end Wirc

import WhoreIrc.Impl.ConfigFile
import WhoreIrc.Spec.ConfigOption

/-!
# What a configuration file can hold

Names are written as they are, and so are all values but strings: `LineName`
and `PlainWord` are the names and the words that a line gives back, and
`ReadsBack` the options whose value a line gives back.
-/

namespace Wirc

/-- `iscntrl (c)`. -/
def iscntrl (c : Byte) : Prop := c < 32 ∨ c = 127

instance : DecidablePred iscntrl := fun _ => inferInstanceAs (Decidable (_ ∨ _))

/-- The bytes of a text on one line. -/
def OneLine (text : Str) : Prop := ∀ c ∈ text, c ≠ 0 ∧ c ≠ ch '\r' ∧ c ≠ ch '\n'

instance (text : Str) : Decidable (OneLine text) := inferInstanceAs (Decidable (∀ c ∈ text, _))

/-- The name of an option. -/
structure LineName (name : Str) : Prop where
  nonempty : name ≠ []
  noControl : ∀ c ∈ name, ¬ iscntrl c
  noEqual : ¬ lit " =" <:+: name
  noSpaceFirst : name.head? ≠ some (ch ' ')
  noSpaceLast : name.getLast? ≠ some (ch ' ')

/-- The name of a section. -/
structure HeaderName (name : Str) : Prop where
  noControl : ∀ c ∈ name, ¬ iscntrl c
  noBracket : ch ']' ∉ name
  noEqual : ch '=' ∉ name

/-- A word that is written without quotes and read as it is. -/
structure PlainWord (word : Str) : Prop where
  nonempty : word ≠ []
  oneLine : OneLine word
  noSpaceFirst : word.head? ≠ some (ch ' ')
  noSpaceLast : word.getLast? ≠ some (ch ' ')
  notNull : stringStrcasecmp word (lit "null") ≠ 0
  notQuoted : ¬ (1 < word.length ∧ word.head? = word.getLast? ∧ (word.head? = some (ch '\'') ∨ word.head? = some (ch '"')))

/-- The value of an option is one that a line gives back. -/
def ReadsBack {t : ConfigOptionType} (option : ConfigOption t) : Prop :=
  match option.value with
  | none => option.nullValueAllowed = true
  | some value =>
    match t, option, value with
    | .boolean, _, _ => True
    | .integer, option, value =>
      match option.stringValues with
      | none => WithinBounds option.min option.max value.toInt
      | some words =>
        0 ≤ value.toInt ∧ ∃ word, words[value.toInt.toNat]? = some word ∧ PlainWord word ∧
          startsWith word (lit "++") = false ∧ startsWith word (lit "--") = false ∧
          ∀ i < value.toInt.toNat, ∀ word', words[i]? = some word' → stringStrcasecmp word' word ≠ 0
    | .string, _, value => OneLine value
    | .color, _, _ => False

/-- The value string that is read from the line of an option. -/
def configFileWrittenValue (palette : GuiPalette) {t : ConfigOptionType} (option : ConfigOption t) : Option Str :=
  match t, option with
  | .string, option => option.value
  | _, option => option.value.map (configFileValueText palette option)

/-- The option with another value. -/
def otherValue (option : AnyOption) (value : Option (ConfigValue option.1)) (loaded : Bool) : AnyOption :=
  ⟨option.1, { option.2 with value := value, loaded := loaded }⟩

/-!
## What a configuration file says

The lines of a file with options, each with the section it is in
(`configFileOptionLines`), and the value that a line gives whatever the value is
before (`configLineValue`). Values that begin with `++` or `--`, and `toggle`, are
relative to the value before.
-/

section

variable (palette : GuiPalette) (check : AnyOption → Option Str → Bool)

end

end Wirc

import WhoreIrc.Impl.GuiColor

/-!
# Codes that are removed as they were added

The code of a color name is expected to be removed whole from what follows it. It is
when the attributes and the digits of the foreground fit in its buffer, and each number
of the terminal has five digits.
-/

namespace Wirc

/-- A string without color codes. -/
def NoColorCode (text : Str) : Prop :=
  ∀ c ∈ text, c ≠ guiColorColorChar ∧ c ≠ guiColorSetAttrChar ∧ c ≠ guiColorRemoveAttrChar ∧ c ≠ guiColorResetChar

/-- Removing colors after the code of a name has been added gives the text. -/
def RemovesCode (palette : GuiPalette) (colorName : Str) : Prop :=
  ∀ text : Str, utf8IsValid text = none → 0 ∉ text → NoColorCode text →
    guiColorDecode (guiColorGetCustom palette colorName ++ text) none = text

/-- The digits of the foreground that are in its buffer of 32 bytes, after the attributes. -/
def fgDigitsKept (attrs : Nat) : GuiCustomColor → Nat
  | .terminal number => min (fmtNatDigits 5 number).length (30 - attrs)
  | .basic index => min (fmtNatDigits 2 index).length (31 - attrs)
  | .unknown => 0

/-- The number of digits that are removed for a color. -/
def colorDigits : GuiCustomColor → Nat
  | .terminal _ => 5
  | .basic _ => 2
  | .unknown => 0

/-- A color of the background has the digits that are removed. -/
def BgFits : GuiCustomColor → Prop
  | .terminal number => (fmtNatDigits 5 number).length = 5
  | .basic _ => True
  | .unknown => True

/-- The code of a name is removed whole. -/
def CodeFits (palette : GuiPalette) (colorName : Str) : Prop :=
  let name := colorName.dropWhile isColorAttr
  let fg := guiColorCustomColor palette (guiColorCustomNames name).1
  colorName = [] ∨ (∃ code ∈ guiColorCustomCodes, stringStrcasecmp name code.1 = 0) ∨
    fgDigitsKept (colorName.takeWhile isColorAttr).length fg = colorDigits fg ∧
      BgFits (guiColorCustomColor palette (guiColorCustomNames name).2)

end Wirc

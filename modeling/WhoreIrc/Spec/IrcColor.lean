import Mathlib.Algebra.Group.Nat.Defs
import WhoreIrc.Impl.IrcColor

/-!
# Removing the colors of a message

What is expected of the two functions that remove colors: the same text, in which no
control char of a color or style is left.
-/

namespace Wirc

/-- The control chars of colors and styles. -/
def isColorChar (c : Byte) : Bool := c = 0x02 || c = 0x03 || c = 0x0F || c = 0x16 || c = 0x1D || c = 0x1F

/-- Both functions leave the same text of a string, and this text as it is. -/
structure ColorsStripped (env : IrcColorEnv) (string stripped : Str) : Prop where
  encode : ircColorEncode string false = some (some stripped)
  decode : ircColorDecode env string false = some (some stripped)
  clean : ∀ c ∈ stripped, isColorChar c = false
  encodeAgain : ircColorEncode stripped false = some (some stripped)
  decodeAgain : ircColorDecode env stripped false = some (some stripped)

/-- Colors are removed from a string, or kept, and the output buffers are large enough. -/
structure ColorsRight (env : IrcColorEnv) (string : Str) : Prop where
  stripped : ∃ stripped, ColorsStripped env string stripped
  keep : ircColorEncode string true = some (some string)
  decodeKeep : ircColorDecode env string true ≠ none

/-- After the digits of a color comes `,`, and no digit after it. -/
def bareComma (string : Str) : Bool :=
  match (ircColorDigits string).2 with
  | [] => false
  | c :: string => c = ch ',' && !(string.head?.map isdigit).getD false

/-- No color is followed by `,` without a digit after it. -/
def NoBareComma (string : Str) : Prop := ∀ rest, 0x03 :: rest <:+ string → bareComma rest = false

/-! ## The text that is left -/

/-- A way to skip a background color: `,` and digits at the beginning. -/
structure ColorBg where
  skip : Str → Str
  skipped : ∀ string, ∃ chars, string = chars ++ skip string ∧ ∀ c ∈ chars, c = ch ',' ∨ isdigit c = true

/-- What is left of the beginning of a string, and the rest of it. -/
def stripTurn (bg : ColorBg) (c : Byte) (string : Str) : Str × Str :=
  if c = 0x03 then ([], bg.skip (ircColorDigits string).2)
  else if isColorChar c then ([], string)
  else ((c :: string).take (utf8CharSize (c :: string)), utf8NextChar (c :: string))

theorem stripTurn_length_lt (bg : ColorBg) (c : Byte) (string : Str) :
    (stripTurn bg c string).2.length < (c :: string).length := by
  rw [stripTurn]
  split
  · obtain ⟨chars, hchars, -⟩ := bg.skipped (ircColorDigits string).2
    have hlength := congrArg List.length hchars
    have hdigits := ircColorDigits_length_le string
    rw [List.length_append] at hlength
    show (bg.skip (ircColorDigits string).2).length < string.length + 1
    omega
  · split
    · exact Nat.lt_succ_self _
    · exact utf8NextChar_length_lt (List.cons_ne_nil c string)

/-- The text without colors. -/
def stripped (bg : ColorBg) (string : Str) : Str :=
  match string with
  | [] => []
  | c :: string => (stripTurn bg c string).1 ++ stripped bg (stripTurn bg c string).2
termination_by string.length
decreasing_by exact stripTurn_length_lt ..

end Wirc

import Mathlib.Logic.Function.Iterate
import WhoreIrc.Impl.Utf8

/-!
# Moving in a string

A character of a string starts at its first byte or after another character; the
end of the string is the last boundary.
-/

namespace Wirc

/-- The first byte of a character, or the end of the string. -/
inductive CharBoundary (string : Str) : Nat → Prop where
  | start : CharBoundary string 0
  | next {pos : Nat} : CharBoundary string pos → pos < string.length → CharBoundary string (utf8NextCharPos string pos)

/-- The pointer after a number of moves from the start of the string. -/
def nextChars (string : Str) (count : Nat) : Nat := (utf8NextCharPos string)^[count] 0

/-- The moves to the next and to the previous character are inverse. -/
structure MovesInverse (string : Str) (pos : Nat) : Prop where
  next : pos < string.length → utf8PrevChar string (utf8NextCharPos string pos) = some pos
  prev : 0 < pos → ∃ prev, utf8PrevChar string pos = some prev ∧ utf8NextCharPos string prev = pos

/-- Offsets in bytes and in characters are those of the moves. -/
structure OffsetsRight (string : Str) : Prop where
  realPos : ∀ count ≤ utf8Strlen string, utf8RealPos string count = nextChars string count
  pos : ∀ count ≤ utf8Strlen string, utf8Pos string (nextChars string count) = count
  strlen : nextChars string (utf8Strlen string) = string.length
  after : ∀ count, utf8Strlen string ≤ count → utf8RealPos string count = string.length

/-!
## Strings without case

The bytes of a string without case are those with small ASCII letters; its
characters are those that `utf8_next_char` finds.
-/

/-- A capital ASCII letter becomes a small one. -/
def lowerByte (b : Byte) : Byte := if 65 ≤ b && b ≤ 90 then b + 32 else b

/-- The characters of a string. -/
def utf8Chars (string : Str) : List Str :=
  if _ : string = [] then [] else string.take (utf8CharSize string) :: utf8Chars (utf8NextChar string)
termination_by string.length
decreasing_by exact utf8NextChar_length_lt ‹_›

/-- The characters of a string, with small ASCII letters. -/
def lowerChars (string : Str) : List Str := (utf8Chars string).map fun char => char.map lowerByte

end Wirc

import Mathlib.Data.List.Basic
import Mathlib.Data.List.TakeWhile

/-!
# C strings

A C string is the list of its bytes before the final `\0`, and a pointer into
it the list of the bytes from there on (`[]` is the pointer at the final
`\0`), so that `ptr[0]` is the head, `ptr + 1` the tail and `ptr2 - ptr1` the
difference of the lengths (`off`). The functions of the C library that the
program calls are given here with their documented behaviour.
-/

namespace Wirc

abbrev Byte := UInt8

/-- A C string, or a pointer into one. -/
abbrev Str := List Byte

/-- A property of all bytes of a string is decided along the string, not for each of the 256 bytes. -/
instance (priority := high) decidableBytes (p : Byte → Prop) [DecidablePred p] (s : Str) :
    Decidable (∀ c ∈ s, p c) :=
  List.decidableBAll p s

/-- Whether a string is in a list of strings. -/
instance (priority := high) decidableMemStr (s : Str) (strings : List Str) : Decidable (s ∈ strings) :=
  List.instDecidableMemOfLawfulBEq s strings

/-- A C string that is stored: no byte of it is the `\0` at its end. -/
abbrev CStr := {s : Str // 0 ∉ s}

/-- The C string at a pointer to some bytes. -/
def cString (bytes : List Byte) : CStr :=
  ⟨bytes.takeWhile (· ≠ 0), fun h => by simpa using List.mem_takeWhile_imp h⟩

/-- The byte at an index of a string or the `\0` at its end; `none` is past the end. -/
def byteAt (string : Str) (pos : Nat) : Option Byte := if pos = string.length then some 0 else string[pos]?

/-- The largest size of an object, `PTRDIFF_MAX`. -/
def ptrdiffMax : Nat := 9223372036854775807

/-- The byte of a character constant. -/
def ch (c : Char) : Byte := c.toNat.toUInt8

/-- The bytes of a string constant. -/
def lit (s : String) : Str := s.toList.map ch

/-- `stop - start`, for two pointers into the same string. -/
def off (start stop : Str) : Nat := start.length - stop.length

/-- `strchr (s, c)`, for a byte `c` other than `\0`. -/
def strchr : Str → Byte → Option Str
  | [], _ => none
  | b :: s, c => if b = c then some (b :: s) else strchr s c

/-- `strrchr (s, c)`, for a byte `c` other than `\0`. -/
def strrchr : Str → Byte → Option Str
  | [], _ => none
  | b :: s, c =>
    match strrchr s c with
    | some p => some p
    | none => if b = c then some (b :: s) else none

/-- `strpbrk (s, accept)`. -/
def strpbrk : Str → Str → Option Str
  | [], _ => none
  | b :: s, accept => if b ∈ accept then some (b :: s) else strpbrk s accept

/-- `strstr (s, word)`. -/
def strstr : Str → Str → Option Str
  | [], word => if word = [] then some [] else none
  | b :: s, word => if word.isPrefixOf (b :: s) then some (b :: s) else strstr s word

/-- `strncmp (s, word, strlen (word)) == 0`. -/
def startsWith (s word : Str) : Bool := word.isPrefixOf s

/-- `while (s[0] == ' ') s++`. -/
def skipSpaces (s : Str) : Str := s.dropWhile (· = ch ' ')

/-- `strndup (s, n)`. -/
def strndup (s : Str) (n : Nat) : Str := s.take n

/-- `strcmp (s1, s2)`, of which only the sign is fixed: that of the difference
of the first bytes that differ. -/
def strcmp : Str → Str → Int
  | [], [] => 0
  | [], _ :: _ => -1
  | _ :: _, [] => 1
  | a :: s, b :: t => if a = b then strcmp s t else if a < b then -1 else 1

/-- `isspace (c)` in the C locale. -/
def isspace (c : Byte) : Bool := c = 32 || (9 ≤ c && c ≤ 13)

/-- `isdigit (c)`. -/
def isdigit (c : Byte) : Bool := ch '0' ≤ c && c ≤ ch '9'

/-- `isxdigit (c)`. -/
def isxdigit (c : Byte) : Bool := isdigit c || (ch 'a' ≤ c && c ≤ ch 'f') || (ch 'A' ≤ c && c ≤ ch 'F')

/-- The value of a hexadecimal digit. -/
def xdigitVal (c : Byte) : Nat :=
  if isdigit c then (c - ch '0').toNat else if ch 'a' ≤ c then (c - ch 'a').toNat + 10 else (c - ch 'A').toNat + 10

/-- The value of a run of decimal digits, read after `acc`. -/
def digitsVal (acc : Nat) (s : Str) : Nat :=
  s.foldl (fun a c => 10 * a + (c.toNat - 48)) acc

/-- The largest and smallest values of a `long`. -/
def longMax : Int := 9223372036854775807
def longMin : Int := -9223372036854775808

/-- `strtol (s, &end, 10)`: the value, and where reading stopped. Values out
of range saturate, and without digits nothing is read. -/
def strtol (s : Str) : Int × Str :=
  let s1 := s.dropWhile isspace
  let neg := s1.head? = some (ch '-')
  let s2 := if neg || s1.head? = some (ch '+') then s1.tail else s1
  let ds := s2.takeWhile isdigit
  if ds = [] then (0, s)
  else
    let n : Int := digitsVal 0 ds
    (if neg then max longMin (-n) else min longMax n, s2.dropWhile isdigit)

/-- The conversion of an integer to `int`, modulo 2³². -/
def toInt (x : Int) : Int := x.bmod 4294967296

/-- The conversion of an integer to `long`, modulo 2⁶⁴. -/
def toLong (x : Int) : Int := x.bmod 18446744073709551616

/-- The conversion of an integer to `size_t`, modulo 2⁶⁴. -/
def toSizeT (x : Int) : Nat := (x % 18446744073709551616).toNat

/-- The bytes that `malloc` or `realloc` gives for a size that is an `int`: none for a negative one. -/
def mallocInt (size : Int) : Option Nat := if toInt size < 0 then none else some (toInt size).toNat

/-- `%u`, and `%d` of a number that is not negative. -/
def fmtNat (n : Nat) : Str := (Nat.toDigits 10 n).map ch

/-- `%.*lu`, with at least one digit: zeros before the number. -/
def fmtNatDigits (digits n : Nat) : Str := List.replicate (digits - (fmtNat n).length) (ch '0') ++ fmtNat n

/-- `%d`. -/
def fmtInt (x : Int) : Str := if x < 0 then ch '-' :: fmtNat x.natAbs else fmtNat x.natAbs

/-- `snprintf` in a buffer of some bytes, one of them for the final `\0`. -/
def snprintf (size : Nat) (s : Str) : Str := s.take (size - 1)

end Wirc

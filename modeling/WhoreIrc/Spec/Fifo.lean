import WhoreIrc.Impl.Fifo
import WhoreIrc.Spec.SplitText

/-!
# Lines written to the FIFO pipe

A line ends with LF or with CR LF.
-/

namespace Wirc

open Framework

/-- A line without the CR of its terminator. -/
def withoutCr (line : Str) : Str := if line.getLast? = some (ch '\r') then line.dropLast else line

/-- The lines of a text that are terminated. -/
def fifoLines (text : Str) : List Str := (lines isLf text).map withoutCr

/-- A line that ends with LF alone is before one that ends with CR LF. -/
def LfBeforeCrLf (text : Str) : Prop :=
  ∃ line rest, text = line ++ ch '\n' :: rest ∧ line.getLast? ≠ some (ch '\r') ∧ lit "\r\n" <:+: rest

/-- What is kept and executed is what the text asks for. -/
structure FifoRight (fifo : Fifo) (text : Str) : Prop where
  unterminated : fifo.fifoUnterminated = if tail isLf text = [] then none else some (tail isLf text)
  executed : fifo.executed = fifoLines text

/-- The text that is read in a list of reads. -/
def textOf (reads : List CStr) : Str := reads.flatMap Subtype.val

end Wirc

import WhoreIrc.Impl.Exec
import WhoreIrc.Spec.SplitText

/-!
# Executed commands

What is expected of the numbers of commands and of the lines that are displayed, and
when `exec_add` finds a number that is not taken.
-/

namespace Wirc

open Framework

/-- The output of a stream. -/
def streamOf (out : ExecOut) (chunks : List (ExecOut × CStr)) : Str :=
  chunks.flatMap fun chunk => if chunk.1 = out then chunk.2.val else []

/-- The lines of a text, with the last one if it is not empty. -/
def textLinesAll (text : Str) : List Str := lines isLf text ++ if tail isLf text = [] then [] else [tail isLf text]

/-- The lines that were displayed for a stream. -/
def displayedOf (out : ExecOut) (displayed : List (ExecOut × Str)) : List Str :=
  (displayed.filter fun line => line.1 = out).map (·.2)

end Wirc

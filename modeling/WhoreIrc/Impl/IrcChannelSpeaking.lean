import WhoreIrc.Impl.IrcMode
import WhoreIrc.Impl.Weelist

/-!
# Nicks speaking on a channel (`plugins/irc/irc-channel.c`)

A channel has a list of the nicks speaking and one of those speaking with a
highlight, each created by its first nick.
-/

namespace Wirc

def ircChannelNicksSpeakingLimit : Nat := 128

/-- `nicks_speaking` of a channel: without highlight, and with one. -/
structure IrcChannelSpeaking where
  nicksSpeaking : Fin 2 → Option (List Str)

/-- Removes the first item some times. -/
def weelistRemoveFirst : (toRemove : Nat) → List Str → List Str
  | 0, weelist => weelist
  | toRemove + 1, weelist => weelistRemoveFirst toRemove (weelistRemove weelist (weelistGet weelist 0))

/-- `irc_channel_nick_speaking_add_to_list`, for one list. -/
def nickSpeakingAdd (weelist : List Str) (nickName : Str) : List Str :=
  -- remove item if it was already in list
  let weelist := weelistRemove weelist (weelistCasesearch weelist nickName)
  let weelist := weelistAdd weelist nickName .posEnd
  -- reduce list size if it's too big
  if weelist.length > ircChannelNicksSpeakingLimit then
    weelistRemoveFirst (weelist.length - ircChannelNicksSpeakingLimit) weelist
  else weelist

section

variable (channel : IrcChannelSpeaking)

/-- `irc_channel_nick_speaking_add_to_list`. -/
def ircChannelNickSpeakingAddToList (nickName : Str) (highlight : Fin 2) : IrcChannelSpeaking where
  nicksSpeaking := Function.update channel.nicksSpeaking highlight
    (some (nickSpeakingAdd ((channel.nicksSpeaking highlight).getD []) nickName))

/-- `irc_channel_nick_speaking_add`. -/
def ircChannelNickSpeakingAdd (nickName : Str) (highlight : Int) : IrcChannelSpeaking :=
  let highlight := if highlight < 0 then 0 else highlight
  let highlight := if highlight > 1 then 1 else highlight
  let channel :=
    if highlight ≠ 0 then ircChannelNickSpeakingAddToList channel nickName ⟨1, Nat.one_lt_two⟩ else channel
  ircChannelNickSpeakingAddToList channel nickName ⟨0, Nat.zero_lt_two⟩

/-- `irc_channel_nick_speaking_rename`. -/
def ircChannelNickSpeakingRename (oldNick newNick : Str) : IrcChannelSpeaking where
  nicksSpeaking i := (channel.nicksSpeaking i).map fun weelist => weelistSet weelist (weelistSearch weelist oldNick) newNick

/-- `irc_channel_nick_speaking_rename_if_present`: each item that is the nick is set to it. -/
def ircChannelNickSpeakingRenameIfPresent (server : IrcServerModes) (nickName : Str) : IrcChannelSpeaking where
  nicksSpeaking i := (channel.nicksSpeaking i).map fun weelist =>
    weelist.map fun ptrItem => if ircServerStrcaseeq server ptrItem nickName then nickName else ptrItem

end

end Wirc

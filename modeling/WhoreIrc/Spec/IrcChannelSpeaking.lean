import WhoreIrc.Framework.Run
import WhoreIrc.Impl.IrcChannelSpeaking

/-!
# Nicks speaking once

Runs of the operations on the two lists of a channel, what is expected of the
lists, and when a step keeps it.
-/

namespace Wirc

inductive SpeakingOp
  | add (nickName : Str) (highlight : Int)
  | rename (oldNick newNick : Str)
  | renameIfPresent (server : IrcServerModes) (nickName : Str)

def SpeakingOp.run (channel : IrcChannelSpeaking) : SpeakingOp → IrcChannelSpeaking
  | add nickName highlight => ircChannelNickSpeakingAdd channel nickName highlight
  | rename oldNick newNick => ircChannelNickSpeakingRename channel oldNick newNick
  | renameIfPresent server nickName => ircChannelNickSpeakingRenameIfPresent channel server nickName

/-- A channel where no nick has spoken. -/
def ircChannelSpeakingInit : IrcChannelSpeaking where
  nicksSpeaking _ := none

/-- No two nicks are equal ignoring case. -/
def NicksDistinct (weelist : List Str) : Prop := weelist.Pairwise fun nick1 nick2 => stringStrcasecmp nick1 nick2 ≠ 0

/-- Both lists have distinct nicks, and no more than the limit. -/
def SpeakingRight (channel : IrcChannelSpeaking) : Prop :=
  ∀ i weelist, channel.nicksSpeaking i = some weelist →
    NicksDistinct weelist ∧ weelist.length ≤ ircChannelNicksSpeakingLimit

/-- A nick that is added is the last one, in the list with highlights too if it has one. -/
def SpeakingOp.AddedLast (channel : IrcChannelSpeaking) : SpeakingOp → Prop
  | add nickName highlight => ∀ i : Fin 2, i = ⟨0, Nat.zero_lt_two⟩ ∨ 0 < highlight →
      ∃ weelist, (ircChannelNickSpeakingAdd channel nickName highlight).nicksSpeaking i = some weelist ∧
        weelist.getLast? = some nickName
  | _ => True

/-- The nick that is added is not empty; no other nick than the one renamed is the new one
ignoring case; one nick at most is renamed because it is present. -/
def SpeakingOp.Distinct (channel : IrcChannelSpeaking) : SpeakingOp → Prop
  | add nickName _ => nickName ≠ []
  | rename oldNick newNick => ∀ i weelist item, channel.nicksSpeaking i = some weelist →
      weelistSearch weelist oldNick = some item →
      ∀ nick ∈ weelist.eraseIdx item, stringStrcasecmp nick newNick ≠ 0
  | renameIfPresent server nickName => ∀ i weelist, channel.nicksSpeaking i = some weelist →
      weelist.countP (ircServerStrcaseeq server · nickName) ≤ 1

end Wirc

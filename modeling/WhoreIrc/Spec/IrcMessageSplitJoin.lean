import WhoreIrc.Impl.IrcMessageSplit

/-!
# The channels and keys of JOIN messages

A message is read back by positions: the n-th key is the key of the n-th
channel.
-/

namespace Wirc

/-- The channels, each with its key if there is one. -/
def pairUp : (channels keys : List Str) → List (Str × Option Str)
  | [], _ => []
  | channel :: channels, keys => (channel, keys.head?) :: pairUp channels keys.tail

/-- `" chan1,…,chanN"`, or nothing for no items. -/
def joinList (items : List Str) : Str := if items = [] then [] else lit " " ++ (lit ",").intercalate items

/-- `"chan1,…,chanN key1,…,keyK"`. -/
def joinArguments (channels keys : List Str) : Str := (lit ",").intercalate channels ++ joinList keys

/-- The channels and keys read in the arguments of a message. -/
def joinPairs (arguments : Str) : List (Str × Option Str) :=
  match arguments.splitOn (ch ' ') with
  | [] => []
  | [channels] => pairUp (channels.splitOn (ch ',')) []
  | channels :: keys :: _ => pairUp (channels.splitOn (ch ',')) (keys.splitOn (ch ','))

/-- The message before its arguments. -/
def joinHead (host : Option Str) : Str := orEmpty host ++ (if host.isSome then lit " " else []) ++ lit "JOIN"

/-- The channels and keys read in a message. -/
def parseJoin (host : Option Str) (message : Str) : List (Str × Option Str) :=
  if joinHead host ++ lit " " <+: message then joinPairs (message.drop ((joinHead host).length + 1)) else []

/-- The calls for some messages. -/
def joinCalls (tags : Option Str) (lengthNoChannel number : Nat) : (messages : List Str) → List (HashtableOp Str Str)
  | [] => []
  | message :: messages =>
    ircMessageSplitAdd number tags message (message.drop (lengthNoChannel + 1)) ++
      joinCalls tags lengthNoChannel (number + 1) messages

/-- The messages are made with the channels and keys as they are given, and only a
message with one channel may be too long. -/
def KeepsPairs (tags host : Option Str) (channels keys : List Str) (maxLength : Int) : Prop :=
  ∃ messages, ircMessageSplitJoin tags host (joinArguments channels keys) maxLength =
      some (1, joinCalls tags (joinStart host).length 1 messages) ∧
    messages.flatMap (parseJoin host) = pairUp channels keys ∧
    ∀ message ∈ messages, message.length < maxLength - 2 ∨ (parseJoin host message).length = 1

/-- `length_to_add`, for a channel with its key. -/
def joinWeight (pair : Str × Option Str) : Nat := joinLengthToAdd pair.1 pair.2

/-- A word that is a channel or a key. -/
def IsJoinWord (w : Str) : Prop := w ≠ [] ∧ ch ' ' ∉ w ∧ ch ',' ∉ w

instance (w : Str) : Decidable (IsJoinWord w) := inferInstanceAs (Decidable (_ ∧ _))

end Wirc

import WhoreIrc.Impl.CString

/-!
# Parsing an IRC message (`plugins/irc/irc-message.c`)

`irc_message_parse` with every output asked for. A pointer into the message is
the rest of the message from there, and the position returned for it is its
distance from the start.
-/

namespace Wirc

/-- The field of `t_irc_server` that parsing reads. -/
structure IrcServer where
  chantypes : Option Str

def ircChannelDefaultChantypes : Str := lit "#&+!"

/-- `irc_channel_is_channel`: the first character is a channel type. -/
def ircChannelIsChannel (server : Option IrcServer) (string : Str) : Bool :=
  match string with
  | [] => false
  | c :: _ => c ∈ ((server.bind IrcServer.chantypes).getD ircChannelDefaultChantypes)

/-- The outputs of `irc_message_parse`: NULL and −1 unless set. -/
structure IrcMessage where
  tags : Option Str := none
  messageWithoutTags : Option Str := none
  nick : Option Str := none
  host : Option Str := none
  command : Option Str := none
  channel : Option Str := none
  arguments : Option Str := none
  text : Option Str := none
  posCommand : Int := -1
  posArguments : Int := -1
  posChannel : Int := -1
  posText : Int := -1
  deriving DecidableEq

/-- The word at `pos`: up to the space found there, or all of it. -/
def wordAt (pos : Str) : Option Str → Str
  | some pos2 => strndup pos (off pos pos2)
  | none => pos

/-- The text after a channel: spaces and one `:` are skipped. -/
def textAfter (pos : Str) : Str :=
  let pos := skipSpaces pos
  if pos.head? = some (ch ':') then pos.tail else pos

/-- The tags, and the message without them. -/
def ircMessageParseTags (message : Str) : Option Str × Str :=
  if message.head? = some (ch '@') then
    match strchr message (ch ' ') with
    | some pos => (some (strndup message.tail (off message.tail pos)), skipSpaces pos.tail)
    | none => (none, message)
  else (none, message)

/-- The nick and host of the prefix, and what comes after it. -/
def ircMessageParsePrefix (ptr : Str) : Option Str × Option Str × Str :=
  if ptr.head? = some (ch ':') then
    let pos3 := strchr ptr (ch '@')
    let pos2 := strchr ptr (ch '!')
    let pos := strchr ptr (ch ' ')
    -- if the prefix doesn't contain a '!', split the nick at '@'
    let pos2 := match pos2, pos with
      | none, _ => pos3
      | some p2, some p => if p2.length < p.length then pos3 else some p2
      | some p2, none => some p2
    let nick := match pos2, pos with
      | some p2, none => some (strndup ptr.tail (off ptr.tail p2))
      | some p2, some p =>
        if p.length < p2.length then some (strndup ptr.tail (off ptr.tail p2))
        else some (strndup ptr.tail (off ptr.tail p))
      | none, some p => some (strndup ptr.tail (off ptr.tail p))
      | none, none => none
    match pos with
    | some p => (nick, some (strndup ptr.tail (off ptr.tail p)), skipSpaces p.tail)
    | none => (nick, some ptr.tail, [])
  else (none, none, ptr)

/-- The channel at `pos`, which ends at `pos2`, and the text after the space
`pos4` if there is one. -/
def ircMessageSetChannel (message pos : Str) (pos2 pos4 : Option Str) (r : IrcMessage) : IrcMessage :=
  let r := { r with channel := some (wordAt pos pos2), posChannel := off message pos }
  match pos4 with
  | some pos4 =>
    let pos4 := textAfter pos4
    { r with text := some pos4, posText := off message pos4 }
  | none => r

/-- The part of `irc_message_parse` on the arguments of the command `ptr`,
which start at `pos`. -/
def ircMessageParseArguments (server : Option IrcServer) (message ptr pos : Str) (r : IrcMessage) :
    IrcMessage :=
  let r := { r with arguments := some pos, posArguments := off message pos }
  let pos := if pos.head? = some (ch ':') && (startsWith ptr (lit "JOIN ") || startsWith ptr (lit "PART "))
    then pos.tail else pos
  if pos.head? = some (ch ':') then
    { r with text := some pos.tail, posText := off message pos + 1 }
  else if ircChannelIsChannel server pos then
    ircMessageSetChannel message pos (strchr pos (ch ' ')) (strchr pos (ch ' ')) r
  else
    let r := if r.nick = none then { r with nick := some (wordAt pos (strchr pos (ch ' '))) } else r
    match strchr pos (ch ' ') with
    | none => r
    | some pos3 =>
      let pos2 := skipSpaces pos3.tail
      if ircChannelIsChannel server pos2 then
        ircMessageSetChannel message pos2 (strchr pos2 (ch ' ')) (strchr pos2 (ch ' ')) r
      else ircMessageSetChannel message pos (some pos3) (strchr pos3 (ch ' ')) r

/-- `irc_message_parse`, for a message that is not NULL. -/
def ircMessageParse (server : Option IrcServer) (message : Str) : IrcMessage :=
  let (tags, ptr) := ircMessageParseTags message
  let r : IrcMessage := { tags, messageWithoutTags := some ptr }
  let (nick, host, ptr) := ircMessageParsePrefix ptr
  let r := { r with nick, host }
  if ptr = [] then r
  else match strchr ptr (ch ' ') with
    | some pos =>
      let r := { r with command := some (strndup ptr (off ptr pos)), posCommand := off message ptr }
      ircMessageParseArguments server message ptr (skipSpaces pos.tail) r
    | none => { r with command := some ptr, posCommand := off message ptr }

end Wirc

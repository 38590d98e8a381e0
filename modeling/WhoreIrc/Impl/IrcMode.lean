import WhoreIrc.Impl.StringSplit
import WhoreIrc.Impl.Utf8

/-!
# Modes of channels and nicks (`plugins/irc/irc-mode.c`, `irc-nick.c`)

The tables of a server come from its message 005, and say which modes take an
argument and which are prefixes of nicks. A channel keeps its modes as one
string, and each nick a string with a position for each prefix. The lists of
masks, the smart filter, the list of nicks on screen and messages are left out.
-/

namespace Wirc

/-! ## Tables of the server -/

inductive IrcCasemapping
  | rfc1459
  | strictRfc1459
  | ascii
  deriving DecidableEq

/-- `prefix_modes` and `prefix_chars`, which are set and freed together. -/
structure IrcPrefixTable where
  modes : Str
  chars : Str
  length_eq : chars.length = modes.length
  deriving DecidableEq

/-- `irc_server_prefix_modes_default` and `irc_server_prefix_chars_default`. -/
def ircServerPrefixDefault : IrcPrefixTable := ⟨lit "ov", lit "@+", rfl⟩

def ircServerChanmodesDefault : Str := lit "beI,k,l"

/-- The fields of `t_irc_server` that are read here. -/
structure IrcServerModes where
  casemapping : IrcCasemapping
  prefixTable : Option IrcPrefixTable
  chanmodes : Option Str
  deriving DecidableEq

section

variable (server : IrcServerModes)

def ircServerGetPrefixModes : Str := (server.prefixTable.getD ircServerPrefixDefault).modes

def ircServerGetPrefixChars : Str := (server.prefixTable.getD ircServerPrefixDefault).chars

def ircServerGetChanmodes : Str := server.chanmodes.getD ircServerChanmodesDefault

/-- `irc_server_get_prefix_mode_index`, `none` for −1. -/
def ircServerGetPrefixModeIndex (mode : Byte) : Option Nat :=
  (strchr (ircServerGetPrefixModes server) mode).map (off (ircServerGetPrefixModes server))

/-- `irc_server_get_prefix_char_index`, `none` for −1. -/
def ircServerGetPrefixCharIndex (prefixChar : Byte) : Option Nat :=
  (strchr (ircServerGetPrefixChars server) prefixChar).map (off (ircServerGetPrefixChars server))

/-- The chars for some modes: a space for each mode that has none. -/
def prefixCharsFor (modes chars : Str) : Str := (chars ++ List.replicate modes.length (ch ' ')).take modes.length

/-- `irc_server_set_prefix_modes_chars`; `strndup` gives NULL for a negative length. -/
def ircServerSetPrefixModesChars (value : Str) : IrcServerModes :=
  { server with
    prefixTable := match strchr value (ch ')') with
      | some pos =>
        if off value pos = 0 then none
        else
          let modes := strndup value.tail (off value pos - 1)
          some ⟨modes, prefixCharsFor modes pos.tail, by
            rw [prefixCharsFor, List.length_take, List.length_append, List.length_replicate]
            omega⟩
      | none => none }

/-- The value of a feature in the message 005, up to the next space. -/
def isupportValue (text feature : Str) : Option Str :=
  (strstr text feature).map fun pos => (pos.drop feature.length).takeWhile (· ≠ ch ' ')

/-- `irc_server_search_casemapping`, with the casemapping if it is not found. -/
def ircServerSearchCasemapping (casemapping : Str) : IrcCasemapping :=
  if stringStrcasecmp (lit "rfc1459") casemapping = 0 then .rfc1459
  else if stringStrcasecmp (lit "strict-rfc1459") casemapping = 0 then .strictRfc1459
  else if stringStrcasecmp (lit "ascii") casemapping = 0 then .ascii
  else server.casemapping

/-- `irc_protocol_cb_005`, on `argv_eol[3]`. -/
def ircProtocolCb005 (text : Str) : IrcServerModes :=
  let server := match isupportValue text (lit "PREFIX=") with
    | some value => ircServerSetPrefixModesChars server value
    | none => server
  let server := match isupportValue text (lit "CASEMAPPING=") with
    | some value => { server with casemapping := ircServerSearchCasemapping server value }
    | none => server
  match isupportValue text (lit "CHANMODES=") with
  | some value => { server with chanmodes := some value }
  | none => server

/-- `utf8_charcasecmp_range` (`core/wee-utf8.c`), for characters that are then
compared. -/
def wideCharLowerRange (range : UInt32) (wchar : UInt32) : UInt32 :=
  if 65 ≤ wchar && wchar < 65 + range then wchar + 32 else wchar

/-- `string_strcasecmp_range` (`core/wee-string.c`), whether it is 0. -/
def stringStrcaseeqRange (range : UInt32) (string1 string2 : Str) : Bool :=
  if _ : string1 = [] ∨ string2 = [] then string1 = string2
  else
    wideCharLowerRange range (utf8WideChar string1) = wideCharLowerRange range (utf8WideChar string2) &&
      stringStrcaseeqRange range (utf8NextChar string1) (utf8NextChar string2)
termination_by string1.length
decreasing_by exact utf8NextChar_length_lt fun h => ‹¬ (string1 = [] ∨ string2 = [])› (.inl h)

/-- `irc_server_strcasecmp`, whether it is 0. -/
def ircServerStrcaseeq (string1 string2 : Str) : Bool :=
  match server.casemapping with
  | .rfc1459 => stringStrcaseeqRange 30 string1 string2
  | .strictRfc1459 => stringStrcaseeqRange 29 string1 string2
  | .ascii => stringStrcasecmp string1 string2 = 0

end

/-! ## Nicks -/

structure IrcNick where
  name : Str
  prefixes : Str
  /-- `prefix[0]`. -/
  pfx : Byte
  deriving DecidableEq

/-- `irc_nick_set_current_prefix`. -/
def ircNickSetCurrentPrefix (nick : IrcNick) : IrcNick :=
  { nick with pfx := (nick.prefixes.find? (· ≠ ch ' ')).getD (ch ' ') }

section

variable (server : IrcServerModes)

/-- `irc_nick_set_prefix`; `none` if it writes outside the string. -/
def ircNickSetPrefix (nick : IrcNick) (set : Bool) (prefixChar : Byte) : Option IrcNick :=
  match ircServerGetPrefixCharIndex server prefixChar with
  | some index =>
    if index < nick.prefixes.length then
      some (ircNickSetCurrentPrefix
        { nick with prefixes := nick.prefixes.set index (if set then prefixChar else ch ' ') })
    else none
  | none => some nick

/-- `irc_nick_set_prefixes`. -/
def ircNickSetPrefixes (nick : IrcNick) (prefixes : Option Str) : Option IrcNick :=
  let nick := { nick with prefixes := List.replicate nick.prefixes.length (ch ' ') }
  ((prefixes.getD []).foldlM (fun nick prefixChar => ircNickSetPrefix server nick true prefixChar) nick).map
    ircNickSetCurrentPrefix

/-- `irc_nick_set_mode`; `none` if it reads or writes outside a string. -/
def ircNickSetMode (nick : IrcNick) (set : Bool) (mode : Byte) : Option IrcNick :=
  match ircServerGetPrefixModeIndex server mode with
  | some index => (ircServerGetPrefixChars server)[index]?.bind fun prefixChar => ircNickSetPrefix server nick set prefixChar
  | none => some nick

/-- Changes the nick found by `irc_nick_search`, if there is one. -/
def changeNick (change : IrcNick → Option IrcNick) (nickname : Str) : List IrcNick → Option (List IrcNick)
  | [] => some []
  | nick :: nicks =>
    if ircServerStrcaseeq server nick.name nickname then (change nick).map fun nick => nick :: nicks
    else (changeNick change nickname nicks).map fun nicks => nick :: nicks

/-- `irc_nick_new`, on the nicks of a channel. -/
def ircNickNew (nicks : List IrcNick) (nickname : Str) (prefixes : Option Str) : Option (List IrcNick) :=
  if nickname = [] then some nicks
  else if nicks.any fun nick => ircServerStrcaseeq server nick.name nickname then
    changeNick server (fun nick => ircNickSetPrefixes server nick prefixes) nickname nicks
  else
    let length := (ircServerGetPrefixChars server).length
    (ircNickSetPrefixes server ⟨nickname, List.replicate length (ch ' '), ch ' '⟩ prefixes).map fun nick =>
      nicks ++ [nick]

/-- A nick of the message 353: its prefixes, its name and its host. -/
def ircProtocolNamesNick (nicks : List IrcNick) (word : Str) : Option (List IrcNick) :=
  let posNick := if word.head? = some (ch ':') then word.tail else word
  let prefixes := posNick.takeWhile fun c => (ircServerGetPrefixCharIndex server c).isSome
  let posNick := posNick.dropWhile fun c => (ircServerGetPrefixCharIndex server c).isSome
  ircNickNew server nicks (posNick.takeWhile (· ≠ ch '!')) (if prefixes = [] then none else some prefixes)

/-- `irc_protocol_cb_353`, for a channel that is open. -/
def ircProtocolCb353 (nicks : List IrcNick) (words : List Str) : Option (List IrcNick) :=
  words.foldlM (fun nicks word => if nicks = [] then some nicks else ircProtocolNamesNick server nicks word) nicks

end

/-! ## Channels -/

/-- The type of a channel mode, from `A` to `D`. -/
inductive ChanmodeType
  | A
  | B
  | C
  | D
  deriving DecidableEq

/-- `chanmode_type++`, which stops at `D`. -/
def ChanmodeType.next : ChanmodeType → ChanmodeType
  | .A => .B
  | .B => .C
  | .C => .D
  | .D => .D

/-- A channel, with its nicks, and whether a work buffer was too short. -/
structure IrcChannel (Nicks : Type) where
  modes : Option Str
  key : Option Str
  limit : Int
  nicks : Nicks
  overrun : Bool

section

variable (server : IrcServerModes)

/-- `irc_mode_get_chanmode_type`. -/
def ircModeGetChanmodeType (chanmode : Byte) : ChanmodeType :=
  if (ircServerGetPrefixModeIndex server chanmode).isSome then .B
  else
    let chanmodes := ircServerGetChanmodes server
    match strchr chanmodes chanmode with
    | some pos =>
      (strndup chanmodes (off chanmodes pos)).foldl (fun type c => if c = ch ',' then type.next else type) .A
    | none => .D

/-- `strcat (new_args, argument)`, after a space if there is something. -/
def addArgument (newArgs : Str) : Option Str → Str
  | some argument => (if newArgs = [] then [] else newArgs ++ [ch ' ']) ++ argument
  | none => newArgs

/-- The loop on current modes, with the arguments that are left, and what is built:
`new_modes`, `new_args` and `chanmode_found`. -/
def ircModeChannelUpdateLoop (setFlag : Bool) (chanmode : Byte) (argument : Option Str) :
    Str → List Str → Str × Str × Bool → Str × Str × Bool
  | [], _, built => built
  | c :: pos, argv, (newModes, newArgs, found) =>
    if c = ch '+' ∨ c = ch '-' then
      ircModeChannelUpdateLoop setFlag chanmode argument pos argv (newModes ++ [c], newArgs, found)
    else
      let ptrArg := if ircModeGetChanmodeType server c = .D then none else argv.head?
      let argv := if ptrArg.isSome then argv.tail else argv
      if c = chanmode then
        ircModeChannelUpdateLoop setFlag chanmode argument pos argv
          (if setFlag then (newModes ++ [c], addArgument newArgs argument, true) else (newModes, newArgs, true))
      else
        ircModeChannelUpdateLoop setFlag chanmode argument pos argv
          (newModes ++ [c], addArgument newArgs ptrArg, found)

/-- The letters of the modes of a channel, and `pos_args`. -/
def channelModesParts (modes : Str) : Str × Str :=
  match strchr modes (ch ' ') with
  | some pos => (strndup modes (off modes pos), skipSpaces pos.tail)
  | none => (modes, [])

/-- Adds to what is built a mode that is set and was not found. -/
def addChanmode (setFlag : Bool) (chanmode : Byte) (argument : Option Str) (built : Str × Str × Bool) : Str × Str :=
  if built.2.2 = false ∧ setFlag then
    match argument with
    | some _ => (built.1 ++ [chanmode], addArgument built.2.1 argument)
    | none =>
      -- add mode without argument at the beginning of modes
      (built.1.takeWhile (· = ch '+') ++ chanmode :: built.1.dropWhile (· = ch '+'), built.2.1)
  else (built.1, built.2.1)

/-- The room for an argument, after a space. -/
def argumentRoom : Option Str → Nat
  | some argument => 1 + argument.length
  | none => 0

variable {Nicks : Type}

/-- `irc_mode_channel_update`; the work buffers only grow, up to what is built. -/
def ircModeChannelUpdate (channel : IrcChannel Nicks) (setFlag : Bool) (chanmode : Byte) (argument : Option Str) :
    IrcChannel Nicks :=
  let modes := channel.modes.getD (lit "+")
  let parts := channelModesParts modes
  let argv := (stringSplit parts.2 (lit " ") none ⟨true, true, true, false⟩ 0).getD []
  let sizeModes := modes.length + 1 + 1
  let sizeArgs := parts.2.length + argumentRoom argument + 1
  let built := addChanmode setFlag chanmode argument
    (ircModeChannelUpdateLoop server setFlag chanmode argument parts.1 argv ([], [], false))
  { channel with
    modes := some (if built.2 = [] then built.1 else built.1 ++ ch ' ' :: built.2)
    overrun := channel.overrun || decide (sizeModes < built.1.length + 1 ∨ sizeArgs < built.2.length + 1) }

-- `irc_nick_search`, and `irc_nick_set_mode` for the nick
variable (setNickMode : Nicks → Str → Bool → Byte → Nicks)

/-- What is done for a mode other than changing `channel->modes`, and whether that
is done. -/
def ircModeChannelSetMode (channel : IrcChannel Nicks) (setFlag : Bool) (mode : Byte) (ptrArg : Option Str) :
    Bool × IrcChannel Nicks :=
  let type := ircModeGetChanmodeType server mode
  let update := decide (type ≠ .A)
  if mode = ch 'k' then
    (update, { channel with
      key := if setFlag then
          match ptrArg with
          | some argument => if argument = lit "*" then channel.key else some argument
          | none => channel.key
        else none })
  else if mode = ch 'l' then
    (update, { channel with
      limit := if setFlag then
          match ptrArg with
          | some argument => toInt (strtol argument).1
          | none => channel.limit
        else 0 })
  else if type ≠ .A ∧ (ircServerGetPrefixModeIndex server mode).isSome then
    -- mode for nick
    (false, match ptrArg with
      | some argument => { channel with nicks := setNickMode channel.nicks argument setFlag mode }
      | none => channel)
  else (update, channel)

/-- The argument of a mode, from the arguments that are left. -/
def ircModeArgument (setFlag : Bool) (argv : List Str) : ChanmodeType → Option Str
  | .A => argv.head?
  | .B => argv.head?
  | .C => if setFlag then argv.head? else none
  | .D => none

/-- The loop of `irc_mode_channel_set`, with the flag and the arguments that are left. -/
def ircModeChannelSetLoop : Bool → List Str → IrcChannel Nicks → Str → IrcChannel Nicks
  | _, _, channel, [] => channel
  | setFlag, argv, channel, c :: pos =>
    if c = ch ':' then ircModeChannelSetLoop setFlag argv channel pos
    else if c = ch ' ' then channel
    else if c = ch '+' then ircModeChannelSetLoop true argv channel pos
    else if c = ch '-' then ircModeChannelSetLoop false argv channel pos
    else
      let ptrArg := ircModeArgument setFlag argv (ircModeGetChanmodeType server c)
      let argv := if ptrArg.isSome then argv.tail else argv
      let ptrArg := ptrArg.map fun argument => if argument.head? = some (ch ':') then argument.tail else argument
      let done := ircModeChannelSetMode server setNickMode channel setFlag c ptrArg
      let channel := if done.1 then ircModeChannelUpdate server done.2 setFlag c ptrArg else done.2
      ircModeChannelSetLoop setFlag argv channel pos

/-- `irc_mode_channel_set`. -/
def ircModeChannelSet (channel : IrcChannel Nicks) (modes : Str) (modesArguments : Option Str) : IrcChannel Nicks :=
  let argv := match modesArguments with
    | some arguments => (stringSplit arguments (lit " ") none ⟨true, true, true, false⟩ 0).getD []
    | none => []
  ircModeChannelSetLoop server setNickMode true argv channel modes

end

/-! ## Messages of a server -/

/-- A server and its channels. The nicks of a channel are `none` after an access
outside a string. -/
structure IrcServerChannels (Channel : Type) where
  server : IrcServerModes
  channel : Channel → IrcChannel (Option (List IrcNick))

/-- What changes the tables of a server and the nicks of its channels. -/
inductive IrcServerMessage (Channel : Type)
  | isupport (text : Str)
  | nickNew (channel : Channel) (nickname : Str) (prefixes : Option Str)
  | mode (channel : Channel) (modes : Str) (modesArguments : Option Str)
  | names (channel : Channel) (words : List Str)

section

variable {Channel : Type} [DecidableEq Channel]

/-- `irc_nick_search`, and `irc_nick_set_mode` for the nick. -/
def setNickMode (server : IrcServerModes) (nicks : Option (List IrcNick)) (nickname : Str) (set : Bool) (mode : Byte) :
    Option (List IrcNick) :=
  nicks.bind (changeNick server (fun nick => ircNickSetMode server nick set mode) nickname)

def changeChannel (server : IrcServerChannels Channel) (channel : Channel)
    (change : IrcChannel (Option (List IrcNick)) → IrcChannel (Option (List IrcNick))) : IrcServerChannels Channel :=
  { server with channel := Function.update server.channel channel (change (server.channel channel)) }

def receiveMessage (server : IrcServerChannels Channel) : IrcServerMessage Channel → IrcServerChannels Channel
  | .isupport text => { server with server := ircProtocolCb005 server.server text }
  | .nickNew channel nickname prefixes => changeChannel server channel fun ptrChannel =>
    { ptrChannel with nicks := ptrChannel.nicks.bind fun nicks => ircNickNew server.server nicks nickname prefixes }
  | .mode channel modes modesArguments => changeChannel server channel fun ptrChannel =>
    ircModeChannelSet server.server (setNickMode server.server) ptrChannel modes modesArguments
  | .names channel words => changeChannel server channel fun ptrChannel =>
    { ptrChannel with nicks := ptrChannel.nicks.bind fun nicks => ircProtocolCb353 server.server nicks words }

end

end Wirc

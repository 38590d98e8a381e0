import Mathlib.Logic.Function.Basic
import WhoreIrc.Framework.Chain
import WhoreIrc.Impl.CString
import WhoreIrc.Impl.IrcMessageParse
import WhoreIrc.Impl.IrcMode

/-!
# Messages received and sent (`plugins/irc/irc-server.c`)

Received data is cut into messages, in a queue that all servers share. A message
is sent now, or goes to one of the two out queues of its server, that a timer
sends slowly. Redirections, signals and the raw buffer are left out; a signal
does not send anything.
-/

namespace Wirc

open Framework

/-! ## Received data -/

/-- `irc_recv_msgq`, and `unterminated_message` of each server. -/
structure IrcMsgq (Server : Type) where
  unterminatedMessage : Server → Option Str
  recvMsgq : List (Server × Str)

section

variable {Server : Type} [DecidableEq Server] (server : Server)

/-- `irc_server_msgq_add_msg`. -/
def ircServerMsgqAddMsg (msgq : IrcMsgq Server) (msg : Str) : IrcMsgq Server :=
  match msgq.unterminatedMessage server with
  | some unterminated =>
    ⟨Function.update msgq.unterminatedMessage server none, msgq.recvMsgq ++ [(server, unterminated ++ msg)]⟩
  | none => if msg = [] then msgq else { msgq with recvMsgq := msgq.recvMsgq ++ [(server, msg)] }

/-- `irc_server_msgq_add_unterminated`. -/
def ircServerMsgqAddUnterminated (msgq : IrcMsgq Server) (string : Str) : IrcMsgq Server :=
  if string = [] then msgq
  else
    { msgq with
      unterminatedMessage := Function.update msgq.unterminatedMessage server
        (some ((msgq.unterminatedMessage server).getD [] ++ string)) }

/-- `irc_server_msgq_add_buffer`; each round takes one byte at least. -/
def ircServerMsgqAddBuffer : Nat → IrcMsgq Server → Str → IrcMsgq Server
  | 0, msgq, _ => msgq
  | rounds + 1, msgq, buffer =>
    let posCr := strchr buffer (ch '\r')
    let posLf := strchr buffer (ch '\n')
    if buffer = [] then msgq
    else
      match posCr, posLf with
      | none, none => ircServerMsgqAddUnterminated server msgq buffer
      | some cr, none =>
        let msgq := ircServerMsgqAddUnterminated server msgq (strndup buffer (off buffer cr))
        ircServerMsgqAddBuffer rounds msgq cr.tail
      | none, some lf =>
        let msgq := ircServerMsgqAddMsg server msgq (strndup buffer (off buffer lf))
        ircServerMsgqAddBuffer rounds msgq lf.tail
      | some cr, some lf =>
        if off buffer cr < off buffer lf then
          -- found '\r' first => ignore this char
          let msgq := ircServerMsgqAddUnterminated server msgq (strndup buffer (off buffer cr))
          ircServerMsgqAddBuffer rounds msgq cr.tail
        else
          let msgq := ircServerMsgqAddMsg server msgq (strndup buffer (off buffer lf))
          ircServerMsgqAddBuffer rounds msgq lf.tail

end

/-! ## Messages that are sent -/

/-- `IRC_SERVER_SEND_*`. -/
def ircServerSendOutqPrioHigh : Nat := 1
def ircServerSendOutqPrioLow : Nat := 2

/-- What was given to the socket and accepted, with the queue from the flags of
the message (0 if none) and the time. -/
structure IrcSent where
  queueMsg : Nat
  time : Int
  data : Str
  deriving DecidableEq

/-- The fields of a server for its out queues, and the numbers of the clock's and
the socket's results that are used. -/
structure IrcServerOut where
  outqueue : Fin 2 → List Str
  lastUserMessage : Int
  reads : Nat
  sends : Nat
  sent : List IrcSent

/-- What sending depends on: options, hooks (`weechat_hook_modifier_exec` with a
modifier, its data and a string), the results of the clock and of the socket. -/
structure IrcServerEnv where
  name : Str
  server : Option IrcServer
  antiFloodPrioHigh : Int
  antiFloodPrioLow : Int
  channelEncode : Bool
  hookModifierExec : Str → Str → Str → Option Str
  clock : Nat → Int
  socket : Nat → Str → Int

/-- The arguments of `irc_server_send_one_msg`. -/
structure IrcOneMsg where
  flags : Nat
  message : Str
  nick : Option Str
  command : Option Str
  channel : Option Str

section

variable (env : IrcServerEnv)

/-- The option for the queue of a priority. -/
def IrcServerEnv.antiFlood (priority : Fin 2) : Int :=
  if priority = 0 then env.antiFloodPrioHigh else env.antiFloodPrioLow

/-- `irc_server_send`: the number of bytes sent, 0 or less if error. -/
def ircServerSend (server : IrcServerOut) (queueMsg : Nat) (time : Int) (buffer : Str) : Int × IrcServerOut :=
  if buffer = [] then (0, server)
  else
    let rc := env.socket server.sends buffer
    (rc, { server with sends := server.sends + 1, sent := server.sent ++ [⟨queueMsg, time, buffer.take rc.toNat⟩] })

/-- `time_now = time (NULL)`; the clock may now be lower than before. -/
def ircServerTime (server : IrcServerOut) : Int × IrcServerOut :=
  let timeNow := env.clock server.reads
  (timeNow, { server with reads := server.reads + 1, lastUserMessage := min server.lastUserMessage timeNow })

/-- `irc_server_outqueue_add`, for `message_after_mod`. -/
def ircServerOutqueueAdd (server : IrcServerOut) (priority : Fin 2) (msg2 : Str) : IrcServerOut :=
  { server with outqueue := Function.update server.outqueue priority (server.outqueue priority ++ [msg2]) }

/-- The loop of `irc_server_outqueue_send` on the priorities that are left. -/
def ircServerOutqueueSendPrio (timeNow : Int) (server : IrcServerOut) : List (Fin 2) → IrcServerOut
  | [] => server
  | priority :: priorities =>
    match server.outqueue priority with
    | message :: messages =>
      if server.lastUserMessage + env.antiFlood priority ≤ timeNow then
        let server := (ircServerSend env server (priority.val + 1) timeNow message).2
        { server with
          lastUserMessage := timeNow
          outqueue := Function.update server.outqueue priority messages }
      else ircServerOutqueueSendPrio timeNow server priorities
    | [] => ircServerOutqueueSendPrio timeNow server priorities

/-- `irc_server_outqueue_send`. -/
def ircServerOutqueueSend (server : IrcServerOut) : IrcServerOut :=
  let (timeNow, server) := ircServerTime env server
  ircServerOutqueueSendPrio env timeNow server [0, 1]

/-- `irc_message_convert_charset`. -/
def ircMessageConvertCharset (message : Str) (posStart : Nat) (modifier modifierData : Str) : Option Str :=
  (env.hookModifierExec modifier modifierData (message.drop posStart)).map fun text => message.take posStart ++ text

/-- The text to send, after the modifiers; NULL if the message is dropped. -/
def ircServerFinalText (msg : IrcOneMsg) : Option Str :=
  let strModifier := snprintf 128 (lit "irc_out_" ++ msg.command.getD (lit "unknown"))
  let newMsg := env.hookModifierExec strModifier env.name msg.message
  -- no changes in new message
  let newMsg := if newMsg = some msg.message then none else newMsg
  -- message not dropped?
  if newMsg ≠ some [] then
    let ptrMsg := newMsg.getD msg.message
    let parsed := ircMessageParse env.server ptrMsg
    let posEncode := if env.channelEncode ∧ 0 ≤ parsed.posChannel then parsed.posChannel else parsed.posText
    let msgEncoded :=
      if 0 ≤ posEncode then
        let ptrChanNick := match msg.channel with
          | some channel => some channel
          | none => msg.nick
        let modifierData := snprintf 256 (lit "irc." ++ env.name ++ (match ptrChanNick with
          | some chanNick => ch '.' :: chanNick
          | none => []))
        ircMessageConvertCharset env ptrMsg posEncode.toNat (lit "charset_encode") modifierData
      else none
    some (msgEncoded.getD ptrMsg)
  else none

/-- The queue from the flags. -/
def ircServerQueueMsg (flags : Nat) : Nat :=
  if flags &&& ircServerSendOutqPrioHigh ≠ 0 then 1
  else if flags &&& ircServerSendOutqPrioLow ≠ 0 then 2
  else 0

/-- `switch (queue_msg - 1)`. -/
def ircServerPriority (queueMsg : Nat) : Fin 2 := if queueMsg = 1 then 0 else 1

/-- Sends a line or adds it to a queue. -/
def ircServerSendLine (queueMsg : Nat) (server : IrcServerOut) (line : Str) : Bool × IrcServerOut :=
  let buffer := snprintf 4096 (line ++ lit "\r\n")
  let (timeNow, server) := ircServerTime env server
  let priority := ircServerPriority queueMsg
  let antiFlood := env.antiFlood priority
  -- anti-flood: look whether we should queue outgoing message or not
  if 0 < queueMsg ∧ (server.outqueue priority ≠ [] ∨
      (0 < antiFlood ∧ timeNow - server.lastUserMessage < antiFlood)) then
    (true, ircServerOutqueueAdd server priority buffer)
  else
    let (rc, server) := ircServerSend env server queueMsg timeNow buffer
    if rc ≤ 0 then (false, server)
    else (true, if 0 < queueMsg then { server with lastUserMessage := timeNow } else server)

/-- The loop on the lines of the text; each round takes one byte at least. -/
def ircServerSendLines (queueMsg : Nat) : Nat → IrcServerOut → Str → Bool × IrcServerOut
  | 0, server, _ => (true, server)
  | rounds + 1, server, text =>
    if text = [] then (true, server)
    else
      let (line, rest) := match strchr text (ch '\n') with
        | some pos => (strndup text (off text pos), pos.tail)
        | none => (text, [])
      match ircServerSendLine env queueMsg server line with
      | (true, server) => ircServerSendLines queueMsg rounds server rest
      | (false, server) => (false, server)

/-- `irc_server_send_one_msg`. -/
def ircServerSendOneMsg (server : IrcServerOut) (msg : IrcOneMsg) : Bool × IrcServerOut :=
  match ircServerFinalText env msg with
  | some text => ircServerSendLines env (ircServerQueueMsg msg.flags) text.length server text
  | none => (true, server)

end

/-!
## The list of servers (`plugins/irc/irc-server.c`)

Nodes hold what a server has besides its two pointers; its name is read. `none`
is where the code would read a server that is not in memory, or go on in the
list for more than some rounds.
-/

/-- The servers, with `irc_servers` and `last_irc_server`. -/
structure IrcServerList (Server : Type) where
  memory : Heap Server
  ends : ListEnds

section

variable {Server : Type} (name : Server → Str) (rounds : Nat)

/-- `ptr_server2` is extracted from the list and inserted before `ptr_server`. -/
def ircServerMoveBefore (servers : IrcServerList Server) (ptrServer ptrServer2 : Addr) :
    Option (IrcServerList Server) := do
  let server2 ← servers.memory ptrServer2
  -- extract server from list
  let ircServers := if servers.ends.first = some ptrServer2 then server2.next else servers.ends.first
  let lastIrcServer := if servers.ends.last = some ptrServer2 then server2.prev else servers.ends.last
  let memory := servers.memory.setNext server2.prev server2.next
  let memory := memory.setPrev server2.next server2.prev
  -- set pointers in ptr_server2
  let server ← memory ptrServer
  let memory := memory.setPrev (some ptrServer2) server.prev
  let memory := memory.setNext (some ptrServer2) (some ptrServer)
  -- insert ptr_server2 before ptr_server
  let memory := memory.setNext server.prev (some ptrServer2)
  let memory := memory.setPrev (some ptrServer) (some ptrServer2)
  some ⟨memory, ⟨if ircServers = some ptrServer then some ptrServer2 else ircServers, lastIrcServer⟩⟩

/-- The loop of `irc_server_reorder` on the names that are left. -/
def ircServerReorderLoop : List Str → Option Addr → IrcServerList Server → Int → Option (IrcServerList Server × Int)
  | [], _, servers, numMoved => some (servers, numMoved)
  | _ :: _, none, servers, numMoved => some (servers, numMoved)
  | string :: strings, some ptrServer, servers, numMoved => do
    let ptrServer2 ← servers.memory.find (fun server => name server = string) rounds (some ptrServer)
    if ptrServer2 = some ptrServer then
      let server ← servers.memory ptrServer
      ircServerReorderLoop strings server.next servers numMoved
    else
      match ptrServer2 with
      | some ptrServer2 =>
        let servers ← ircServerMoveBefore servers ptrServer ptrServer2
        ircServerReorderLoop strings (some ptrServer) servers (numMoved + 1)
      | none => ircServerReorderLoop strings (some ptrServer) servers numMoved

/-- `irc_server_reorder`, with the number of servers moved. -/
def ircServerReorder (servers : IrcServerList Server) (strings : List Str) : Option (IrcServerList Server × Int) :=
  ircServerReorderLoop name rounds strings servers.ends.first servers 0

end

/-!
## Features of the server (`plugins/irc/irc-protocol.c`, `irc-server.c`)

The features of message 005 that are kept in fields of the server, and the copy of
all of them in `isupport`, where others are looked up. Strings are shorter than
2³¹ bytes, and memory is always allocated. What the message displays is left out.
-/

/-- The fields of `t_irc_server` that message 005 sets. -/
structure IrcServerIsupport where
  modes : IrcServerModes
  nickMaxLength : Int
  chantypes : Option Str
  monitor : Int
  isupport : Option Str
  deriving DecidableEq

/-- A number is kept if it is positive and the whole value. -/
def isupportNumber (value : Str) (old : Int) : Int :=
  let (number, error) := strtol value
  if error = [] ∧ number > 0 then toInt number else old

/-- `server->isupport` with the message, up to its last argument if that begins with a colon. -/
def isupportConcat (isupport : Option Str) (text : Str) : Str :=
  let length := match strstr text (lit " :") with
    | some pos => off text pos
    | none => text.length
  isupport.getD [] ++ ch ' ' :: text.take length

/-- `irc_protocol_cb_005`, on `argv_eol[3]`. -/
def ircProtocolCb005Full (server : IrcServerIsupport) (text : Str) : IrcServerIsupport where
  modes := ircProtocolCb005 server.modes text
  nickMaxLength := match isupportValue text (lit "NICKLEN=") with
    | some value => isupportNumber value server.nickMaxLength
    | none => server.nickMaxLength
  chantypes := match isupportValue text (lit "CHANTYPES=") with
    | some value => some value
    | none => server.chantypes
  monitor := match isupportValue text (lit "MONITOR=") with
    | some value => isupportNumber value server.monitor
    | none => server.monitor
  isupport := some (isupportConcat server.isupport text)

/-- What `irc_server_get_isupport_value` copies to its buffer of 256 bytes, of the feature at
`posFeature`: `none` if it reads bytes after the final `\0`. -/
def isupportCopyValue (posFeature : Str) : Option Str := do
  let posEqual ← strchr posFeature (ch '=')
  let length := match strchr posFeature (ch ' ') with
    | some posSpace => off posFeature posSpace - off posFeature posEqual - 1
    | none => posEqual.length + 1
  let length := if length > 255 then 255 else length
  if length ≤ posEqual.tail.length + 1 then some (posEqual.tail.take length) else none

/-- `irc_server_get_isupport_value`; `none` is a read after the final `\0`, `some none` is NULL. -/
def ircServerGetIsupportValue (isupport : Option Str) (feature : Str) : Option (Option Str) :=
  match isupport with
  | none => some none
  | some isupport =>
    -- search feature with value
    let feature2 := snprintf 64 (lit " " ++ feature ++ lit "=")
    match strstr isupport feature2 with
    | some posFeature => (isupportCopyValue posFeature.tail).map some
    | none =>
      -- search feature without value
      let feature2 := feature2.dropLast ++ lit " "
      match strstr isupport feature2 with
      | some _ => some (some [])
      | none => some none

/-!
## The nick of a server (`plugins/irc/irc-server.c`)

The nicks that are tried until one is free. The local variables of the buffers and
what is sent are left out.
-/

/-- The nicks of a server, the state of the search of a free one, and the option
"nicks_alternate". -/
structure IrcServerNicks where
  nicksArray : List Str
  nick : Option Str
  nickFirstTried : Int
  nickAlternateNumber : Int
  nicksAlternate : Bool
  deriving DecidableEq

/-- `irc_server_set_nick`. -/
def ircServerSetNick (server : IrcServerNicks) (nick : Option Str) : IrcServerNicks := { server with nick := nick }

/-- `irc_server_get_nick_index`. -/
def ircServerGetNickIndex (server : IrcServerNicks) : Int :=
  match server.nick.bind server.nicksArray.idxOf? with
  | some i => i
  | none => -1

/-- The nick that `irc_server_login` sends. -/
def ircServerLoginNick (server : IrcServerNicks) : IrcServerNicks :=
  let server :=
    if server.nick = none then
      { ircServerSetNick server (some (server.nicksArray.headD (lit "weechat"))) with nickFirstTried := 0 }
    else { server with nickFirstTried := ircServerGetNickIndex server }
  { server with nickAlternateNumber := -1 }

/-- The end of `irc_server_get_alternate_nick`, with `nick` in the static buffer. -/
def ircServerBuildNick (server : IrcServerNicks) (nick : Str) : Option Str × IrcServerNicks :=
  -- if length is < 9, just add a "_"
  if nick.length < 9 then (some (nick ++ lit "_"), server)
  else
    let server := { server with nickAlternateNumber := server.nickAlternateNumber + 1 }
    -- number is max 99
    if server.nickAlternateNumber > 99 then (none, server)
    else
      -- be sure the nick has 9 chars max
      let nick := nick.take 9
      let strNumber := fmtNat server.nickAlternateNumber.toNat
      if strNumber.length > nick.length then (none, server)
      else (some (nick.take (nick.length - strNumber.length) ++ strNumber), server)

/-- `irc_server_get_alternate_nick`. -/
def ircServerGetAlternateNick (server : IrcServerNicks) : Option Str × IrcServerNicks :=
  -- we are still trying nicks from option "nicks"
  if server.nickAlternateNumber < 0 then
    let nickIndex := ircServerGetNickIndex server
    let (nickIndex, server) :=
      if nickIndex < 0 then (0, server)
      else
        let nickIndex := (nickIndex + 1).tmod server.nicksArray.length
        -- stop loop if first nick tried was not in the list of nicks
        (nickIndex, if nickIndex = 0 ∧ server.nickFirstTried < 0 then { server with nickFirstTried := 0 } else server)
    if nickIndex ≠ server.nickFirstTried then (some (snprintf 64 (server.nicksArray.getD nickIndex.toNat [])), server)
    -- now we have tried all nicks in list
    else if server.nicksAlternate then
      ircServerBuildNick { server with nickAlternateNumber := 0 } (snprintf 64 (server.nicksArray.getD 0 []))
    else (none, server)
  else ircServerBuildNick server (snprintf 64 (server.nick.getD []))

/-- What messages 432, 433 and 437 do before the connection: another nick is set, or
the server is disconnected. -/
def ircServerNickRejected (server : IrcServerNicks) : Option (Str × IrcServerNicks) :=
  match ircServerGetAlternateNick server with
  | (some nick, server) => some (nick, ircServerSetNick server (some nick))
  | (none, _) => none

end Wirc

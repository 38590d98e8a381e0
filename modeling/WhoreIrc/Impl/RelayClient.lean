import WhoreIrc.Impl.RelayWebsocket
import WhoreIrc.Impl.StringSplit

/-!
# What is received from a relay client (`plugins/relay/relay-client.c`)

A client with a websocket has done its handshake (`websocket == 2`). What it
causes is kept as a list of events: the lines that are given to the relay
protocol, and the answers that are sent. The messages on buffers are left out,
and the answers do not fail.
-/

namespace Wirc

inductive RelayEvent
  | line (line : Str)
  | pong (data : Str)
  | close (data : Str)
  deriving DecidableEq

structure RelayClient where
  /-- `status == RELAY_STATUS_CONNECTED`. -/
  connected : Bool
  websocket : Bool
  partialMessage : Option Str
  events : List RelayEvent
  deriving DecidableEq

/-- A line without its final `\r`. -/
def removeFinalCr (line : Str) : Str := if line.getLast? = some (ch '\r') then line.dropLast else line

section

-- whether the client is still connected when its protocol has interpreted a line, after some events
variable (protocolRecv : List RelayEvent → Str → Bool)

/-- `relay_weechat_recv` or `relay_irc_recv`. -/
def relayProtocolRecv (client : RelayClient) (line : Str) : RelayClient :=
  { client with
    connected := client.connected && protocolRecv client.events line
    events := client.events ++ [.line line] }

/-- `relay_client_recv_text`. -/
def relayClientRecvText (client : RelayClient) (data : Str) : RelayClient :=
  let partialMessage := client.partialMessage.getD [] ++ data
  match strrchr partialMessage (ch '\n') with
  | some pos =>
    let text := strndup partialMessage (off partialMessage pos)
    let lines := (stringSplit text (lit "\n") none ⟨true, true, true, false⟩ 0).getD []
    let client := lines.foldl (fun client line => relayProtocolRecv protocolRecv client (removeFinalCr line)) client
    { client with partialMessage := if pos.tail = [] then none else some pos.tail }
  | none => { client with partialMessage := some partialMessage }

end

/-!
## What is sent to a relay client (`plugins/relay/relay-client.c`)

What cannot be sent now is kept in a queue, that a timer sends later. The bytes
that the socket accepts and the messages printed on the raw buffer are kept in
lists; `send` and `gnutls_record_send` give the same results, and allocations
do not fail.
-/

/-- The result of a write on the socket: at most some bytes are sent, the socket
would block (`EAGAIN`, `GNUTLS_E_AGAIN`…), or there is another error. -/
inductive SocketWrite
  | sent (n : Nat)
  | wouldBlock
  | error
  deriving DecidableEq

/-- A message for the raw buffer, with `RELAY_RAW_FLAG_SEND`. -/
structure RelayRaw where
  msgType : Byte
  /-- `RELAY_RAW_FLAG_BINARY`. -/
  binary : Bool
  message : List Byte
  size : Int
  deriving DecidableEq

/-- `struct t_relay_client_outqueue`, with the raw messages that are not NULL. -/
structure RelayOutqueue where
  data : List Byte
  raws : List RelayRaw
  deriving DecidableEq

structure RelayOut where
  /-- `sock >= 0`. -/
  connected : Bool
  outqueue : List RelayOutqueue
  /-- The bytes accepted by the socket. -/
  written : List Byte
  printed : List RelayRaw
  /-- The number of writes on the socket. -/
  writes : Nat
  deriving DecidableEq

/-- A call of `relay_client_send`: what it reads in the client and the plugin,
and its arguments. -/
structure RelayMessage where
  websocket : Nat
  /-- `send_data_type == RELAY_CLIENT_DATA_TEXT`. -/
  textData : Bool
  debug : Int
  msgType : Byte
  data : List Byte
  messageRawBuffer : Option Str

/-- The messages for the raw buffer. -/
def RelayMessage.raws (call : RelayMessage) : List RelayRaw :=
  let dataSize : Int := call.data.length
  match call.messageRawBuffer with
  | some message =>
    let raw : RelayRaw := ⟨call.msgType, false, message, toInt (message.length + 1)⟩
    if 2 ≤ call.debug then
      [raw, ⟨call.msgType, true, call.data, if call.websocket = 1 ∨ call.textData then dataSize - 1 else dataSize⟩]
    else [raw]
  | none =>
    if call.msgType = relayClientMsgPing ∨ call.msgType = relayClientMsgPong ∨ call.msgType = relayClientMsgClose ∨
        (call.websocket ≠ 1 ∧ ¬call.textData) then
      [⟨call.msgType, true, call.data, dataSize⟩]
    else
      -- count the final zero in size
      [⟨call.msgType, false, call.data, toInt (dataSize + 1)⟩]

def RelayMessage.opcode (call : RelayMessage) : Byte :=
  if call.msgType = relayClientMsgPing then websocketFrameOpcodePing
  else if call.msgType = relayClientMsgPong then websocketFrameOpcodePong
  else if call.msgType = relayClientMsgClose then websocketFrameOpcodeClose
  else if call.textData then websocketFrameOpcodeText
  else websocketFrameOpcodeBinary

/-- `ptr_data`: the data, in a frame if the websocket is initialized. -/
def RelayMessage.framed (call : RelayMessage) : List Byte :=
  if call.websocket = 2 then relayWebsocketEncodeFrame call.opcode call.data else call.data

/-- `relay_client_outqueue_add`. -/
def relayClientOutqueueAdd (client : RelayOut) (data : List Byte) (dataSize : Int) (raws : List RelayRaw) : RelayOut :=
  if dataSize ≤ 0 then client
  else
    { client with
      outqueue := client.outqueue ++ [⟨data.take dataSize.toNat, raws.filter fun raw => 0 < raw.size⟩] }

/-- `relay_client_set_status`, with `RELAY_STATUS_DISCONNECTED`. -/
def relayClientSetDisconnected (client : RelayOut) : RelayOut := { client with connected := false, outqueue := [] }

/-- What the socket accepts in a write, and the raw messages that are printed. -/
def RelayOut.write (client : RelayOut) (data : List Byte) (raws : List RelayRaw) : RelayOut :=
  { client with
    written := client.written ++ data
    printed := client.printed ++ raws
    writes := client.writes + 1 }

section

variable (socket : Nat → SocketWrite)

/-- `relay_client_send`: the number of bytes sent; `none` if the size given to
`send` is negative, which is read as a size out of the data. -/
def relayClientSend (client : RelayOut) (call : RelayMessage) : Option (Int × RelayOut) :=
  if ¬client.connected then some (-1, client)
  else
    let dataSize := toInt call.framed.length
    if client.outqueue ≠ [] then
      some (-1, relayClientOutqueueAdd client call.framed dataSize call.raws)
    else if dataSize < 0 then none
    else
      match socket client.writes with
      | .sent n =>
        let numSent := min n dataSize.toNat
        let client := client.write (call.framed.take numSent) call.raws
        if numSent < dataSize then
          some (numSent, relayClientOutqueueAdd client (call.framed.drop numSent) (dataSize - numSent) [])
        else some (numSent, client)
      | .wouldBlock => some (-1, relayClientOutqueueAdd (client.write [] []) call.framed dataSize call.raws)
      | .error => some (-1, relayClientSetDisconnected (client.write [] []))

/-- The loop `while (ptr_client->outqueue)`, on the messages that are left. -/
def relayClientSendOutqueue (client : RelayOut) : List RelayOutqueue → RelayOut
  | [] => { client with outqueue := [] }
  | message :: outqueue =>
    match socket client.writes with
    | .sent n =>
      let numSent := min n message.data.length
      let client := client.write (message.data.take numSent) message.raws
      if numSent = message.data.length then relayClientSendOutqueue client outqueue
      else { client with outqueue := ⟨message.data.drop numSent, []⟩ :: outqueue }
    | .wouldBlock => { client.write [] [] with outqueue := message :: outqueue }
    | .error => relayClientSetDisconnected (client.write [] [])

/-- `relay_client_timer_cb`, for one client. -/
def relayClientTimerCb (client : RelayOut) : RelayOut :=
  if client.connected then relayClientSendOutqueue socket client client.outqueue else client

end

end Wirc

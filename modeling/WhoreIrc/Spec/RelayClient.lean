import WhoreIrc.Impl.RelayClient
import WhoreIrc.Impl.RelayWeechat
import WhoreIrc.Spec.RelayWebsocket
import WhoreIrc.Spec.SplitText

/-!
# What a relay client sends and is sent

The lines of a stream of text, wherever it is cut; frames of a websocket, that
reads may cut or not; and the messages that are sent to the client, at once or
later.
-/

namespace Wirc

open Framework

/-! ## Text -/

/-- The lines that are not empty, each without its final `\r`. -/
def relayLines (stream : Str) : List Str := ((lines isLf stream).filter fun line => !line.isEmpty).map removeFinalCr

/-- The part of a line at the end of the stream. -/
def relayPartial (stream : Str) : Option Str := if tail isLf stream = [] then none else some (tail isLf stream)

/-! ## Frames -/

section

variable (protocolRecv : List RelayEvent → Str → Bool)

end

/-! ## Messages that are sent -/

inductive RelayCall
  | send (call : RelayMessage)
  | timer

/-- What the call asks to send. -/
def RelayCall.framed : RelayCall → List Byte
  | .send call => call.framed
  | .timer => []

def RelayCall.raws : RelayCall → List RelayRaw
  | .send call => call.raws
  | .timer => []

/-- The data of a message is not empty, and its frame has a size that is an `int`. -/
def RelayCall.Fits : RelayCall → Prop
  | .send call => call.data ≠ [] ∧ call.framed.length ≤ 2147483647
  | .timer => True

/-- A call, with the results of the writes on the socket. -/
def relayCall (socket : Nat → SocketWrite) (client : RelayOut) : RelayCall → Option RelayOut
  | .send call => (relayClientSend socket client call).map Prod.snd
  | .timer => some (relayClientTimerCb socket client)

/-- The bytes accepted by the socket, and then those in the queue. -/
def RelayOut.bytes (client : RelayOut) : List Byte := client.written ++ client.outqueue.flatMap RelayOutqueue.data

/-- The raw messages that are printed, and then those in the queue. -/
def RelayOut.traces (client : RelayOut) : List RelayRaw :=
  client.printed ++ client.outqueue.flatMap RelayOutqueue.raws

/-! ## A client before its authentication -/

/-- The option is evaluated, and not empty. -/
def ConfiguredOption (option : Option Str) : Prop := ∃ s, option = some s ∧ s ≠ []

/-- At this step the callback of `init` runs, and then both flags are set. -/
structure AuthenticatedAt (client : RelayWeechatClient) (op : RelayCore × RelayWeechatOp) : Prop where
  init : ∃ acts, (RelayWeechatOp.run client op).acts = client.acts ++ .callback (lit "init") :: acts
  passwordOk : (RelayWeechatOp.run client op).data.passwordOk = true
  totpOk : (RelayWeechatOp.run client op).data.totpOk = true

/-- No callback but `init` has run, no message was sent and no buffer is
synchronized. -/
structure NothingHappened (client : RelayWeechatClient) : Prop where
  callbacks : ∀ name, .callback name ∈ client.acts → name = lit "init"
  messages : ∀ id body, .msgSend id body ∉ client.acts
  buffersSync : client.buffersSync = []

/-!
## The synchronization of a client

The commands `sync` and `desync` of a client (`SyncCommand`), the flags of the
entry of a name (`ownFlags`), and what a command on buffers does to the flags
that are synchronized for them and for the others (`SyncDone`, `DesyncDone`).
-/

/-- A command that changes what is synchronized. -/
inductive SyncCommand
  | sync (args : RelayArgs)
  | desync (args : RelayArgs)

/-- A command, with what its callback reads of the core then. -/
def SyncCommand.run (client : RelayWeechatClient) : RelayCore × SyncCommand → RelayWeechatClient
  | (core, .sync args) => relayWeechatProtocolCbSync core client args
  | (core, .desync args) => relayWeechatProtocolCbDesync core client args

/-- The flags of the entry of a name, none without an entry. -/
def ownFlags (client : RelayWeechatClient) (name : Str) : UInt32 := (client.buffersSync.lookup name).getD 0

/-- The flags that a command gives to, or takes from, a single buffer. -/
def singleFlags (args : RelayArgs) : UInt32 := relaySyncFlags args &&& syncForBuffer

/-- A buffer of that name is in the list of the command. -/
def NamesBuffer (core : RelayCore) (args : RelayArgs) (name : Str) : Prop :=
  ∃ arg ∈ relaySyncBuffers args, (relayWeechatProtocolGetBuffer core arg).bind (bufferFullName core) = some name

/-- A command on single buffers: `*` is not in its list, and is the name of no
buffer. -/
structure OnBuffers (core : RelayCore) (args : RelayArgs) : Prop where
  list : lit "*" ∉ relaySyncBuffers args
  names : ∀ buffer, bufferFullName core buffer ≠ some (lit "*")

/-- A buffer whose name the command does not have. -/
def OtherBuffer (core : RelayCore) (args : RelayArgs) (buffer : Addr) : Prop :=
  ∀ name, bufferFullName core buffer = some name → ¬ NamesBuffer core args name

/-- After `sync`, its flags are synchronized for its buffers, and nothing else
changes but for a buffer that gets its first flags: the flags of `*` are not its
own any more. -/
structure SyncDone (core : RelayCore) (args : RelayArgs) (before after : RelayWeechatClient) : Prop where
  flag : ∀ {buffer name f}, bufferFullName core buffer = some name → NamesBuffer core args name →
    f ≠ 0 → f &&& singleFlags args = f → relayWeechatProtocolIsSync core after (some buffer) f = true
  otherFlag : ∀ {buffer name f}, bufferFullName core buffer = some name → NamesBuffer core args name →
    singleFlags args &&& f = 0 → relayWeechatProtocolIsSync core after (some buffer) f =
      if ownFlags before name = 0 ∧ singleFlags args ≠ 0 then false
      else relayWeechatProtocolIsSync core before (some buffer) f
  otherBuffer : ∀ {buffer}, OtherBuffer core args buffer → ∀ f,
    relayWeechatProtocolIsSync core after (some buffer) f = relayWeechatProtocolIsSync core before (some buffer) f
  star : ∀ f, relayWeechatProtocolIsSync core after none f = relayWeechatProtocolIsSync core before none f

/-- After `desync`, its flags are not synchronized for its buffers, and nothing
else changes but for a buffer that loses its last flag: the flags of `*` are its
own then. -/
structure DesyncDone (core : RelayCore) (args : RelayArgs) (before after : RelayWeechatClient) : Prop where
  flag : ∀ {buffer name f}, bufferFullName core buffer = some name → NamesBuffer core args name →
    f &&& singleFlags args = f → relayWeechatProtocolIsSync core after (some buffer) f =
      if ownFlags before name &&& ~~~singleFlags args = 0 then relayWeechatProtocolIsSync core before none f
      else false
  otherFlag : ∀ {buffer name f}, bufferFullName core buffer = some name → NamesBuffer core args name →
    singleFlags args &&& f = 0 → relayWeechatProtocolIsSync core after (some buffer) f =
      if ownFlags before name &&& ~~~singleFlags args = 0 then relayWeechatProtocolIsSync core before none f
      else relayWeechatProtocolIsSync core before (some buffer) f
  otherBuffer : ∀ {buffer}, OtherBuffer core args buffer → ∀ f,
    relayWeechatProtocolIsSync core after (some buffer) f = relayWeechatProtocolIsSync core before (some buffer) f
  star : ∀ f, relayWeechatProtocolIsSync core after none f = relayWeechatProtocolIsSync core before none f

end Wirc

import WhoreIrc.Framework.Linked
import WhoreIrc.Impl.CString
import WhoreIrc.Impl.SecureTotp
import WhoreIrc.Impl.StringSplit
import WhoreIrc.Impl.Utf8

/-!
# A client with the weechat protocol (`plugins/relay/weechat/`)

`relay-weechat.c` (creation of a client, hooks) and `relay-weechat-protocol.c`
(commands received, signals). A message is given by its id and what its body
is asked from (hdata, infos, nicklist), and the hashtables of a client are
lists of keys and values. Memory is never short; debug is off.
-/

namespace Wirc

open Framework

/-!
## Nicklist diffs of a relay client (`plugins/relay/weechat/relay-weechat-nicklist.c`)

What hdata gives of a group or a nick is a parameter; memory is never short.
-/

/-- The variables of a `nick_group` or a `nick` that an item keeps (a group has
no prefix). -/
structure NickHdata where
  visible : Bool
  level : Int
  name : Option Str
  color : Option Str
  prefix_ : Option Str
  prefixColor : Option Str

/-- The nicklist as hdata gives it. -/
structure NicklistHdata where
  group : Addr → NickHdata
  nick : Addr → NickHdata

/-- `RELAY_WHOREIRC_NICKLIST_DIFF_*`. -/
inductive NicklistDiff
  | unknown | parent | added | removed | changed
  deriving DecidableEq

structure RelayWeechatNicklistItem where
  pointer : Option Addr
  diff : NicklistDiff
  group : Bool
  visible : Bool
  level : Int
  name : Option Str
  color : Option Str
  prefix_ : Option Str
  prefixColor : Option Str

/-- `items_count` is the length of the items. -/
structure RelayWeechatNicklist where
  nicklistCount : Int
  items : List RelayWeechatNicklistItem

/-- `relay_weechat_nicklist_new`. -/
def relayWeechatNicklistNew : RelayWeechatNicklist := ⟨0, []⟩

/-- The last parent group of the items. -/
def RelayWeechatNicklist.lastParent (nicklist : RelayWeechatNicklist) : Option RelayWeechatNicklistItem :=
  nicklist.items.findRev? fun item => item.diff = .parent

/-- `relay_weechat_nicklist_add_item`: a NULL pointer gives hdata without
values. -/
def relayWeechatNicklistAddItem (hdata : NicklistHdata) (nicklist : RelayWeechatNicklist) (diff : NicklistDiff)
    (group nick : Option Addr) : RelayWeechatNicklist :=
  -- a parent group that is the last one is not added again
  if diff = .parent ∧ nicklist.lastParent.any fun item => item.pointer = group then nicklist
  else
    let values := match group, nick with
      | some group, _ => hdata.group group
      | none, some nick => hdata.nick nick
      | none, none => ⟨false, 0, none, none, none, none⟩
    let item : RelayWeechatNicklistItem := {
      pointer := group.or nick
      diff
      group := group.isSome
      visible := values.visible
      level := if group.isSome then values.level else 0
      name := values.name
      color := values.color
      prefix_ := values.prefix_
      prefixColor := values.prefixColor }
    { nicklist with items := nicklist.items ++ [item] }

/-!
## Authentication of a relay client (`plugins/relay/weechat/relay-weechat-protocol.c`)

The command `init`. The password and the secret are what the evaluation of the
two options gives.
-/

def relayWeechatCompressionString : List Str := [lit "off", lit "zlib"]

/-- `relay_weechat_compression_search`. -/
def relayWeechatCompressionSearch (compression : Str) : Int :=
  match relayWeechatCompressionString.findIdx? fun s => stringStrcasecmp s compression = 0 with
  | some i => i
  | none => -1

/-- What the server knows: the evaluated options, the time and the hash. -/
structure RelayServer where
  password : Option Str
  totpSecret : Option Str
  totpWindow : Nat
  now : Nat
  hmac : Hmac

/-- The data of a client that `init` reads and changes. -/
structure RelayWeechatData where
  passwordOk : Bool
  totpOk : Bool
  compression : Int

/-- `"%s,%s,0,%d"` (the buffer is large enough for any `int`). -/
def relayInfoTotpArgs (totpSecret pos : Str) (totpWindow : Nat) : Str :=
  totpSecret ++ lit "," ++ pos ++ lit ",0," ++ fmtNat totpWindow

/-- One option of the command. -/
def relayInitOption (server : RelayServer) (client : RelayWeechatData) (option : Str) : RelayWeechatData :=
  match strchr option (ch '=') with
  | none => client
  | some ptr =>
    let name := strndup option (off option ptr)
    let pos := ptr.tail
    if name = lit "password" then
      match server.password with
      | none => client
      | some password => if strcmp password pos = 0 then { client with passwordOk := true } else client
    else if name = lit "totp" then
      match server.totpSecret with
      | none => client
      | some totpSecret =>
        -- validate the OTP received from the client
        let infoTotp := pluginApiInfoTotpValidateCb server.hmac server.now
          (relayInfoTotpArgs totpSecret pos server.totpWindow)
        if infoTotp = some (lit "1") then { client with totpOk := true } else client
    else if name = lit "compression" then
      let compression := relayWeechatCompressionSearch pos
      if compression ≥ 0 then { client with compression } else client
    else client

/-- The options of the command. -/
def relayInitOptions (argvEol0 : Str) : List Str := (stringSplitCommand argvEol0 (ch ',')).getD []

/-- The command `init`: the data of the client, and whether it is
authenticated. -/
def relayWeechatProtocolInit (server : RelayServer) (client : RelayWeechatData) (argvEol0 : Str) :
    RelayWeechatData × Bool :=
  let client := (relayInitOptions argvEol0).foldl (relayInitOption server) client
  (client, client.passwordOk && client.totpOk)

/-! ## Data -/

/-- A buffer of the list of buffers. -/
structure RelayBuffer where
  buffer : Addr
  fullName : Option Str
  nicklistCount : Int

/-- What the callbacks read of the core. -/
structure RelayCore where
  guiBuffers : List RelayBuffer
  currentBuffer : Addr
  relayRawBuffer : Option Addr
  relayBuffer : Option Addr
  nicklist : NicklistHdata

/-- What a message is built from. -/
inductive RelayWeechatBody
  | hdata (path : Str) (keys : Option Str)
  | info (name : Str) (arguments : Option Str)
  | infolist (name : Str) (pointer : Nat) (arguments : Option Str)
  | nicklist (buffer : Option Addr) (nicklist : Option RelayWeechatNicklist)
  | test
  | string (s : Str)
  | empty

/-- What the functions of the protocol do: the callback of a command runs,
`relay_weechat_msg_send` sends a message. -/
inductive RelayAct
  | callback (name : Str)
  | msgSend (id : Option Str) (body : RelayWeechatBody)

/-- `t_relay_status`. -/
inductive RelayStatus
  | connecting | waitingAuth | connected | authFailed | disconnected
  deriving DecidableEq

/-- A client, and what has been done for it. -/
structure RelayWeechatClient where
  status : RelayStatus
  data : RelayWeechatData
  buffersSync : List (Str × UInt32)
  hookSignalBuffer : Bool
  hookHsignalNicklist : Bool
  hookSignalUpgrade : Bool
  buffersNicklist : List (Addr × RelayWeechatNicklist)
  hookTimerNicklist : Bool
  acts : List RelayAct

/-! ## Creation and end of a client -/

/-- `RELAY_CLIENT_HAS_ENDED`. -/
def relayClientHasEnded (status : RelayStatus) : Bool := status = .authFailed || status = .disconnected

/-- `relay_weechat_hook_signals`. -/
def relayWeechatHookSignals (client : RelayWeechatClient) : RelayWeechatClient :=
  { client with hookSignalBuffer := true, hookHsignalNicklist := true, hookSignalUpgrade := true }

/-- `relay_weechat_unhook_signals`. -/
def relayWeechatUnhookSignals (client : RelayWeechatClient) : RelayWeechatClient :=
  { client with hookSignalBuffer := false, hookHsignalNicklist := false, hookSignalUpgrade := false }

/-- `(string && string[0]) ? 0 : 1`. -/
def relayEmptyOption (string : Option Str) : Bool :=
  match string with
  | none => true
  | some s => s = []

/-- `relay_weechat_alloc`, for a client with that status. -/
def relayWeechatAlloc (server : RelayServer) (status : RelayStatus) : RelayWeechatClient :=
  relayWeechatHookSignals {
    status
    data := {
      passwordOk := relayEmptyOption server.password
      totpOk := relayEmptyOption server.totpSecret
      compression := 1 }
    buffersSync := []
    hookSignalBuffer := false
    hookHsignalNicklist := false
    hookSignalUpgrade := false
    buffersNicklist := []
    hookTimerNicklist := false
    acts := [] }

/-- `relay_client_set_status`. -/
def relayClientSetStatus (client : RelayWeechatClient) (status : RelayStatus) : RelayWeechatClient :=
  let client := { client with status }
  if relayClientHasEnded status then relayWeechatUnhookSignals client else client

/-- `relay_weechat_msg_send`. -/
def relayWeechatMsgSend (client : RelayWeechatClient) (id : Option Str) (body : RelayWeechatBody) :
    RelayWeechatClient :=
  { client with acts := client.acts ++ [.msgSend id body] }

/-! ## Buffers and flags -/

/-- `sscanf (s, "%lx", &value)`, or 0 where nothing is read. -/
def scanLx (s : Str) : Nat :=
  let s := s.dropWhile isspace
  let negative := s.head? = some (ch '-')
  let s := if negative ∨ s.head? = some (ch '+') then s.tail else s
  let s := if startsWith s (lit "0x") || startsWith s (lit "0X") then s.drop 2 else s
  let value := (s.takeWhile isxdigit).foldl (fun acc c => 16 * acc + xdigitVal c) 0
  if value ≥ UInt64.size then UInt64.size - 1
  else if negative then (UInt64.size - value) % UInt64.size else value

/-- `weechat_buffer_get_string (buffer, "full_name")`. -/
def bufferFullName (core : RelayCore) (buffer : Addr) : Option Str :=
  (core.guiBuffers.find? fun b => b.buffer = buffer).bind (·.fullName)

/-- `weechat_buffer_get_integer (buffer, "nicklist_count")`. -/
def bufferNicklistCount (core : RelayCore) (buffer : Option Addr) : Int :=
  match core.guiBuffers.find? fun b => some b.buffer = buffer with
  | some b => b.nicklistCount
  | none => 0

/-- `hdata_check_pointer` in the list of buffers. -/
def bufferValid (core : RelayCore) (buffer : Addr) : Bool := core.guiBuffers.any fun b => b.buffer = buffer

/-- `gui_buffer_search_by_full_name`. -/
def guiBufferSearchByFullName (core : RelayCore) (fullName : Str) : Option Addr :=
  let insensitive := startsWith fullName (lit "(?i)")
  let fullName := if insensitive then fullName.drop 4 else fullName
  let found := core.guiBuffers.find? fun b => b.fullName.any fun name =>
    if insensitive then stringStrcasecmp name fullName = 0 else name = fullName
  found.map (·.buffer)

/-- `weechat_buffer_search ("==", name)`. -/
def guiBufferSearchByName (core : RelayCore) (name : Str) : Option Addr :=
  if name = [] then some core.currentBuffer else guiBufferSearchByFullName core name

/-- `relay_weechat_protocol_get_buffer`. -/
def relayWeechatProtocolGetBuffer (core : RelayCore) (arg : Str) : Option Addr :=
  if startsWith arg (lit "0x") then
    let value := scanLx arg
    if value ≠ 0 ∧ bufferValid core value then some value else none
  else guiBufferSearchByName core arg

/-- `relay_weechat_is_relay_buffer`. -/
def relayWeechatIsRelayBuffer (core : RelayCore) (buffer : Addr) : Bool :=
  core.relayRawBuffer = some buffer || core.relayBuffer = some buffer

def syncBuffer : UInt32 := 1
def syncNicklist : UInt32 := 2
def syncBuffers : UInt32 := 4
def syncUpgrade : UInt32 := 8
def syncAll : UInt32 := syncBuffer ||| syncNicklist ||| syncBuffers ||| syncUpgrade
def syncForBuffer : UInt32 := syncBuffer ||| syncNicklist

/-- `relay_weechat_protocol_sync_flag`. -/
def relayWeechatProtocolSyncFlag (flag : Str) : UInt32 :=
  if flag = lit "buffer" then syncBuffer
  else if flag = lit "nicklist" then syncNicklist
  else if flag = lit "buffers" then syncBuffers
  else if flag = lit "upgrade" then syncUpgrade
  else 0

/-- `weechat_hashtable_set`. -/
def tableSet {K V : Type} [DecidableEq K] (table : List (K × V)) (key : K) (value : V) : List (K × V) :=
  if (table.lookup key).isSome then table.map fun item => if item.1 = key then (key, value) else item
  else table ++ [(key, value)]

/-- `weechat_hashtable_remove`. -/
def tableRemove {K V : Type} [DecidableEq K] (table : List (K × V)) (key : K) : List (K × V) :=
  table.filter fun item => item.1 ≠ key

/-- `relay_weechat_protocol_is_sync`. -/
def relayWeechatProtocolIsSync (core : RelayCore) (client : RelayWeechatClient) (buffer : Option Addr)
    (flags : UInt32) : Bool :=
  let bufferFlags := (buffer.bind (bufferFullName core)).bind fun fullName => client.buffersSync.lookup fullName
  match bufferFlags.or (client.buffersSync.lookup (lit "*")) with
  | some ptrFlags => ptrFlags &&& flags ≠ 0
  | none => false

/-! ## Commands -/

/-- The arguments of the callback of a command. -/
structure RelayArgs where
  id : Option Str
  argv : List Str
  argvEol : List Str

/-- The callback of `init`. -/
def relayWeechatProtocolCbInit (server : RelayServer) (client : RelayWeechatClient) (args : RelayArgs) :
    RelayWeechatClient :=
  if args.argv.length < 1 then client
  else
    let init := relayWeechatProtocolInit server client.data (args.argvEol.headD [])
    let client := { client with data := init.1 }
    if init.2 then client else relayClientSetStatus client .authFailed

/-- The callback of `hdata`. -/
def relayWeechatProtocolCbHdata (client : RelayWeechatClient) (args : RelayArgs) : RelayWeechatClient :=
  match args.argv with
  | [] => client
  | path :: _ => relayWeechatMsgSend client args.id (.hdata path args.argvEol[1]?)

/-- The callback of `info`. -/
def relayWeechatProtocolCbInfo (client : RelayWeechatClient) (args : RelayArgs) : RelayWeechatClient :=
  match args.argv with
  | [] => client
  | name :: _ => relayWeechatMsgSend client args.id (.info name args.argvEol[1]?)

/-- The callback of `infolist`. -/
def relayWeechatProtocolCbInfolist (client : RelayWeechatClient) (args : RelayArgs) : RelayWeechatClient :=
  match args.argv with
  | [] => client
  | [name] => relayWeechatMsgSend client args.id (.infolist name 0 none)
  | name :: pointer :: _ => relayWeechatMsgSend client args.id (.infolist name (scanLx pointer) args.argvEol[2]?)

/-- The callback of `nicklist`. -/
def relayWeechatProtocolCbNicklist (core : RelayCore) (client : RelayWeechatClient) (args : RelayArgs) :
    RelayWeechatClient :=
  match args.argv with
  | [] => relayWeechatMsgSend client args.id (.nicklist none none)
  | arg :: _ =>
    match relayWeechatProtocolGetBuffer core arg with
    | none => client
    | some buffer => relayWeechatMsgSend client args.id (.nicklist (some buffer) none)

/-- The callback of `input`: the command is executed later, on a buffer, and
changes nothing here. -/
def relayWeechatProtocolCbInput (client : RelayWeechatClient) (_args : RelayArgs) : RelayWeechatClient := client

/-- `weechat_string_split (s, ",", NULL, STRIP_LEFT | STRIP_RIGHT | COLLAPSE_SEPS, 0, &n)`. -/
def relaySplitComma (s : Str) : List Str := (stringSplit s (lit ",") none ⟨true, true, true, false⟩ 0).getD []

/-- The flags that `sync` and `desync` are given. -/
def relaySyncFlags (args : RelayArgs) : UInt32 :=
  match args.argv[1]? with
  | none => syncAll
  | some flags => (relaySplitComma flags).foldl (fun acc flag => acc ||| relayWeechatProtocolSyncFlag flag) 0

/-- The key of a buffer in the table of synchronized buffers, and the flags it
may have. -/
def relaySyncName (core : RelayCore) (buffer : Str) : Option (Str × UInt32) :=
  if buffer = lit "*" then some (buffer, syncAll)
  else
    match (relayWeechatProtocolGetBuffer core buffer).bind (bufferFullName core) with
    | some fullName => some (fullName, syncForBuffer)
    | none => none

/-- `sync` of one buffer. -/
def relaySyncAdd (core : RelayCore) (addFlags : UInt32) (buffersSync : List (Str × UInt32)) (buffer : Str) :
    List (Str × UInt32) :=
  match relaySyncName core buffer with
  | none => buffersSync
  | some (fullName, mask) =>
    let newFlags := (buffersSync.lookup fullName).getD 0 ||| (addFlags &&& mask)
    if newFlags ≠ 0 then tableSet buffersSync fullName newFlags else buffersSync

/-- `desync` of one buffer. -/
def relaySyncSub (core : RelayCore) (subFlags : UInt32) (buffersSync : List (Str × UInt32)) (buffer : Str) :
    List (Str × UInt32) :=
  match relaySyncName core buffer with
  | none => buffersSync
  | some (fullName, mask) =>
    let newFlags := (buffersSync.lookup fullName).getD 0 &&& ~~~(subFlags &&& mask)
    if newFlags ≠ 0 then tableSet buffersSync fullName newFlags else tableRemove buffersSync fullName

/-- The buffers that `sync` and `desync` are given. -/
def relaySyncBuffers (args : RelayArgs) : List Str := relaySplitComma (args.argv.headD (lit "*"))

/-- The callback of `sync`. -/
def relayWeechatProtocolCbSync (core : RelayCore) (client : RelayWeechatClient) (args : RelayArgs) :
    RelayWeechatClient :=
  let addFlags := relaySyncFlags args
  if addFlags = 0 then client
  else { client with buffersSync := (relaySyncBuffers args).foldl (relaySyncAdd core addFlags) client.buffersSync }

/-- The callback of `desync`. -/
def relayWeechatProtocolCbDesync (core : RelayCore) (client : RelayWeechatClient) (args : RelayArgs) :
    RelayWeechatClient :=
  let subFlags := relaySyncFlags args
  if subFlags = 0 then client
  else { client with buffersSync := (relaySyncBuffers args).foldl (relaySyncSub core subFlags) client.buffersSync }

/-- The callback of `test`. -/
def relayWeechatProtocolCbTest (client : RelayWeechatClient) (args : RelayArgs) : RelayWeechatClient :=
  relayWeechatMsgSend client args.id .test

/-- The callback of `ping`. -/
def relayWeechatProtocolCbPing (client : RelayWeechatClient) (args : RelayArgs) : RelayWeechatClient :=
  relayWeechatMsgSend client (some (lit "_pong")) (.string (args.argvEol.headD []))

/-- The callback of `quit`. -/
def relayWeechatProtocolCbQuit (client : RelayWeechatClient) (_args : RelayArgs) : RelayWeechatClient :=
  relayClientSetStatus client .disconnected

/-- `protocol_cb`. -/
def relayWeechatProtocolCb (server : RelayServer) (core : RelayCore) :
    List (Str × (RelayWeechatClient → RelayArgs → RelayWeechatClient)) :=
  [(lit "init", relayWeechatProtocolCbInit server),
    (lit "hdata", relayWeechatProtocolCbHdata),
    (lit "info", relayWeechatProtocolCbInfo),
    (lit "infolist", relayWeechatProtocolCbInfolist),
    (lit "nicklist", relayWeechatProtocolCbNicklist core),
    (lit "input", relayWeechatProtocolCbInput),
    (lit "sync", relayWeechatProtocolCbSync core),
    (lit "desync", relayWeechatProtocolCbDesync core),
    (lit "test", relayWeechatProtocolCbTest),
    (lit "ping", relayWeechatProtocolCbPing),
    (lit "quit", relayWeechatProtocolCbQuit)]

/-- The id at the beginning of a message, and what follows it. -/
def relayMessageId (data : Str) : Option Str × Str :=
  if data.head? = some (ch '(') then
    match strchr data (ch ')') with
    | some pos => (some (strndup data.tail (off data pos - 1)), skipSpaces pos.tail)
    | none => (none, data)
  else (none, data)

/-- The command of a message without id, and its arguments. -/
def relayMessageCommand (id : Option Str) (data : Str) : Str × RelayArgs :=
  match strchr data (ch ' ') with
  | none => (data, ⟨id, [], []⟩)
  | some pos =>
    let args := skipSpaces pos
    (strndup data (off data pos),
      { id
        argv := (stringSplit args (lit " ") none ⟨true, true, true, false⟩ 0).getD []
        argvEol := (stringSplit args (lit " ") none ⟨true, false, true, true⟩ 0).getD [] })

/-- `relay_weechat_protocol_recv`. -/
def relayWeechatProtocolRecv (server : RelayServer) (core : RelayCore) (client : RelayWeechatClient) (data : Str) :
    RelayWeechatClient :=
  if data = [] ∨ relayClientHasEnded client.status then client
  else
    let (id, data) := relayMessageId data
    let (command, args) := relayMessageCommand id data
    match (relayWeechatProtocolCb server core).find? fun cb => cb.1 = command with
    | none => client
    | some (name, cmdFunction) =>
      if name ≠ lit "init" ∧ (!client.data.passwordOk || !client.data.totpOk) then
        -- not "init" and password or totp not set: the connection is closed
        relayClientSetStatus client .authFailed
      else cmdFunction { client with acts := client.acts ++ [.callback name] } args

/-! ## Signals -/

/-- `0x%lx`. -/
def fmtLx (n : Nat) : Str := lit "0x" ++ (Nat.toDigits 16 n).map ch

/-- The data of a signal `buffer_*`: a buffer, or for `buffer_line_added` the
data of the line and its buffer. -/
structure BufferSignal where
  buffer : Option Addr
  lineData : Option Addr

/-- Sends hdata in a message if the buffer is synchronized. -/
def relaySignalHdata (core : RelayCore) (client : RelayWeechatClient) (signal : Str) (buffer : Addr) (flags : UInt32)
    (path keys : Str) : RelayWeechatClient :=
  if relayWeechatProtocolIsSync core client (some buffer) flags then
    relayWeechatMsgSend client (some ((ch '_' :: signal).take 127)) (.hdata path (some keys))
  else client

/-- The keys that a signal sends of a buffer that is synchronized with `buffers`
or `buffer`. -/
def relaySignalKeys (signal : Str) : Option Str :=
  if signal = lit "buffer_opened" then
    some (lit "number,full_name,short_name,nicklist,title,local_variables,prev_buffer,next_buffer")
  else if signal = lit "buffer_type_changed" then some (lit "number,full_name,type")
  else if signal = lit "buffer_moved" then some (lit "number,full_name,prev_buffer,next_buffer")
  else if signal = lit "buffer_merged" ∨ signal = lit "buffer_unmerged" then
    some (lit "number,full_name,prev_buffer,next_buffer")
  else if signal = lit "buffer_hidden" ∨ signal = lit "buffer_unhidden" then
    some (lit "number,full_name,prev_buffer,next_buffer")
  else if signal = lit "buffer_renamed" then some (lit "number,full_name,short_name,local_variables")
  else if signal = lit "buffer_title_changed" then some (lit "number,full_name,title")
  else if startsWith signal (lit "buffer_localvar_") then some (lit "number,full_name,local_variables")
  else none

/-- `relay_weechat_protocol_signal_buffer_cb`. -/
def relayWeechatProtocolSignalBufferCb (core : RelayCore) (client : RelayWeechatClient) (signal : Str)
    (signalData : BufferSignal) : RelayWeechatClient :=
  match signalData.buffer with
  | none => client
  | some buffer =>
    let path := lit "buffer:" ++ fmtLx buffer
    match relaySignalKeys signal with
    | some keys => relaySignalHdata core client signal buffer (syncBuffers ||| syncBuffer) path keys
    | none =>
      if signal = lit "buffer_cleared" then
        if relayWeechatIsRelayBuffer core buffer then client
        else relaySignalHdata core client signal buffer syncBuffer path (lit "number,full_name")
      else if signal = lit "buffer_line_added" then
        match signalData.lineData with
        | none => client
        | some lineData =>
          if relayWeechatIsRelayBuffer core buffer then client
          else
            relaySignalHdata core client signal buffer syncBuffer (lit "line_data:" ++ fmtLx lineData)
              (lit "buffer,date,date_printed,displayed,highlight,tags_array,prefix,message")
      else if signal = lit "buffer_closing" then
        let client := relaySignalHdata core client signal buffer (syncBuffers ||| syncBuffer) path
          (lit "number,full_name")
        -- the buffer is removed from the hashtables
        { client with
          buffersSync := match bufferFullName core buffer with
            | some fullName => tableRemove client.buffersSync fullName
            | none => client.buffersSync
          buffersNicklist := tableRemove client.buffersNicklist buffer }
      else client

/-- `relay_weechat_protocol_nicklist_map_cb`. -/
def relayWeechatProtocolNicklistMapCb (core : RelayCore) (client : RelayWeechatClient)
    (item : Addr × RelayWeechatNicklist) : RelayWeechatClient :=
  let (buffer, nicklist) := item
  if bufferValid core buffer then
    -- no diff at all, or more than the nicklist: the whole nicklist is sent
    if nicklist.items.length = 0 ∨ (nicklist.items.length : Int) ≥ bufferNicklistCount core (some buffer) + 1 then
      relayWeechatMsgSend client (some (lit "_nicklist")) (.nicklist (some buffer) none)
    else relayWeechatMsgSend client (some (lit "_nicklist_diff")) (.nicklist (some buffer) (some nicklist))
  else client

/-- `relay_weechat_protocol_timer_nicklist_cb`. -/
def relayWeechatProtocolTimerNicklistCb (core : RelayCore) (client : RelayWeechatClient) : RelayWeechatClient :=
  let client := client.buffersNicklist.foldl (relayWeechatProtocolNicklistMapCb core) client
  { client with buffersNicklist := [], hookTimerNicklist := false }

/-- The data of a signal `nicklist_*`. -/
structure NicklistSignal where
  buffer : Option Addr
  parentGroup : Option Addr
  group : Option Addr
  nick : Option Addr

/-- The diff of a signal. -/
def relayNicklistDiff (signal : Str) : NicklistDiff :=
  if signal = lit "nicklist_group_added" ∨ signal = lit "nicklist_nick_added" then .added
  else if signal = lit "nicklist_group_removing" ∨ signal = lit "nicklist_nick_removing" then .removed
  else if signal = lit "nicklist_group_changed" ∨ signal = lit "nicklist_nick_changed" then .changed
  else .unknown

/-- `relay_weechat_protocol_hsignal_nicklist_cb` (the buffer is never NULL). -/
def relayWeechatProtocolHsignalNicklistCb (core : RelayCore) (client : RelayWeechatClient) (signal : Str)
    (hashtable : NicklistSignal) : RelayWeechatClient :=
  if !relayWeechatProtocolIsSync core client hashtable.buffer syncNicklist then client
  else
    match hashtable.buffer, hashtable.parentGroup with
    | some buffer, some parentGroup =>
      let nicklist := (client.buffersNicklist.lookup buffer).getD
        { relayWeechatNicklistNew with nicklistCount := bufferNicklistCount core (some buffer) }
      let diff := relayNicklistDiff signal
      if diff = .unknown then { client with buffersNicklist := tableSet client.buffersNicklist buffer nicklist }
      else
        -- no item if the nicklist was empty or very small: it will be sent whole
        let nicklist := if nicklist.nicklistCount > 1 then
            let nicklist := relayWeechatNicklistAddItem core.nicklist nicklist .parent (some parentGroup) none
            relayWeechatNicklistAddItem core.nicklist nicklist diff hashtable.group hashtable.nick
          else nicklist
        { client with
          buffersNicklist := tableSet client.buffersNicklist buffer nicklist
          hookTimerNicklist := true }
    | _, _ => client

/-- `relay_weechat_protocol_signal_upgrade_cb`. -/
def relayWeechatProtocolSignalUpgradeCb (core : RelayCore) (client : RelayWeechatClient) (signal : Str) :
    RelayWeechatClient :=
  if (signal = lit "upgrade" ∨ signal = lit "upgrade_ended") ∧ relayWeechatProtocolIsSync core client none syncUpgrade
  then relayWeechatMsgSend client (some ((ch '_' :: signal).take 127)) .empty
  else client

/-! ## Runs -/

/-- What happens to a client: a line is received, a signal is sent by the core
(its callback runs if it is hooked), the timer fires, the status changes. -/
inductive RelayWeechatOp
  | recv (server : RelayServer) (data : Str)
  | signalBuffer (signal : Str) (signalData : BufferSignal)
  | hsignalNicklist (signal : Str) (hashtable : NicklistSignal)
  | signalUpgrade (signal : Str)
  | timerNicklist
  | setStatus (status : RelayStatus)

/-- One operation, with what the callbacks read of the core then. -/
def RelayWeechatOp.run (client : RelayWeechatClient) (op : RelayCore × RelayWeechatOp) : RelayWeechatClient :=
  match op with
  | (core, .recv server data) => relayWeechatProtocolRecv server core client data
  | (core, .signalBuffer signal signalData) =>
    if client.hookSignalBuffer then relayWeechatProtocolSignalBufferCb core client signal signalData else client
  | (core, .hsignalNicklist signal hashtable) =>
    if client.hookHsignalNicklist then relayWeechatProtocolHsignalNicklistCb core client signal hashtable else client
  | (core, .signalUpgrade signal) =>
    if client.hookSignalUpgrade then relayWeechatProtocolSignalUpgradeCb core client signal else client
  | (core, .timerNicklist) =>
    if client.hookTimerNicklist then relayWeechatProtocolTimerNicklistCb core client else client
  | (_, .setStatus status) => relayClientSetStatus client status

end Wirc

import WhoreIrc.Framework.Lines
import WhoreIrc.Impl.IrcServer
import WhoreIrc.Spec.SplitText

/-!
# What IRC servers send and are sent

The messages of a stream and what it leaves without an end, wherever the stream
is cut; the lines of a text that is sent, and the time between messages that
have a priority.
-/

namespace Wirc

open Framework

def removeCr (s : Str) : Str := s.filter (· ≠ ch '\r')

/-- The lines without any `\r`, those that are then empty left out. -/
def ircMessages (stream : Str) : List Str := ((lines isLf stream).map removeCr).filter fun line => !line.isEmpty

/-- What is after the last line feed, NULL if it is empty. -/
def ircUnterminated (stream : Str) : Option Str :=
  if removeCr (tail isLf stream) = [] then none else some (removeCr (tail isLf stream))

section

variable {Server : Type} [DecidableEq Server]

/-- A chunk that is read from a server. -/
def msgqChunk (msgq : IrcMsgq Server) (chunk : Server × Str) : IrcMsgq Server :=
  ircServerMsgqAddBuffer chunk.1 chunk.2.length msgq chunk.2

/-- The bytes that the chunks have for a server. -/
def chunksStream (chunks : List (Server × Str)) (server : Server) : Str :=
  chunks.flatMap fun chunk => if chunk.1 = server then chunk.2 else []

/-- The messages in the queue for a server. -/
def IrcMsgq.messages (msgq : IrcMsgq Server) (server : Server) : List Str :=
  (msgq.recvMsgq.filter fun message => message.1 = server).map Prod.snd

end

/-! ## Messages that are sent -/

/-- The lines of a text; the last one may have no line feed. -/
def textLines (text : Str) : List Str :=
  lines isLf text ++ if tail isLf text = [] then [] else [tail isLf text]

/-- What is sent for a line. -/
def lineBuffer (line : Str) : Str := snprintf 4096 (line ++ lit "\r\n")

section

variable (env : IrcServerEnv)

/-- The final text of a message, empty if the message is dropped. -/
def IrcServerEnv.text (msg : IrcOneMsg) : Str := (ircServerFinalText env msg).getD []

/-- Each line that is not empty is sent, or added to the queue after what is sent:
once, in order, as the whole line with `\r\n`. -/
def SentWhole (server : IrcServerOut) (msg : IrcOneMsg) : Prop :=
  ∃ (server' : IrcServerOut) (sent queued : List Str), ircServerSendOneMsg env server msg = (true, server') ∧
    server'.sent.map IrcSent.data = server.sent.map IrcSent.data ++ sent ∧
    (∀ priority : Fin 2, server'.outqueue priority =
      server.outqueue priority ++ if ircServerQueueMsg msg.flags = priority.val + 1 then queued else []) ∧
    (ircServerQueueMsg msg.flags = 0 → queued = []) ∧
    (sent ++ queued).filter (· ≠ lit "\r\n") = (runs isLf (env.text msg)).map (· ++ lit "\r\n")

/-- A call or a tick of the timer. -/
inductive IrcOutStep
  | oneMsg (msg : IrcOneMsg)
  | tick

def ircOutStep (server : IrcServerOut) : IrcOutStep → IrcServerOut
  | .oneMsg msg => (ircServerSendOneMsg env server msg).2
  | .tick => ircServerOutqueueSend env server

/-- The messages that a step has for a priority. -/
def IrcOutStep.buffers (priority : Fin 2) : IrcOutStep → List Str
  | .oneMsg msg =>
    if ircServerQueueMsg msg.flags = priority.val + 1 then (textLines (env.text msg)).map lineBuffer else []
  | .tick => []

/-- The messages of a priority that are sent, and then those in its queue. -/
def IrcServerOut.stream (server : IrcServerOut) (priority : Fin 2) : List Str :=
  (server.sent.filter fun sent => sent.queueMsg = priority.val + 1).map IrcSent.data ++ server.outqueue priority

def IrcSent.priority (sent : IrcSent) : Fin 2 := ircServerPriority sent.queueMsg

/-- Before a message with a priority is sent, the time that it asks for has passed
since each message that had one. -/
def Spaced (sent : List IrcSent) : Prop :=
  (sent.filter fun message => 0 < message.queueMsg).Pairwise fun message message' =>
    message.time + env.antiFlood message'.priority ≤ message'.time

end

/-!
## Reordering servers

The list of servers as it is in memory, and the order that `irc_server_reorder`
is asked for.
-/

section

variable {Server : Type}

/-- The servers in memory are linked in this order, between the two ends. -/
structure IrcServerList.Holds (servers : IrcServerList Server) (list : List (Addr × Server)) : Prop where
  linked : Seg servers.memory none list none
  nodup : (addrs list).Nodup
  ends : servers.ends = endsOf list

/-- Those with these names, in the order of their first occurrence, and then the others. -/
def reordered (name : Server → Str) (strings : List Str) (list : List (Addr × Server)) : List (Addr × Server) :=
  strings.eraseDups.filterMap (fun string => list.find? fun server => name server.2 = string) ++
    list.filter fun server => name server.2 ∉ strings

/-- What `irc_server_reorder` leaves and returns. -/
structure ReorderRight (name : Server → Str) (servers : IrcServerList Server) (list : List (Addr × Server))
    (strings : List Str) (result : IrcServerList Server × Int) : Prop where
  holds : result.1.Holds (reordered name strings list)
  perm : (reordered name strings list).Perm list
  moved : result.2 = 0 ↔ reordered name strings list = list
  /-- The memory that is not that of the servers is left alone. -/
  frame : ∀ a ∉ addrs list, result.1.memory a = servers.memory a

end

/-!
## Tokens of message 005

A message is tokens between spaces, `NAME` or `NAME=value`. What is read for a
feature is expected to come from the token of its name.
-/

/-- The tokens of a text. -/
def isupportTokens (text : Str) : List Str := runs (· = ch ' ') text

/-- The value of a token, if it is one of the feature. -/
def tokenValue (feature token : Str) : Option Str :=
  if (feature ++ lit "=").isPrefixOf token then some (token.drop (feature.length + 1)) else none

/-- The value of the first token of the feature that has one. -/
def firstValue (feature text : Str) : Option Str := (isupportTokens text).findSome? (tokenValue feature)

/-! ## The fields of the server -/

/-- What a value of `PREFIX` stands for, which resets the modes and chars if it has none. -/
def prefixRead (value : Str) : Option (Option IrcPrefixTable) :=
  some (ircServerSetPrefixModesChars ⟨.rfc1459, none, none⟩ value).prefixTable

def casemappingRead (value : Str) : Option IrcCasemapping :=
  ([(lit "rfc1459", .rfc1459), (lit "strict-rfc1459", .strictRfc1459), (lit "ascii", .ascii)].find? fun casemapping =>
    stringStrcasecmp casemapping.1 value = 0).map (·.2)

/-- A number is valid if it is positive and the whole value. -/
def numberRead (value : Str) : Option Int :=
  if (strtol value).2 = [] ∧ (strtol value).1 > 0 then some (toInt (strtol value).1) else none

/-- A field after a value is read: without a value, or one that is not valid, it is unchanged. -/
def fieldAfter {α : Type} (read : Str → Option α) (value : Option Str) (field : α) : α := (value.bind read).getD field

/-- The fields after a value is read, or none, for each feature. -/
def fieldsAfter (server : IrcServerIsupport) (value : Str → Option Str) : IrcServerIsupport :=
  { server with
    modes.prefixTable := fieldAfter prefixRead (value (lit "PREFIX")) server.modes.prefixTable
    nickMaxLength := fieldAfter numberRead (value (lit "NICKLEN")) server.nickMaxLength
    modes.casemapping := fieldAfter casemappingRead (value (lit "CASEMAPPING")) server.modes.casemapping
    chantypes := fieldAfter (some ∘ some) (value (lit "CHANTYPES")) server.chantypes
    modes.chanmodes := fieldAfter (some ∘ some) (value (lit "CHANMODES")) server.modes.chanmodes
    monitor := fieldAfter numberRead (value (lit "MONITOR")) server.monitor }

/-- The message has set the fields from the tokens with the names of the features, and only from them. -/
def FeaturesRight (server : IrcServerIsupport) (text : Str) : Prop :=
  ircProtocolCb005Full server text =
    { fieldsAfter server (firstValue · text) with isupport := (ircProtocolCb005Full server text).isupport }

/-- What is after the name and `=` in a token, wherever they stand in it. -/
def valueInside (feature token : Str) : Option Str :=
  (strstr token (feature ++ lit "=")).map fun pos => pos.drop (feature.length + 1)

/-- The value in the first token that has the name and `=` in it, as a part of another name or value too. -/
def firstInside (feature text : Str) : Option Str := (isupportTokens text).findSome? (valueInside feature)

/-- For each feature, the first token with its name and `=` in it has the effect of the first token
of the feature: it is this token, or both values leave the same in the field. -/
def FeaturesApart (server : IrcServerIsupport) (text : Str) : Prop :=
  fieldsAfter server (firstInside · text) = fieldsAfter server (firstValue · text)

/-! ## The copy of the messages -/

/-- `isupport` after some messages. -/
def isupportAfter (texts : List Str) : Option Str :=
  texts.foldl (fun isupport text => some (isupportConcat isupport text)) none

/-- What a feature is looked up for: its first value, or nothing if it is there without value. -/
def isupportLookup (isupport : Option Str) (feature : Str) : Option Str :=
  isupport.bind fun isupport =>
    match firstValue feature isupport with
    | some value => some (value.take 255)
    | none => if feature ∈ isupportTokens isupport then some [] else none

/-- What stands between two spaces, one after the other. -/
def followedTokens (isupport : Str) : List Str := lines (· = ch ' ') isupport.tail

/-- The first token of the feature with a value is followed by a space, or its value fills the
buffer; without such a token, the feature is a token only if one of them is followed by a space. -/
def IsupportFollowed (isupport : Option Str) (feature : Str) : Prop :=
  ∀ text, isupport = some text →
    (∀ value, firstValue feature text = some value →
      (followedTokens text).findSome? (tokenValue feature) = some value ∨ 254 ≤ value.length) ∧
    (firstValue feature text = none → (feature ∈ isupportTokens text ↔ feature ∈ followedTokens text))

/-!
## The search of a free nick

All nicks that are tried are rejected. The search is expected to try the nicks of
the list first, whatever the list is, and to end.
-/

/-- The nicks that are tried after the one that is rejected, up to NULL; each one is
with whether it is built with `_` or a number. -/
inductive NicksTried : IrcServerNicks → List (Str × Bool) → Prop
  | stop {server} : ircServerNickRejected server = none → NicksTried server []
  | next {server server' nick tried} : ircServerNickRejected server = some (nick, server') → NicksTried server' tried →
      NicksTried server ((nick, decide (0 ≤ server'.nickAlternateNumber)) :: tried)

/-- The search ends, and all nicks of the list are tried before those that are built. -/
def NickSearchRight (server : IrcServerNicks) : Prop :=
  ∃ listed built : List Str, NicksTried server (listed.map (·, false) ++ built.map (·, true)) ∧
    ∀ nick ∈ server.nicksArray, server.nick = some nick ∨ nick ∈ listed

/-- The nick as it is in the static buffer. -/
def nickBuffer (nick : Str) : Str := snprintf 64 nick

/-- What is after the first nick that is repeated is only repeated nicks; the search
goes back to the beginning of the list there. -/
structure RepeatedAtEnd (nicks : List Str) (first : Str) (known : List Str) (again : Str) (rest : List Str) : Prop where
  split : nicks = known ++ again :: rest
  nodup : known.Nodup
  firstKnown : first ∈ known
  againKnown : again ∈ known
  restKnown : ∀ nick ∈ rest, nick ∈ known
  back : (known.head? = some (nickBuffer again) ∧ known.head? ≠ some first) ∨ (again = first ∧ nickBuffer again ∉ nicks)

/-- The lists where the search is right: the nicks fit in the static buffer, but for the
first one that is tried, and they are different, or else repeated at the end only. -/
def NicksFit (nicks : List Str) (first : Str) : Prop :=
  (∀ nick ∈ nicks, nick ≠ first → nick.length < 64) ∧
    (nicks.Nodup ∨ ∃ known again rest, RepeatedAtEnd nicks first known again rest)

/-- The first nick that is tried is repeated, does not fit in the static buffer, and the
part that fits is also in the list. -/
def FirstNickCut (nicks : List Str) (first : Str) : Prop :=
  64 ≤ first.length ∧ 2 ≤ nicks.count first ∧ nickBuffer first ∈ nicks

end Wirc

import WhoreIrc.Framework.Loop
import WhoreIrc.Impl.Hashtable
import WhoreIrc.Impl.StringSplit
import WhoreIrc.Impl.Utf8

/-!
# Splitting an IRC message (`plugins/irc/irc-message.c`)

`irc_message_split_string` cuts the arguments of a message into pieces for
which the message is short enough. What it does to the hashtable is given as
the calls of `hashtable_set` that it makes, in their order. Its loop need not
end, so it is given with a number of rounds.
-/

namespace Wirc

open Framework

/-- `(s) ? s : ""`. -/
def orEmpty (s : Option Str) : Str := s.getD []

@[simp] theorem orEmpty_none : orEmpty none = [] := rfl

@[simp] theorem orEmpty_some (s : Str) : orEmpty (some s) = s := rfl

/-- `(s) ? strlen (s) : 0`. -/
def lengthOrZero (s : Option Str) : Int := (orEmpty s).length

/-- `irc_message_split_add`, for a message and arguments that are not NULL. -/
def ircMessageSplitAdd (number : Nat) (tags : Option Str) (message arguments : Str) :
    List (HashtableOp Str Str) :=
  [.set (lit "msg" ++ fmtNat number) (some (orEmpty tags ++ message)),
    .set (lit "args" ++ fmtNat number) (some arguments),
    .set (lit "count") (some (fmtNat number))]

/-- The constant arguments of `irc_message_split_string`. -/
structure SplitLine where
  tags : Option Str
  host : Option Str
  command : Str
  target : Option Str
  pfx : Option Str
  suffix : Option Str
  delimiter : Byte

/-- The bytes of `"%s%s%s %s%s%s"`: the message before the arguments. -/
def splitLineStart (line : SplitLine) : Str :=
  orEmpty line.host ++ (if line.host.isSome then lit " " else []) ++ line.command ++ lit " " ++
    orEmpty line.target ++ (if orEmpty line.target ≠ [] then lit " " else []) ++ orEmpty line.pfx

/-- `snprintf (message, sizeof (message), …)`, in a buffer of 8192 bytes. -/
def splitLineMessage (line : SplitLine) (arguments : Str) : Str :=
  (splitLineStart line ++ arguments ++ orEmpty line.suffix).take 8191

/-- The value of `max_length` after the subtractions. Those of a length are
made on `size_t`, and the result is converted to `int`. -/
def splitMaxLength (line : SplitLine) (maxLengthHost maxLength : Int) : Int :=
  let maxLength := toInt (maxLength - 2)
  let maxLength := if maxLengthHost ≥ 0 then toInt (maxLength - maxLengthHost)
    else toInt (maxLength - (if line.host.isSome then lengthOrZero line.host + 1 else 0))
  let maxLength := toInt (maxLength - (line.command.length + 1))
  let maxLength := toInt (maxLength - lengthOrZero line.target)
  let maxLength := toInt (maxLength - lengthOrZero line.pfx)
  toInt (maxLength - lengthOrZero line.suffix)

/-- `while (pos[0])`: the values of `pos` and `pos_last_delim` after it. -/
def splitScan (arguments : Str) (delimiter : Byte) (maxLength : Int) (pos : Str) (posLastDelim : Option Str) :
    Str × Option Str :=
  if _ : pos = [] then (pos, posLastDelim)
  else
    let posLastDelim := if pos.head? = some delimiter then some pos else posLastDelim
    let posNext := utf8NextChar pos
    if off arguments posNext > maxLength then (pos, posLastDelim)
    else splitScan arguments delimiter maxLength posNext posLastDelim
termination_by pos.length
decreasing_by exact utf8NextChar_length_lt ‹_›

structure SplitState where
  arguments : Str
  number : Nat
  calls : List (HashtableOp Str Str)

/-- One round of `while (arguments && arguments[0])`. -/
def splitRound (line : SplitLine) (maxLength : Int) (s : SplitState) :
    Round SplitState (List (HashtableOp Str Str)) :=
  if s.arguments = [] then .done s.calls
  else
    let (pos, posLastDelim) := splitScan s.arguments line.delimiter maxLength s.arguments none
    let pos := if pos ≠ [] then posLastDelim.getD pos else pos
    let dupArguments := strndup s.arguments (off s.arguments pos)
    let message := splitLineMessage line dupArguments
    .next
      { arguments := if some pos = posLastDelim then pos.tail else pos
        number := s.number + 1
        calls := s.calls ++ ircMessageSplitAdd s.number line.tags message dupArguments }

/-- `irc_message_split_string`: the value returned and the calls. -/
def ircMessageSplitString (line : SplitLine) (arguments : Option Str) (maxLengthHost maxLength : Int)
    (rounds : Nat) : Option (Int × List (HashtableOp Str Str)) :=
  let maxLength := splitMaxLength line maxLengthHost maxLength
  if maxLength < 2 then some (0, [])
  else if orEmpty arguments = [] then
    some (1, ircMessageSplitAdd 1 line.tags (splitLineMessage line []) [])
  else (runLoop (splitRound line maxLength) rounds ⟨orEmpty arguments, 1, []⟩).map fun calls => (1, calls)

/-- The hashtable that `irc_message_split` creates, after the calls. -/
def splitHashtable (calls : List (HashtableOp Str Str)) : Option (Hashtable Str Str) :=
  (hashtableNew 32 .string .string Str).bind fun hashtable => calls.foldlM HashtableOp.run hashtable

/-!
## Splitting a JOIN (`plugins/irc/irc-message.c`)

`irc_message_split_join` puts channels and their keys in two buffers, and gives
both as a message when the next channel does not fit. As for the other messages,
what it does to the hashtable is given as the calls of `hashtable_set`.
-/

/-- The variables of the loop of `irc_message_split_join`. -/
structure JoinState where
  indexChannel : Nat
  number : Nat
  msgToSend : Str
  keysToAdd : Str
  length : Nat
  calls : List (HashtableOp Str Str)

/-- `sizeof (msg_to_send)` and `sizeof (keys_to_add)`. -/
def joinBufferSize : Nat := 16384

/-- `snprintf (msg_to_send, sizeof (msg_to_send), "%s%sJOIN", …)`. -/
def joinStart (host : Option Str) : Str :=
  (orEmpty host ++ (if host.isSome then lit " " else []) ++ lit "JOIN").take (joinBufferSize - 1)

/-- `length_to_add`. -/
def joinLengthToAdd (channel : Str) (key : Option Str) : Nat :=
  1 + channel.length + (key.elim 0 fun key => 1 + key.length)

/-- `strcat (keys_to_add, …)`, if there is enough space. -/
def joinAddKey (keysToAdd : Str) : (key : Option Str) → Str
  | none => keysToAdd
  | some key =>
    if keysToAdd.length + 1 + key.length < joinBufferSize then
      keysToAdd ++ (if keysToAdd ≠ [] then lit "," else lit " ") ++ key
    else keysToAdd

/-- A channel is added, with its key. -/
def joinAdd (lengthNoChannel : Nat) (channel : Str) (key : Option Str) (s : JoinState) : JoinState :=
  let lengthToAdd := joinLengthToAdd channel key
  { s with
    msgToSend :=
      if s.length + lengthToAdd < joinBufferSize then
        s.msgToSend ++ (if s.length = lengthNoChannel then lit " " else lit ",") ++ channel
      else s.msgToSend
    keysToAdd := joinAddKey s.keysToAdd key
    length := s.length + lengthToAdd
    indexChannel := s.indexChannel + 1 }

/-- `strcat (msg_to_send, keys_to_add)` and `irc_message_split_add`: the calls, or `none`
when the buffer is too small, or when `msg_to_send + length_no_channel + 1` is
after the end of the message. -/
def joinFlush (tags : Option Str) (lengthNoChannel : Nat) (s : JoinState) : Option (List (HashtableOp Str Str)) :=
  let msgToSend := s.msgToSend ++ s.keysToAdd
  if msgToSend.length < joinBufferSize ∧ lengthNoChannel + 1 ≤ msgToSend.length then
    some (s.calls ++ ircMessageSplitAdd s.number tags msgToSend (msgToSend.drop (lengthNoChannel + 1)))
  else none

/-- `while (index_channel < channels_count)`, and the last message after it. -/
def joinLoop (tags : Option Str) (start : Str) (channels keys : List Str) (maxLength : Int) (s : JoinState) :
    Option (List (HashtableOp Str Str)) :=
  match h : channels[s.indexChannel]? with
  | none => if s.length > start.length then joinFlush tags start.length s else some s.calls
  | some channel =>
    let key := keys[s.indexChannel]?
    if s.length + joinLengthToAdd channel key < maxLength ∨ s.length = start.length then
      joinLoop tags start channels keys maxLength (joinAdd start.length channel key s)
    else
      match joinFlush tags start.length s with
      | none => none
      | some calls =>
        joinLoop tags start channels keys maxLength
          ⟨s.indexChannel, s.number + 1, start, [], start.length, calls⟩
termination_by (channels.length - s.indexChannel, if s.length = start.length then 0 else 1)
decreasing_by
  · have := (List.getElem?_eq_some_iff.mp h).1
    exact Prod.Lex.left _ _ (by simp only [joinAdd]; omega)
  · have hfull := not_or.mp ‹¬ (_ ∨ _)›
    rw [if_pos trivial, if_neg hfull.2]
    exact Prod.Lex.right _ Nat.one_pos

/-- `weechat_string_split (string, ",", NULL, WHOREIRC_STRING_SPLIT_STRIP_LEFT | …, 0, &count)`. -/
def joinSplitList (string : Str) : List Str := (stringSplit string (lit ",") none ⟨true, true, true, false⟩ 0).getD []

/-- `channels` and `keys`. -/
def joinChannelsKeys (arguments : Str) : List Str × List Str :=
  match strchr arguments (ch ' ') with
  | none => (joinSplitList arguments, [])
  | some pos => (joinSplitList (strndup arguments (off arguments pos)), joinSplitList (skipSpaces pos))

/-- `irc_message_split_join`: the value returned and the calls. -/
def ircMessageSplitJoin (tags host : Option Str) (arguments : Str) (maxLength : Int) :
    Option (Int × List (HashtableOp Str Str)) :=
  let (channels, keys) := joinChannelsKeys arguments
  let start := joinStart host
  (joinLoop tags start channels keys (maxLength - 2) ⟨0, 1, start, [], start.length, []⟩).map fun calls => (1, calls)

end Wirc

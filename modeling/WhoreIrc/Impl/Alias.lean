import WhoreIrc.Impl.StringSplit
import WhoreIrc.Impl.Utf8

/-!
# Aliases (`plugins/alias/alias.c`)

What an alias does is given by the commands that `alias_cb` gives to
`alias_run_command`, in their order. Memory is never short.
-/

namespace Wirc

/-- `ALIAS_IS_ARG_NUMBER`. -/
def aliasIsArgNumber (number : Byte) : Bool := ch '1' ≤ number && number ≤ ch '9'

/-! ## The result in memory -/

/-- `alias_string_add_word`, of the string in `*alias`. -/
def aliasStringAddWord (res : Option Str) (word : Str) : Option Str :=
  if word = [] then res
  else
    match res with
    | none => some word
    | some text => some (text ++ word)

/-- `alias_string_add_word_range`. -/
def aliasStringAddWordRange (res : Option Str) (start stop : Str) : Option Str :=
  aliasStringAddWord res (strndup start (off start stop))

/-- `alias_string_add_arguments`, of the arguments from `start` to `stop`. -/
def aliasStringAddArguments (res : Option Str) (argv : List Str) (start : Nat) (stop : Int) : Option Str :=
  (List.range' start (stop + 1 - start).toNat).foldl
    (fun res i => aliasStringAddWord (if i ≠ start then aliasStringAddWord res (lit " ") else res) (argv.getD i [])) res

/-! ## `alias_replace_args` -/

/-- `(number - '1' < argc) ? number - '1' : argc - 1`. -/
def aliasLastArg (number : Byte) (argc : Nat) : Int :=
  if number.toNat - (ch '1').toNat < argc then number.toNat - (ch '1').toNat else argc - 1

/-- `offset`, if it is not 0, and what is added to the result after the text before `pos`. -/
def aliasReplaceAt (argv : List Str) (userArgs pos : Str) : Option (Nat × (Option Str → Option Str)) :=
  let pos1 := pos.getD 1 0
  let pos2 := pos.getD 2 0
  let pos3 := pos.getD 3 0
  if pos.head? = some (ch '\\') ∧ pos1 = ch '$' then some (2, fun res => aliasStringAddWord res (lit "$"))
  else if pos.head? = some (ch '$') then
    -- all arguments
    if pos1 = ch '*' then some (2, fun res => aliasStringAddWord res userArgs)
    -- the last argument
    else if pos1 = ch '~' then some (2, fun res => if argv.length > 0 then aliasStringAddWord res (argv.getD (argv.length - 1) []) else res)
    -- arguments 1 to m
    else if pos1 = ch '-' ∧ aliasIsArgNumber pos2 then
      some (3, fun res => aliasStringAddArguments res argv 0 (aliasLastArg pos2 argv.length))
    else if aliasIsArgNumber pos1 then
      let n := pos1.toNat - (ch '1').toNat
      -- argument n
      if pos2 ≠ ch '-' then some (2, fun res => if n < argv.length then aliasStringAddWord res (argv.getD n []) else res)
      -- arguments n to m
      else if aliasIsArgNumber pos3 then
        some (4, fun res =>
          if n < argv.length then aliasStringAddArguments res argv n (aliasLastArg pos3 argv.length) else res)
      -- arguments n to last
      else some (3, fun res => if n < argv.length then aliasStringAddArguments res argv n (argv.length - 1) else res)
    else none
  else none

theorem aliasReplaceAt_offset {argv : List Str} {userArgs pos : Str} {offset : Nat} {add : Option Str → Option Str}
    (h : aliasReplaceAt argv userArgs pos = some (offset, add)) : 0 < offset := by
  unfold aliasReplaceAt at h
  -- 2, 3 or 4 bytes in each branch
  grind

/-- `while (pos && pos[0])`, and the text after the last replacement. -/
def aliasReplaceLoop (argv : List Str) (userArgs : Str) (res : Option Str) (start pos : Str) : Option Str :=
  if _hpos : pos = [] then if off start pos > 0 then aliasStringAddWord res start else res
  else
    match _ : aliasReplaceAt argv userArgs pos with
    | some (offset, add) =>
      aliasReplaceLoop argv userArgs (add (aliasStringAddWordRange res start pos)) (pos.drop offset) (pos.drop offset)
    | none => aliasReplaceLoop argv userArgs res start pos.tail
termination_by pos.length
decreasing_by
  · have hoffset := aliasReplaceAt_offset ‹_›
    have := List.length_pos_of_ne_nil _hpos
    rw [List.length_drop]
    omega
  · have := List.length_pos_of_ne_nil _hpos
    rw [List.length_tail]
    omega

/-- `alias_replace_args`. -/
def aliasReplaceArgs (aliasArgs userArgs : Str) : Option Str :=
  let argv := (stringSplit userArgs (lit " ") none ⟨true, true, true, false⟩ 0).getD []
  aliasReplaceLoop argv userArgs none aliasArgs aliasArgs

/-! ## `alias_cb` -/

/-- The loop of `utf8_charcmp`, and the lengths. -/
def utf8CharcmpBytes : (char1 char2 : Str) → Int
  | [], [] => 0
  | [], _ :: _ => 1
  | _ :: _, [] => -1
  | b1 :: char1, b2 :: char2 => if b1 = b2 then utf8CharcmpBytes char1 char2 else if b1 < b2 then -1 else 1

/-- `utf8_charcmp` (`core/wee-utf8.c`). -/
def utf8Charcmp (string1 string2 : Str) : Int :=
  utf8CharcmpBytes (string1.take (utf8CharSize string1)) (string2.take (utf8CharSize string2))

/-- `while (ptr_command_chars && ptr_command_chars[0])` in `string_is_command_char`. -/
def isOneOfCommandChars (string ptrCommandChars : Str) : Bool :=
  if _ : ptrCommandChars = [] then false
  else if utf8Charcmp ptrCommandChars string = 0 then true
  else isOneOfCommandChars string (utf8NextChar ptrCommandChars)
termination_by ptrCommandChars.length
decreasing_by exact utf8NextChar_length_lt ‹_›

/-- `string_is_command_char` (`core/wee-string.c`), with the option `weechat.look.command_chars`. -/
def stringIsCommandChar (commandChars string : Str) : Bool :=
  string.head? = some (ch '/') || isOneOfCommandChars string commandChars

/-- `struct t_alias`. -/
structure Alias where
  command : Str
  running : Bool

/-- The loop on the commands, with `some_args_replaced`. `argvEol1` is `argv_eol[1]`,
NULL when `argc` is 1. -/
def aliasRunCommands (commandChars : Str) (argvEol1 : Option Str) : Bool → (commands : List Str) → List Str
  | _, [] => []
  | someArgsReplaced, command :: nextCommands =>
    let argsReplaced := aliasReplaceArgs command (argvEol1.getD [])
    let someArgsReplaced := someArgsReplaced || argsReplaced.any fun argsReplaced => strcmp argsReplaced command ≠ 0
    let slash := if stringIsCommandChar commandChars command then [] else lit "/"
    let aliasCommand :=
      match nextCommands, argvEol1 with
      | [], some args => if !someArgsReplaced then command ++ lit " " ++ args else argsReplaced.getD command
      | _, _ => argsReplaced.getD command
    (slash ++ aliasCommand) :: aliasRunCommands commandChars argvEol1 someArgsReplaced nextCommands

/-- `alias_cb`: the commands that are run. -/
def aliasCb (commandChars : Str) (ptrAlias : Alias) (argvEol1 : Option Str) : List Str :=
  if ptrAlias.running then []
  else aliasRunCommands commandChars argvEol1 false ((stringSplitCommand ptrAlias.command (ch ';')).getD [])

end Wirc

import WhoreIrc.Framework.Runs
import WhoreIrc.Impl.Alias

/-!
# What an alias says

The text of a command of an alias is made of bytes, escaped `$` and references to
the arguments of the user (`aliasParts`). Arguments are numbered from 1.
-/

namespace Wirc

open Framework

/-- A reference: `$n`, `$-m`, `$n-m`, `$n-`, `$*` or `$~`. -/
inductive AliasRef
  | arg (n : Nat)
  | upTo (m : Nat)
  | range (n m : Nat)
  | onward (n : Nat)
  | all
  | last
  deriving DecidableEq

/-- A part of a command. -/
inductive AliasPart
  | byte (b : Byte)
  | dollar
  | reference (ref : AliasRef)
  deriving DecidableEq

/-- The number of an argument at the beginning of a text. -/
def argNumber (s : Str) : Option Nat := (s.head?.filter fun b => aliasIsArgNumber b).map fun b => b.toNat - (ch '0').toNat

/-- The reference after `$`, and the number of its bytes. -/
def aliasRefAt (s : Str) : Option (AliasRef × Nat) :=
  if s.head? = some (ch '*') then some (.all, 1)
  else if s.head? = some (ch '~') then some (.last, 1)
  else if s.head? = some (ch '-') then (argNumber s.tail).map fun m => (.upTo m, 2)
  else
    (argNumber s).map fun n =>
      if s.tail.head? = some (ch '-') then
        match argNumber s.tail.tail with
        | some m => (.range n m, 3)
        | none => (.onward n, 2)
      else (.arg n, 1)

/-- The parts of a command. -/
def aliasParts (s : Str) : List AliasPart :=
  match s with
  | [] => []
  | c :: s =>
    if c = ch '\\' ∧ s.head? = some (ch '$') then .dollar :: aliasParts (s.drop 1)
    else
      match if c = ch '$' then aliasRefAt s else none with
      | some (ref, size) => .reference ref :: aliasParts (s.drop size)
      | none => .byte c :: aliasParts s
termination_by s.length
decreasing_by
  all_goals
    simp only [List.length_drop, List.length_cons]
    omega

/-- The arguments joined with spaces. -/
def joinArgs (words : List Str) : Str := (lit " ").intercalate words

/-- The arguments of the user. -/
def aliasArgs (userArgs : Str) : List Str := runs (isIn (lit " ")) userArgs

/-- What a reference stands for. -/
def AliasRef.value (userArgs : Str) : AliasRef → Str
  | arg n => (aliasArgs userArgs).getD (n - 1) []
  | upTo m => joinArgs ((aliasArgs userArgs).take m)
  | range n m => joinArgs (((aliasArgs userArgs).take m).drop (n - 1))
  | onward n => joinArgs ((aliasArgs userArgs).drop (n - 1))
  | all => userArgs
  | last => (aliasArgs userArgs).getLast?.getD []

def AliasPart.value (userArgs : Str) : AliasPart → Str
  | byte b => [b]
  | dollar => lit "$"
  | reference ref => ref.value userArgs

/-- A command with the arguments of the user. -/
def aliasText (userArgs command : Str) : Str := (aliasParts command).flatMap (AliasPart.value userArgs)

def AliasPart.isReference : AliasPart → Bool
  | reference _ => true
  | _ => false

/-- The command has a reference to arguments. -/
def hasReference (command : Str) : Bool := (aliasParts command).any AliasPart.isReference

/-- The commands of an alias. -/
def aliasCommands (ptrAlias : Alias) : List Str := (stringSplitCommand ptrAlias.command (ch ';')).getD []

/-- The commands with the arguments of the user, and what is appended to the last one. -/
def aliasTexts (commandChars userArgs appended : Str) : (commands : List Str) → List Str
  | [] => []
  | command :: nextCommands =>
    ((if stringIsCommandChar commandChars command then [] else lit "/") ++ (aliasText userArgs command ++
        if nextCommands = [] then appended else [])) :: aliasTexts commandChars userArgs appended nextCommands

/-- What an alias has to run: the arguments are appended if no command has a reference. -/
def aliasSays (commandChars : Str) (ptrAlias : Alias) (userArgs : Option Str) : List Str :=
  let commands := aliasCommands ptrAlias
  let appended := if commands.any hasReference then [] else userArgs.elim [] fun userArgs => lit " " ++ userArgs
  aliasTexts commandChars (userArgs.getD []) appended commands

/-- No command is empty after the replacement. With arguments, some command is not the
same after it if there are references, and no `$` is escaped if there are none. -/
def AliasPlain (ptrAlias : Alias) (userArgs : Option Str) : Prop :=
  (∀ command ∈ aliasCommands ptrAlias, aliasText (userArgs.getD []) command ≠ []) ∧
    (userArgs.isSome = true →
      if (aliasCommands ptrAlias).any hasReference then
        ∃ command ∈ aliasCommands ptrAlias, aliasText (userArgs.getD []) command ≠ command
      else ∀ command ∈ aliasCommands ptrAlias, AliasPart.dollar ∉ aliasParts command)

end Wirc

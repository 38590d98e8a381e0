import WhoreIrc.Framework.Runs
import WhoreIrc.Impl.IrcMode

/-!
# What the modes of a channel and the prefixes of nicks are

The modes of a channel as a map, changed one mode after the other, and as they
are read in the string that the channel keeps.
-/

namespace Wirc

open Framework

/-! ## Modes of a channel -/

/-- A mode that is set or unset, with its argument. -/
structure ModeChange where
  set : Bool
  mode : Byte
  argument : Option Str
  deriving DecidableEq

section

variable (server : IrcServerModes)

/-- A prefix of nicks. -/
def IsNickPrefix (mode : Byte) : Prop := mode ∈ ircServerGetPrefixModes server

instance (mode : Byte) : Decidable (IsNickPrefix server mode) := inferInstanceAs (Decidable (_ ∈ _))

/-- Whether a change of this mode has an argument. -/
def takesArgument (set : Bool) (mode : Byte) : Bool :=
  match ircModeGetChanmodeType server mode with
  | .A | .B => true
  | .C => set
  | .D => false

/-- The changes in the letters of a call, with the arguments that are left. -/
def modeChangesFrom : Bool → List Str → Str → List ModeChange
  | _, _, [] => []
  | set, arguments, c :: modes =>
    if c = ch ':' then modeChangesFrom set arguments modes
    else if c = ch ' ' then []
    else if c = ch '+' then modeChangesFrom true arguments modes
    else if c = ch '-' then modeChangesFrom false arguments modes
    else if takesArgument server set c then
      ⟨set, c, arguments.head?⟩ :: modeChangesFrom set arguments.tail modes
    else ⟨set, c, none⟩ :: modeChangesFrom set arguments modes

/-- The words of a text. -/
def modeWords (text : Str) : List Str := runs (isIn (lit " ")) text

/-- The changes of a call. -/
def modeChanges (call : Str × Option Str) : List ModeChange :=
  modeChangesFrom server true (modeWords (call.2.getD [])) call.1

/-- A change that takes an argument has one, without a colon before it. -/
def ModeChange.Complete (change : ModeChange) : Prop :=
  takesArgument server change.set change.mode = true →
    ∃ argument, change.argument = some argument ∧ argument.head? ≠ some (ch ':')

/-- The modes that are set, with their arguments. -/
abbrev ModeMap := Byte → Option (Option Str)

/-- A change of a mode of type B, C or D that is not a prefix of nicks. -/
def applyChange (map : ModeMap) (change : ModeChange) : ModeMap :=
  if ircModeGetChanmodeType server change.mode = .A ∨ IsNickPrefix server change.mode then map
  else Function.update map change.mode (if change.set then some change.argument else none)

/-- The letters in order, each with the next argument if its type is A, B or C, and
the arguments that are left. -/
def readModes : Str → List Str → List (Byte × Option Str) × List Str
  | [], arguments => ([], arguments)
  | c :: letters, arguments =>
    if c = ch '+' then readModes letters arguments
    else if ircModeGetChanmodeType server c = .D then
      ((c, none) :: (readModes letters arguments).1, (readModes letters arguments).2)
    else
      ((c, arguments.head?) :: (readModes letters arguments.tail).1, (readModes letters arguments.tail).2)

/-- The modes read in the string of a channel. -/
def readBack (modes : Option Str) : List (Byte × Option Str) × List Str :=
  readModes server ((modes.getD []).takeWhile (· ≠ ch ' ')) (modeWords ((modes.getD []).dropWhile (· ≠ ch ' ')))

/-- What is read is the map: each mode once, with its argument, and nothing else. -/
structure FaithfulModes (modes : Option Str) (map : ModeMap) : Prop where
  nodup : ((readBack server modes).1.map Prod.fst).Nodup
  mem : ∀ mode argument, (mode, argument) ∈ (readBack server modes).1 ↔ map mode = some argument
  rest : (readBack server modes).2 = []

/-- The last change of a mode sets it. -/
def LastSet (changes : List ModeChange) (mode : Byte) : Prop :=
  ∃ change, changes.reverse.find? (fun change => change.mode = mode) = some change ∧ change.set = true

end

/-! ## Prefixes of nicks -/

/-- Prefixes with a position for each prefix of the server: its char, or a space. -/
structure PositionsFit (server : IrcServerModes) (prefixes : Str) : Prop where
  length_eq : prefixes.length = (ircServerGetPrefixChars server).length
  position : ∀ (i : Nat) c, prefixes[i]? = some c → c = ch ' ' ∨ (ircServerGetPrefixChars server)[i]? = some c

/-- A nick shows the first of its prefixes. -/
def ShowsFirst (nick : IrcNick) : Prop := nick.pfx = (nick.prefixes.find? (· ≠ ch ' ')).getD (ch ' ')

structure NickFits (server : IrcServerModes) (nick : IrcNick) : Prop where
  positions : PositionsFit server nick.prefixes
  current : ShowsFirst nick

/-- The chars that a value of PREFIX gives, those by default if it has no modes. -/
def announcedChars (value : Str) : Str :=
  if ch ')' ∈ value ∧ value.head? ≠ some (ch ')') then
    let modes := (value.takeWhile (· ≠ ch ')')).tail
    let chars := (value.dropWhile (· ≠ ch ')')).tail
    chars.take modes.length ++ List.replicate (modes.length - chars.length) (ch ' ')
  else lit "@+"

/-- There are as many chars as before, and the same for the prefixes that the nick has. -/
structure SamePrefixes (server : IrcServerModes) (value : Str) (nick : IrcNick) : Prop where
  length_eq : (announcedChars value).length = (ircServerGetPrefixChars server).length
  used : ∀ (i : Nat) c, nick.prefixes[i]? = some c → c ≠ ch ' ' →
    (announcedChars value)[i]? = (ircServerGetPrefixChars server)[i]?

section

variable {Channel : Type}

/-- The nicks of the channels fit, and no access was outside a string. -/
def PrefixesFit (server : IrcServerChannels Channel) : Prop :=
  ∀ channel, ∃ nicks, (server.channel channel).nicks = some nicks ∧ ∀ nick ∈ nicks, NickFits server.server nick

/-- A message 005 with PREFIX comes when there are no nicks, or has the same for all. -/
def KeepsPrefixes (server : IrcServerChannels Channel) : IrcServerMessage Channel → Prop
  | .isupport text => ∀ value, isupportValue text (lit "PREFIX=") = some value →
    ∀ channel nicks, (server.channel channel).nicks = some nicks → ∀ nick ∈ nicks,
      SamePrefixes server.server value nick
  | _ => True

end

end Wirc

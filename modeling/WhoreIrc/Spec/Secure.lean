import Mathlib.Logic.Function.Basic
import WhoreIrc.Impl.Secure
import WhoreIrc.Impl.ConfigFile

/-!
# What secured data must survive

A file stores a secret under each name, in clear or locked with a passphrase.
Along a run, what the user is owed (`owed`) is what the file read last or
written last stores, with the changes that the user asked for since. Every file
written must keep it (`KeepsSecuredData`).
-/

namespace Wirc

/-- What is stored under a name: a secret in clear, or a locked one, with the
secret that each passphrase reveals. -/
inductive Entry
  | plain (secret : CStr)
  | locked (opens : Str → CStr → Prop)

abbrev Vault := Str → Option Entry

/-- The passphrase decrypts the value, and the secret is what it gives. -/
def Opens (g : Gcrypt) (value : CStr) (passphrase : Str) (secret : CStr) : Prop :=
  ∃ data, secureDecryptData g (stringBase16Decode value).2 passphrase = .ok data ∧ secret = cString data

/-! ## The meaning of a file -/

/-- Whether the values after a line are encrypted. -/
def lineFlag (encrypted : Bool) (name : Str) : Option CStr → Bool
  | none => encrypted
  | some value =>
    if name = secureDataPassphraseFlag ∧ value.val ≠ [] then configFileStringToBoolean value else encrypted

def lineEntry (g : Gcrypt) (encrypted : Bool) (value : CStr) : Entry :=
  if encrypted then .locked (Opens g value) else .plain value

/-- The last line with a name counts. -/
def lineVault (g : Gcrypt) (encrypted : Bool) (vault : Vault) (name : Str) : Option CStr → Vault
  | none => vault
  | some value =>
    if name = secureDataPassphraseFlag then vault
    else Function.update vault name (some (lineEntry g encrypted value))

/-- What is stored after some more lines. -/
def linesVault (g : Gcrypt) (encrypted : Bool) (vault : Vault) : List ConfigLine → Vault
  | [] => vault
  | (name, value) :: lines =>
    linesVault g (lineFlag encrypted name value) (lineVault g encrypted vault name value) lines

def fileVault (g : Gcrypt) (lines : List ConfigLine) : Vault := linesVault g false (fun _ => none) lines

/-! ## What is owed -/

/-- What the user asks for with `/secure`. -/
inductive Request
  | discard
  | removePassphrase
  | set (name : Str) (value : CStr)
  | del (name : Str)
  | other
  deriving DecidableEq

def request : (args : List (Str × CStr)) → Request
  | _ :: (argv1, _) :: (argv2, _) :: args =>
    if stringStrcasecmp argv1 (lit "decrypt") = 0 then if argv2 = lit "-discard" then .discard else .other
    else if stringStrcasecmp argv1 (lit "passphrase") = 0 then
      if argv2 = lit "-delete" then .removePassphrase else .other
    else if stringStrcasecmp argv1 (lit "set") = 0 then
      match args with
      | (_, argvEol3) :: _ => .set argv2 argvEol3
      | [] => .other
    else if stringStrcasecmp argv1 (lit "del") = 0 then .del argv2
    else .other
  | _ => .other

/-- While some data is still encrypted, only discarding it is accepted. -/
def requestVault (state : SecureState) (due : Vault) : Request → Vault
  | .discard => fun name => if name ∈ state.hashtableDataEncrypted then none else due name
  | .set name value =>
    if itemsCount state.hashtableDataEncrypted > 0 then due else Function.update due name (some (.plain value))
  | .del name => if itemsCount state.hashtableDataEncrypted > 0 then due else Function.update due name none
  | .removePassphrase => due
  | .other => due

/-- What is owed when an action writes the file: a file read replaces it,
unless the reload is refused. -/
def owed (g : Gcrypt) (state : SecureState) (due : Vault) : SecureAction → Vault
  | .read input => linesVault g false due input.lines
  | .reload input =>
    if itemsCount state.hashtableDataEncrypted > 0 then due else fileVault g input.lines
  | .command args _ => requestVault state due (request args)
  | .gui _ => due
  | .save _ => due

/-- An entry that the passphrase in use opens is protected by this one. -/
def Entry.under (passphrase : Option Str) : Entry → Entry
  | .plain secret => .plain secret
  | .locked opens =>
    .locked fun p secret => opens p secret ∧ ∀ q, passphrase = some q → (∃ secret', opens q secret') → p = q

/-- What is owed after an action. -/
def dueAfter (g : Gcrypt) (due : Vault) (state' : SecureState) : Written → Vault
  | some file => fun name => (fileVault g file name).map (Entry.under state'.passphrase)
  | none => due

/-! ## What must hold -/

/-- An entry is still there in the new file: a secret stored in clear is in
clear, or locked with the passphrase in use. A locked one is still opened by the
passphrase that protected it, or by the one in use, and it is in clear only if
the passphrase is removed. -/
def Kept (passphrase : Option Str) (removed : Prop) : Entry → Option Entry → Prop
  | .plain secret, some (.plain secret') => secret' = secret
  | .plain secret, some (.locked opens') => ∃ q, passphrase = some q ∧ opens' q secret
  | .locked opens, some (.locked opens') =>
    ∀ p secret, opens p secret → opens' p secret ∨ ∃ q, passphrase = some q ∧ opens' q secret
  | .locked opens, some (.plain secret') => removed ∧ ∀ p secret, opens p secret → secret' = secret
  | _, none => False

def RemovesPassphrase : SecureAction → Prop
  | .command args _ => request args = .removePassphrase
  | _ => False

/-- The states of a run and what is owed there, for actions that meet a
condition on the state before them. -/
inductive SecureRun (g : Gcrypt) (meets : SecureState → SecureAction → Prop) : SecureState → Vault → Prop
  | init (passphraseEnv : Option Str) : SecureRun g meets (secureInit passphraseEnv) fun _ => none
  | step {state state' : SecureState} {due : Vault} {action : SecureAction} {written : Written} :
      SecureRun g meets state due → meets state action → secureStep g state action = some (state', written) →
      SecureRun g meets state' (dueAfter g (owed g state due action) state' written)

/-- Every file written in a run keeps all that is owed. -/
def KeepsSecuredData (g : Gcrypt) (meets : SecureState → SecureAction → Prop) : Prop :=
  ∀ state due action state' file, SecureRun g meets state due → meets state action →
    secureStep g state action = some (state', some file) →
    ∀ name entry, owed g state due action name = some entry →
      Kept state'.passphrase (RemovesPassphrase action) entry (fileVault g file name)

/-! ## When it does hold -/

/-- At the prompts for a value, one space is answered before a passphrase that
decrypts the value. -/
def skipsPrompt (g : Gcrypt) (value : CStr) : (answers : List Str) → Bool
  | [] => false
  | passphrase :: answers =>
    if passphrase = [] then skipsPrompt g value answers
    else if passphrase = lit " " then true
    else if passphrase = [3] then false
    else
      match secureDecryptData g (stringBase16Decode value).2 passphrase with
      | .ok _ => false
      | .error _ => skipsPrompt g value answers

/-- No wrong passphrase is taken for the right one. -/
def OneSecret (g : Gcrypt) (value : CStr) : Prop :=
  ∀ p q secret secret', Opens g value p secret → Opens g value q secret' → secret = secret'

/-- A wrong passphrase is met before the start of the interface, and the prompt
is not skipped after some data was stored. -/
def PromptMeets (g : Gcrypt) (state : SecureState) (answers : List Str) (value : CStr) : Prop :=
  ∀ passphrase, state.passphrase = some passphrase → (∀ secret, ¬ Opens g value passphrase secret) →
    state.guiInitOk = false ∧ (skipsPrompt g value answers = true → itemsCount state.hashtableData = 0)

/-- The condition on a line read: its value is not empty, and it does not
replace one that is still encrypted. -/
structure LineMeets (g : Gcrypt) (state : SecureState) (answers : List Str) (name : Str) (value : CStr) : Prop where
  value_ne : value.val ≠ []
  fresh : state.dataEncrypted = false ∨ state.passphrase.isSome → name ∉ state.hashtableDataEncrypted
  oneSecret : state.dataEncrypted = true → OneSecret g value
  prompt : state.dataEncrypted = true → PromptMeets g state answers value

/-- Each line meets the condition in the state where it is read. -/
def LinesMeet (g : Gcrypt) (passphraseFile : Option (List Byte)) (state : SecureState) (answers : List Str) :
    List ConfigLine → Prop
  | [] => True
  | (name, value) :: lines =>
    (∀ v, value = some v → name ≠ secureDataPassphraseFlag → LineMeets g state answers name v) ∧
      ∀ state' answers', secureConfigDataReadCb g passphraseFile state answers name value = some (state', answers') →
        LinesMeet g passphraseFile state' answers' lines

/-- The condition on an action. -/
def ActionMeets (g : Gcrypt) (state : SecureState) : SecureAction → Prop
  | .read input =>
    LinesMeet g input.passphraseFile { state with dataEncrypted := false } input.answers input.lines
  | .reload input =>
    itemsCount state.hashtableDataEncrypted = 0 →
      LinesMeet g input.passphraseFile { state with dataEncrypted := false, hashtableData := ∅ } input.answers
        input.lines
  | .command args _ => ∀ name value, request args = .set name value → name ≠ secureDataPassphraseFlag
  | .gui _ => True
  | .save _ => itemsCount state.hashtableData = 0 ∨ itemsCount state.hashtableDataEncrypted = 0

/-! ## Secured data in a file -/

/-- A name that `/secure set` accepts: a word. -/
structure SecureWord (name : Str) : Prop where
  nonempty : name ≠ []
  noZero : 0 ∉ name
  noSpace : ch ' ' ∉ name

/-- A name that is read as it was written. -/
structure ReadableName (name : Str) : Prop where
  notFlag : name ≠ secureDataPassphraseFlag
  noCr : ch '\r' ∉ name
  noLf : ch '\n' ∉ name

/-- The secured data of a program that could decrypt all of them. -/
def secureStateOf (passphrase : Option Str) (table : SecureTable) (guiInitOk : Bool) : SecureState where
  passphrase := passphrase
  hashtableData := table
  hashtableDataEncrypted := ∅
  dataEncrypted := false
  guiInitOk := guiInitOk

/-- The section "data" that is written for a table, read by a program with the
passphrase and no secured data, gives the table back. -/
def SecureRoundTrip (g : Gcrypt) (input : SecureWrite) (passphrase : Option Str) (table : SecureTable)
    (passphraseFile : Option (List Byte)) (answers : List Str) (inData guiInitOk : Bool) : Prop :=
  ∃ reader, secureConfigReadText g passphraseFile ⟨inData, secureStateOf passphrase ∅ guiInitOk, answers⟩
      (secureConfigDataText (secureConfigDataWriteCb g input (secureStateOf passphrase table guiInitOk))) = some reader ∧
    ∀ name, reader.state.hashtableData.lookup name = table.lookup name

end Wirc

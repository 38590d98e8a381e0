import Mathlib.Data.List.AList
import Mathlib.Data.List.Sort
import WhoreIrc.Impl.Base
import WhoreIrc.Impl.Hashtable
import WhoreIrc.Impl.StringSplit
import WhoreIrc.Impl.Utf8

/-!
# Secured data (`core/wee-secure.c`, `core/wee-secure-config.c` and `/secure`)

The section "data" of the file sec.conf is the list of its lines, as
`config_file_read_internal` gives them to the read callback and as
`config_file_write_line` gets them: a name and a value, `none` for NULL. A
hashtable of strings is an association list. libgcrypt is a parameter and does
not fail, memory is never short, and files can be read and written.
-/

namespace Wirc

/-- libgcrypt, with the hash algorithm and the cipher (and its mode) that the
options of section "crypt" select. -/
structure Gcrypt where
  sha512 : List Byte → List Byte
  hash : List Byte → List Byte
  hashLength : Nat
  keyLength : Nat
  encrypt : (key data : List Byte) → List Byte
  decrypt : (key data : List Byte) → List Byte
  length_hash : ∀ data, (hash data).length = hashLength
  length_encrypt : ∀ key data, key.length = keyLength → (encrypt key data).length = data.length
  decrypt_encrypt : ∀ key data, key.length = keyLength → decrypt key (encrypt key data) = data

def secureSaltSize : Nat := 8
def securePassphraseMaxLength : Nat := 4096
def secureDataPassphraseFlag : Str := lit "__passphrase__"

abbrev Salt := {salt : List Byte // salt.length = secureSaltSize}

/-- The beginning of `SECURE_SALT_DEFAULT`. -/
def secureSaltDefault : Salt := ⟨(lit "WhoreIRC!").take secureSaltSize, by decide⟩

/-- `secure_derive_key`. -/
def secureDeriveKey (g : Gcrypt) (salt : List Byte) (passphrase : Str) : List Byte :=
  (g.sha512 (salt ++ passphrase)).takeD g.keyLength 0

/-- `secure_encrypt_data`. -/
def secureEncryptData (g : Gcrypt) (salt : Salt) (data : List Byte) (passphrase : Str) : List Byte :=
  let key := secureDeriveKey g salt passphrase
  salt ++ g.encrypt key (g.hash data ++ data)

/-- The data after its hash, if the hash is right. -/
def secureCheckHash (g : Gcrypt) (decryptedHashData : List Byte) : Except Int (List Byte) :=
  let data := decryptedHashData.drop g.hashLength
  if g.hash data ≠ decryptedHashData.take g.hashLength then .error (-8) else .ok data

/-- `secure_decrypt_data`: the data, or the code of the error. -/
def secureDecryptData (g : Gcrypt) (buffer : List Byte) (passphrase : Str) : Except Int (List Byte) :=
  if buffer.length ≤ secureSaltSize + g.hashLength then .error (-2)
  else
    let key := secureDeriveKey g (buffer.take secureSaltSize) passphrase
    secureCheckHash g (g.decrypt key (buffer.drop secureSaltSize))

/-! ## State -/

/-- A hashtable with keys and values of type "string". -/
abbrev SecureTable := AList fun _ : Str => CStr

/-- `items_count`. -/
def itemsCount (table : SecureTable) : Nat := table.entries.length

/-- The order of the keys in a table of 32 buckets: by bucket, then by key. -/
def HashtableBefore (a b : Str × CStr) : Prop :=
  (hashtableHashKeyDjb2 a.1).toNat % 32 < (hashtableHashKeyDjb2 b.1).toNat % 32 ∨
    (hashtableHashKeyDjb2 a.1).toNat % 32 = (hashtableHashKeyDjb2 b.1).toNat % 32 ∧ strcmp a.1 b.1 ≤ 0

instance : DecidableRel HashtableBefore := fun _ _ => inferInstanceAs (Decidable (_ ∨ _))

/-- The items in the order in which `hashtable_map` visits them. -/
def hashtableItems (table : SecureTable) : List (Str × CStr) :=
  (table.entries.map fun item => (item.1, item.2)).insertionSort HashtableBefore

/-- The variables `secure_passphrase`, `secure_hashtable_data`,
`secure_hashtable_data_encrypted`, `secure_data_encrypted` and `gui_init_ok`. -/
structure SecureState where
  passphrase : Option Str
  hashtableData : SecureTable
  hashtableDataEncrypted : SecureTable
  dataEncrypted : Bool
  guiInitOk : Bool

/-- `secure_init`, with the value of the environment variable. -/
def secureInit (passphraseEnv : Option Str) : SecureState where
  passphrase := passphraseEnv.filter (· ≠ [])
  hashtableData := ∅
  hashtableDataEncrypted := ∅
  dataEncrypted := false
  guiInitOk := false

/-! ## Reading the file -/

abbrev ConfigLine := Str × Option CStr

/-- What a read of the file meets: the lines of section "data", the content of
the file of option "passphrase_file" (`none` if the option is empty or the file
can not be read), and what the user answers to the prompts. -/
structure SecureRead where
  lines : List ConfigLine
  passphraseFile : Option (List Byte)
  answers : List Str

/-- `secure_config_get_passphrase_from_user`: the passphrase and the answers
left. `none` where the program exits, or still waits for an answer. -/
def secureConfigGetPassphraseFromUser : (answers : List Str) → Option (Option Str × List Str)
  | [] => none
  | passphrase :: answers =>
    if passphrase = [] then secureConfigGetPassphraseFromUser answers
    -- the special value " " (one space) disables passphrase
    else if passphrase = lit " " then some (none, answers)
    -- ctrl-C pressed
    else if passphrase = [3] then none
    else some (some passphrase, answers)

/-- `secure_config_get_passphrase_from_file`. -/
def secureConfigGetPassphraseFromFile (file : Option (List Byte)) : Option Str :=
  file.bind fun bytes =>
    let buffer := (cString (bytes.take 1024)).val
    let buffer := buffer.takeWhile (· ≠ ch '\r')
    let buffer := buffer.takeWhile (· ≠ ch '\n')
    if buffer = [] then none else some buffer

def configBooleanTrue : List Str := [lit "on", lit "yes", lit "y", lit "true", lit "t", lit "1"]

/-- `config_file_string_to_boolean`. -/
def configFileStringToBoolean (text : Str) : Bool :=
  configBooleanTrue.any fun word => stringStrcasecmp text word = 0

theorem secureConfigGetPassphraseFromUser_length {answers answers' : List Str} {passphrase : Option Str}
    (h : secureConfigGetPassphraseFromUser answers = some (passphrase, answers')) :
    answers'.length < answers.length := by
  induction answers with
  | nil => cases h
  | cons a answers ih =>
    rw [secureConfigGetPassphraseFromUser] at h
    split at h
    · exact Nat.lt_succ_of_lt (ih h)
    · split at h
      · cases h
        exact Nat.lt_succ_self _
      · split at h
        · cases h
        · cases h
          exact Nat.lt_succ_self _

/-- `while (1)`: decrypts a value, asking for the passphrase again. -/
def secureConfigDecryptLoop (g : Gcrypt) (state : SecureState) (optionName : Str) (value : CStr)
    (passphrase : Str) (answers : List Str) : Option (SecureState × List Str) :=
  match secureDecryptData g (stringBase16Decode value).2 passphrase with
  | .ok decrypted =>
    some ({ state with passphrase := some passphrase,
                       hashtableData := state.hashtableData.insert optionName (cString decrypted) }, answers)
  | .error _ =>
    -- wrong passphrase: after the start, the line is left out
    if state.guiInitOk then some ({ state with passphrase := some passphrase }, answers)
    else
      match _ : secureConfigGetPassphraseFromUser answers with
      | none => none
      | some (some passphrase, answers) => secureConfigDecryptLoop g state optionName value passphrase answers
      | some (none, answers) =>
        some ({ state with passphrase := none,
                           hashtableDataEncrypted := state.hashtableDataEncrypted.insert optionName value }, answers)
termination_by answers.length
decreasing_by exact secureConfigGetPassphraseFromUser_length ‹_›

/-- The special line indicating if a passphrase must be used to decrypt data. -/
def secureConfigReadFlag (passphraseFile : Option (List Byte)) (state : SecureState) (answers : List Str)
    (value : CStr) : Option (SecureState × List Str) :=
  let state := { state with dataEncrypted := configFileStringToBoolean value }
  if state.dataEncrypted ∧ state.passphrase = none ∧ ¬ state.guiInitOk then
    match secureConfigGetPassphraseFromFile passphraseFile with
    | some passphrase => some ({ state with passphrase := some passphrase }, answers)
    | none => (secureConfigGetPassphraseFromUser answers).map fun r => ({ state with passphrase := r.1 }, r.2)
  else some (state, answers)

/-- `secure_config_data_read_cb`: the state and the answers left. -/
def secureConfigDataReadCb (g : Gcrypt) (passphraseFile : Option (List Byte)) (state : SecureState)
    (answers : List Str) (optionName : Str) (value : Option CStr) : Option (SecureState × List Str) :=
  match value with
  | none => some (state, answers)
  | some value =>
    if value.val = [] then some (state, answers)
    else if optionName = secureDataPassphraseFlag then secureConfigReadFlag passphraseFile state answers value
    else if ¬ state.dataEncrypted then
      some ({ state with hashtableData := state.hashtableData.insert optionName value }, answers)
    else
      match state.passphrase with
      | none =>
        some ({ state with hashtableDataEncrypted := state.hashtableDataEncrypted.insert optionName value }, answers)
      | some passphrase => secureConfigDecryptLoop g state optionName value passphrase answers

/-- The lines of section "data", in `config_file_read_internal`. -/
def secureConfigReadLines (g : Gcrypt) (passphraseFile : Option (List Byte)) (state : SecureState)
    (answers : List Str) : List ConfigLine → Option (SecureState × List Str)
  | [] => some (state, answers)
  | (optionName, value) :: lines =>
    match secureConfigDataReadCb g passphraseFile state answers optionName value with
    | none => none
    | some (state, answers) => secureConfigReadLines g passphraseFile state answers lines

/-- `secure_config_read`. -/
def secureConfigRead (g : Gcrypt) (state : SecureState) (input : SecureRead) : Option SecureState :=
  let state := { state with dataEncrypted := false }
  (secureConfigReadLines g input.passphraseFile state input.answers input.lines).map Prod.fst

/-- `secure_config_reload_cb`. -/
def secureConfigReloadCb (g : Gcrypt) (state : SecureState) (input : SecureRead) : Option SecureState :=
  if itemsCount state.hashtableDataEncrypted > 0 then some state
  else
    let state := { state with dataEncrypted := false, hashtableData := ∅ }
    (secureConfigReadLines g input.passphraseFile state input.answers input.lines).map Prod.fst

/-! ## Writing the file -/

/-- What a write of the file meets: the option "salt", and the random bytes for
the value of each name. -/
structure SecureWrite where
  cryptSalt : Bool
  random : Str → Salt

/-- `secure_config_data_write_map_cb`: the line written. -/
def secureConfigDataWriteMapCb (g : Gcrypt) (input : SecureWrite) (passphrase : Option Str) (key : Str) (value : CStr) :
    ConfigLine :=
  match passphrase with
  | some passphrase =>
    let salt := if input.cryptSalt then input.random key else secureSaltDefault
    let buffer := secureEncryptData g salt (value.val ++ [0]) passphrase
    (key, some (cString (stringBase16Encode buffer).2))
  -- store password as plain text
  | none => (key, some value)

/-- `secure_config_data_write_cb`: the lines written in section "data". -/
def secureConfigDataWriteCb (g : Gcrypt) (input : SecureWrite) (state : SecureState) : List ConfigLine :=
  if itemsCount state.hashtableData > 0 then
    (secureDataPassphraseFlag, some (cString (if state.passphrase.isSome then lit "on" else lit "off"))) ::
      (hashtableItems state.hashtableData).map fun item =>
        secureConfigDataWriteMapCb g input state.passphrase item.1 item.2
  else if itemsCount state.hashtableDataEncrypted > 0 then
    (secureDataPassphraseFlag, some (cString (lit "on"))) ::
      (hashtableItems state.hashtableDataEncrypted).map fun item => (item.1, some item.2)
  else []

/-! ## The command `/secure` -/

/-- One key of the loop of `secure_decrypt_data_not_decrypted`. -/
def secureDecryptKey (g : Gcrypt) (passphrase : Str) (numOk : Nat × SecureState) (key : Str) : Nat × SecureState :=
  match numOk.2.hashtableDataEncrypted.lookup key with
  | none => numOk
  | some value =>
    if value.val = [] then numOk
    else
      match secureDecryptData g (stringBase16Decode value).2 passphrase with
      | .ok decrypted =>
        (numOk.1 + 1,
          { numOk.2 with hashtableData := numOk.2.hashtableData.insert key (cString decrypted),
                         hashtableDataEncrypted := numOk.2.hashtableDataEncrypted.erase key })
      | .error _ => numOk

/-- `secure_decrypt_data_not_decrypted`: the number of decrypted data, and the
state. -/
def secureDecryptDataNotDecrypted (g : Gcrypt) (state : SecureState) (passphrase : Str) : Nat × SecureState :=
  if passphrase = [] then (0, state)
  else
    let names := (hashtableItems state.hashtableDataEncrypted).map Prod.fst
    let flags : SplitFlags := { stripLeft := true, stripRight := true, collapseSeps := true, keepEol := false }
    match stringSplit ([ch ','].intercalate names) (lit ",") none flags 0 with
    | none => (0, state)
    | some keys => keys.foldl (secureDecryptKey g passphrase) (0, state)

/-- The lines that a command writes. -/
abbrev Written := Option (List ConfigLine)

/-- `/secure passphrase`, from the second argument on. -/
def commandSecurePassphrase (g : Gcrypt) (input : SecureWrite) (state : SecureState) (argv2 : Str) (argvEol2 : CStr) :
    SecureState × Written :=
  if argv2 ≠ lit "-delete" ∧ argvEol2.val.length > securePassphraseMaxLength then (state, none)
  else
    let passphraseWasSet := state.passphrase.isSome
    let state := { state with passphrase := if argv2 = lit "-delete" then none else some argvEol2.val }
    if (argv2 = lit "-delete" → passphraseWasSet) ∧ itemsCount state.hashtableData > 0 then
      (state, some (secureConfigDataWriteCb g input state))
    else (state, none)

/-- `COMMAND_CALLBACK(secure)`: `args` are `argv[i]` and `argv_eol[i]`, with the
name of the command first. Too few arguments leave everything unchanged. -/
def commandSecure (g : Gcrypt) (input : SecureWrite) (state : SecureState) (args : List (Str × CStr)) :
    SecureState × Written :=
  match args with
  | _ :: (argv1, _) :: args =>
    let countEncrypted := itemsCount state.hashtableDataEncrypted
    if stringStrcasecmp argv1 (lit "decrypt") = 0 then
      match args with
      | [] => (state, none)
      | (argv2, argvEol2) :: _ =>
        if countEncrypted = 0 then (state, none)
        else if argv2 = lit "-discard" then ({ state with hashtableDataEncrypted := ∅ }, none)
        else
          let r := secureDecryptDataNotDecrypted g state argvEol2
          if r.1 > 0 then ({ r.2 with passphrase := some argvEol2.val }, none) else (r.2, none)
    else if countEncrypted > 0 then (state, none)
    else if stringStrcasecmp argv1 (lit "passphrase") = 0 then
      match args with
      | [] => (state, none)
      | (argv2, argvEol2) :: _ => commandSecurePassphrase g input state argv2 argvEol2
    else if stringStrcasecmp argv1 (lit "set") = 0 then
      match args with
      | (argv2, _) :: (_, argvEol3) :: _ =>
        let state := { state with hashtableData := state.hashtableData.insert argv2 argvEol3 }
        (state, some (secureConfigDataWriteCb g input state))
      | _ => (state, none)
    else if stringStrcasecmp argv1 (lit "del") = 0 then
      match args with
      | [] => (state, none)
      | (argv2, _) :: _ =>
        if argv2 ∈ state.hashtableData then
          let state := { state with hashtableData := state.hashtableData.erase argv2 }
          (state, some (secureConfigDataWriteCb g input state))
        else (state, none)
    else (state, none)
  -- without argument, the buffer with secured data is displayed
  | _ => (state, none)

/-! ## Steps -/

/-- What happens to secured data: the file is read at startup, the interface is
started or ended, the file is reloaded, the user enters `/secure`, the file is
saved. -/
inductive SecureAction
  | read (input : SecureRead)
  | gui (initOk : Bool)
  | reload (input : SecureRead)
  | command (args : List (Str × CStr)) (input : SecureWrite)
  | save (input : SecureWrite)

/-- The state after an action, and the lines of section "data" if the file is
written. -/
def secureStep (g : Gcrypt) (state : SecureState) : SecureAction → Option (SecureState × Written)
  | .read input => (secureConfigRead g state input).map (·, none)
  | .gui initOk => some ({ state with guiInitOk := initOk }, none)
  | .reload input => (secureConfigReloadCb g state input).map (·, none)
  | .command args input => some (commandSecure g input state args)
  | .save input => some (state, some (secureConfigDataWriteCb g input state))

end Wirc

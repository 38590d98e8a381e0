import WhoreIrc.Framework.Cfb
import WhoreIrc.Proof.Secure

/-!
# Files with secured data keep it

What a write does to the entries held (`HoldsAll.write`), what `/secure` can do
(`commandSecure_result`), and the runs in which every file written keeps every
entry owed (`keepsSecuredData`).
-/

namespace Wirc

open Framework

variable {g : Gcrypt}

/-! ## Writing -/

theorem opens_writtenValue (input : SecureWrite) (passphrase key : Str) (secret : CStr) :
    Opens g (writtenValue g input (some passphrase) key secret) passphrase secret := opens_encrypt ..

theorem fileVault_write_data (input : SecureWrite) {state : SecureState} (hdata : state.hashtableData ≠ ∅)
    (hflag : secureDataPassphraseFlag ∉ state.hashtableData) (name : Str) :
    fileVault g (secureConfigDataWriteCb g input state) name =
      (state.hashtableData.lookup name).map fun secret =>
        lineEntry g state.passphrase.isSome (writtenValue g input state.passphrase name secret) := by
  obtain ⟨hon, hoff, hon', hoff'⟩ := configFileStringToBoolean_flags
  unfold secureConfigDataWriteCb
  rw [if_pos (itemsCount_pos.mpr hdata)]
  simp only [secureConfigDataWriteMapCb_eq]
  refine fileVault_items g _ (fun key value => writtenValue g input state.passphrase key value) hflag ?_ ?_ name
  · split
    · exact hon'
    · exact hoff'
  · cases state.passphrase with
    | none => exact hoff
    | some passphrase => exact hon

theorem fileVault_write_encrypted (input : SecureWrite) {state : SecureState} (hdata : state.hashtableData = ∅)
    (hflag : secureDataPassphraseFlag ∉ state.hashtableDataEncrypted) (name : Str) :
    fileVault g (secureConfigDataWriteCb g input state) name =
      (state.hashtableDataEncrypted.lookup name).map fun value => .locked (Opens g value) := by
  obtain ⟨hon, -, hon', -⟩ := configFileStringToBoolean_flags
  unfold secureConfigDataWriteCb
  rw [if_neg (mt itemsCount_pos.mp (not_not_intro hdata))]
  split
  · exact fileVault_items g true (fun _ value => value) hflag hon' hon name
  · next hempty =>
    rw [itemsCount_eq_zero.mp (Nat.eq_zero_of_not_pos hempty)]
    rfl

/-- After a step, the file that it wrote keeps what was owed, and what is owed
now is held. -/
structure Keeps (g : Gcrypt) (state : SecureState) (removed : Prop) (due : Vault) (written : Written) : Prop where
  kept : ∀ file, written = some file → ∀ name entry, due name = some entry →
    Kept state.passphrase removed entry (fileVault g file name)
  holds : HoldsAll g state False (dueAfter g due state written)

theorem HoldsAll.keeps {state : SecureState} {due : Vault} (h : HoldsAll g state False due) (removed : Prop) :
    Keeps g state removed due none where
  kept _ hf := by cases hf
  holds := h

/-- A file written while one table is empty keeps what is held. -/
theorem HoldsAll.write {state : SecureState} {removed : Prop} {due : Vault} (input : SecureWrite)
    (h : HoldsAll g state removed due)
    (hone : state.hashtableData = ∅ ∨ state.hashtableDataEncrypted = ∅) :
    Keeps g state removed due (some (secureConfigDataWriteCb g input state)) := by
  by_cases hdata : state.hashtableData = ∅
  · have hfile := fileVault_write_encrypted (g := g) input hdata h.flag_encrypted
    have hlookup : ∀ name, state.hashtableData.lookup name = none := fun name => by rw [hdata]; rfl
    refine ⟨fun file hf name entry hd => ?_, h.flag_data, h.flag_encrypted, h.oneSecret, fun name entry hd => ?_⟩
    · have hheld := h.held name entry hd
      cases hf
      rw [hfile]
      cases entry with
      | plain secret =>
        rw [Held, hlookup] at hheld
        cases hheld.1
      | locked opens =>
        rcases hheld with ⟨value, hv, hopens⟩ | ⟨secret, hs, -⟩
        · rw [hv]
          exact fun p secret hp => .inl (hopens p secret hp)
        · rw [hlookup] at hs
          cases hs
    · simp only [dueAfter, hfile, Option.map_map, Option.map_eq_some_iff] at hd
      obtain ⟨value, hv, rfl⟩ := hd
      exact .inl ⟨value, hv, fun p secret hp => hp.1⟩
  · have hempty := hone.resolve_left hdata
    have hfile := fileVault_write_data (g := g) input hdata h.flag_data
    have hlookup : ∀ name, state.hashtableDataEncrypted.lookup name = none := fun name => by rw [hempty]; rfl
    refine ⟨fun file hf name entry hd => ?_, h.flag_data, h.flag_encrypted, h.oneSecret, fun name entry hd => ?_⟩
    · have hheld := h.held name entry hd
      cases hf
      rw [hfile]
      cases entry with
      | plain secret =>
        rw [hheld.1]
        cases hp : state.passphrase with
        | none => exact rfl
        | some q => exact ⟨q, rfl, opens_writtenValue input q name secret⟩
      | locked opens =>
        rcases hheld with ⟨value, hv, -⟩ | ⟨secret, hs, -, hpass, hopens⟩
        · rw [hlookup] at hv
          cases hv
        · rw [hs]
          cases hp : state.passphrase with
          | none => exact ⟨hpass.resolve_left (by simp [hp]), hopens⟩
          | some q =>
            intro p secret' hp'
            rw [← hopens p secret' hp']
            exact .inr ⟨q, rfl, opens_writtenValue input q name secret⟩
    · simp only [dueAfter, hfile, Option.map_map, Option.map_eq_some_iff] at hd
      obtain ⟨secret, hs, rfl⟩ := hd
      cases hp : state.passphrase with
      | none =>
        exact ⟨hs, hlookup name⟩
      | some q =>
        refine .inr ⟨secret, hs, hlookup name, .inl (by rw [hp]; rfl), ?_⟩
        rintro p secret' ⟨hp', hq⟩
        have hopens := opens_writtenValue (g := g) input q name secret
        rw [hq q rfl ⟨secret, hopens⟩] at hp'
        exact hopens.unique hp'

/-! ## Commands -/

/-- What `/secure` does for a request. -/
inductive CommandResult (g : Gcrypt) (input : SecureWrite) (state : SecureState) :
    Request → SecureState → Written → Prop
  | unchanged {r : Request} (hr : ∀ name value, r = .set name value → itemsCount state.hashtableDataEncrypted > 0) :
      CommandResult g input state r state none
  | discard : CommandResult g input state .discard { state with hashtableDataEncrypted := ∅ } none
  | decrypt (passphrase : Str) (h : (secureDecryptDataNotDecrypted g state passphrase).1 > 0) :
      CommandResult g input state .other
        { (secureDecryptDataNotDecrypted g state passphrase).2 with passphrase := some passphrase } none
  | passphrase {r : Request} {p : Option Str} {written : Written}
      (hr : r = .other ∧ p.isSome ∨ r = .removePassphrase ∧ p = none)
      (hempty : state.hashtableDataEncrypted = ∅)
      (hwritten : written = some (secureConfigDataWriteCb g input { state with passphrase := p }) ∨
        written = none ∧ (state.hashtableData = ∅ ∨ (state.passphrase.isSome → p.isSome))) :
      CommandResult g input state r { state with passphrase := p } written
  | set (name : Str) (value : CStr) (hempty : state.hashtableDataEncrypted = ∅) :
      CommandResult g input state (.set name value)
        { state with hashtableData := state.hashtableData.insert name value }
        (some (secureConfigDataWriteCb g input
          { state with hashtableData := state.hashtableData.insert name value }))
  | del (name : Str) (hempty : state.hashtableDataEncrypted = ∅) :
      CommandResult g input state (.del name)
        { state with hashtableData := state.hashtableData.erase name }
        (some (secureConfigDataWriteCb g input
          { state with hashtableData := state.hashtableData.erase name }))

theorem commandSecurePassphrase_result (input : SecureWrite) (state : SecureState) (argv2 : Str) (argvEol2 : CStr)
    (hempty : state.hashtableDataEncrypted = ∅) :
    CommandResult g input state (if argv2 = lit "-delete" then .removePassphrase else .other)
      (commandSecurePassphrase g input state argv2 argvEol2).1
      (commandSecurePassphrase g input state argv2 argvEol2).2 := by
  unfold commandSecurePassphrase
  by_cases hdelete : argv2 = lit "-delete"
  · simp only [hdelete, ne_eq, not_true_eq_false, false_and, if_false, if_true, forall_const]
    by_cases hwrite : state.passphrase.isSome = true ∧ itemsCount state.hashtableData > 0
    · rw [if_pos hwrite]
      exact .passphrase (.inr ⟨rfl, rfl⟩) hempty (.inl rfl)
    · rw [if_neg hwrite]
      refine .passphrase (.inr ⟨rfl, rfl⟩) hempty (.inr ⟨rfl, ?_⟩)
      by_cases hdata : state.hashtableData = ∅
      · exact .inl hdata
      · exact .inr fun hset => absurd ⟨hset, itemsCount_pos.mpr hdata⟩ hwrite
  · simp only [hdelete, ne_eq, not_false_eq_true, true_and, if_false, IsEmpty.forall_iff]
    split
    · exact .unchanged fun _ _ h => by cases h
    · split
      · exact .passphrase (.inl ⟨rfl, rfl⟩) hempty (.inl rfl)
      · exact .passphrase (.inl ⟨rfl, rfl⟩) hempty (.inr ⟨rfl, .inr fun _ => rfl⟩)

theorem commandSecure_result (g : Gcrypt) (input : SecureWrite) (state : SecureState) (args : List (Str × CStr)) :
    CommandResult g input state (request args) (commandSecure g input state args).1
      (commandSecure g input state args).2 := by
  rcases args with _ | ⟨argv0, _ | ⟨⟨argv1, argvEol1⟩, args⟩⟩
  · exact .unchanged fun _ _ h => by cases h
  · exact .unchanged fun _ _ h => by cases h
  rcases args with _ | ⟨⟨argv2, argvEol2⟩, args⟩
  · -- too few arguments for every option
    have hsame : commandSecure g input state [argv0, (argv1, argvEol1)] = (state, none) := by
      simp only [commandSecure, ite_self]
    rw [hsame]
    exact .unchanged fun _ _ h => by cases h
  unfold commandSecure request
  dsimp only
  by_cases hdecrypt : stringStrcasecmp argv1 (lit "decrypt") = 0
  · simp only [if_pos hdecrypt]
    by_cases hdiscard : argv2 = lit "-discard"
    · simp only [if_pos hdiscard]
      split
      · exact .unchanged fun _ _ h => by cases h
      · exact .discard
    · simp only [if_neg hdiscard]
      split
      · exact .unchanged fun _ _ h => by cases h
      · split
        · next hok => exact .decrypt argvEol2 hok
        · next hok =>
          rw [secureDecryptDataNotDecrypted_zero (Nat.eq_zero_of_not_pos hok)]
          exact .unchanged fun _ _ h => by cases h
  simp only [if_neg hdecrypt]
  by_cases hcount : itemsCount state.hashtableDataEncrypted > 0
  · rw [if_pos hcount]
    exact .unchanged fun _ _ _ => hcount
  have hempty := itemsCount_eq_zero.mp (Nat.eq_zero_of_not_pos hcount)
  rw [if_neg hcount]
  by_cases hpassphrase : stringStrcasecmp argv1 (lit "passphrase") = 0
  · simp only [if_pos hpassphrase]
    exact commandSecurePassphrase_result input state argv2 argvEol2 hempty
  simp only [if_neg hpassphrase]
  by_cases hset : stringStrcasecmp argv1 (lit "set") = 0
  · simp only [if_pos hset]
    rcases args with _ | ⟨⟨argv3, argvEol3⟩, args⟩
    · exact .unchanged fun _ _ h => by cases h
    · exact .set argv2 argvEol3 hempty
  simp only [if_neg hset]
  by_cases hdel : stringStrcasecmp argv1 (lit "del") = 0
  · simp only [if_pos hdel]
    split
    · exact .del argv2 hempty
    · exact .unchanged fun _ _ h => by cases h
  · simp only [if_neg hdel]
    exact .unchanged fun _ _ h => by cases h

theorem requestVault_some {state : SecureState} {due : Vault} {r : Request}
    (hr : ∀ name value, r = .set name value → itemsCount state.hashtableDataEncrypted > 0) {name : Str}
    {entry : Entry} (h : requestVault state due r name = some entry) : due name = some entry := by
  cases r with
  | discard =>
    dsimp only [requestVault] at h
    split at h
    · cases h
    · exact h
  | removePassphrase => exact h
  | set key value => rwa [requestVault, if_pos (hr key value rfl)] at h
  | del key =>
    rw [requestVault] at h
    split at h
    · exact h
    · by_cases hn : name = key
      · rw [hn, Function.update_self] at h
        cases h
      · rwa [Function.update_of_ne hn] at h
  | other => exact h

/-- Owing less, or changing the passphrase while no secret is decrypted. -/
theorem HoldsAll.mono {state : SecureState} {removed : Prop} {due due' : Vault} (h : HoldsAll g state removed due)
    (hle : ∀ name entry, due' name = some entry → due name = some entry) : HoldsAll g state removed due' :=
  ⟨h.flag_data, h.flag_encrypted, h.oneSecret, fun name entry hd => h.held name entry (hle name entry hd)⟩

theorem HoldsAll.passphrase_of_empty {state : SecureState} {due : Vault} (h : HoldsAll g state False due)
    (hdata : state.hashtableData = ∅) (p : Option Str) :
    HoldsAll g { state with passphrase := p } False due := by
  refine ⟨h.flag_data, h.flag_encrypted, h.oneSecret, fun name entry hd => ?_⟩
  have hheld := h.held name entry hd
  cases entry with
  | plain secret => exact hheld
  | locked opens =>
    rcases hheld with hv | ⟨secret, hs, -⟩
    · exact .inl hv
    · rw [hdata] at hs
      cases hs

/-- A command keeps what is held, and so does the file it writes. -/
theorem HoldsAll.command {input : SecureWrite} {state state' : SecureState} {due : Vault} {r : Request}
    {written : Written} (h : HoldsAll g state False due)
    (hset : ∀ name value, r = .set name value → name ≠ secureDataPassphraseFlag)
    (hresult : CommandResult g input state r state' written) :
    Keeps g state' (r = .removePassphrase) (requestVault state due r) written := by
  cases hresult with
  | unchanged hr => exact (h.mono fun _ _ => requestVault_some hr).keeps _
  | discard =>
    suffices hafter : HoldsAll g { state with hashtableDataEncrypted := ∅ } False (requestVault state due .discard) from
      hafter.keeps _
    refine ⟨h.flag_data, AList.notMem_empty _, fun _ _ hv => (by cases hv), fun name entry hd => ?_⟩
    dsimp only [requestVault] at hd
    split at hd
    · cases hd
    · next hn =>
      have hnone := AList.lookup_eq_none.mpr hn
      have hheld := h.held name entry hd
      cases entry with
      | plain secret => exact ⟨hheld.1, rfl⟩
      | locked opens =>
        rcases hheld with ⟨value, hv, -⟩ | ⟨secret, hs, -, hp, hopens⟩
        · rw [hnone] at hv
          cases hv
        · exact .inr ⟨secret, hs, rfl, hp, hopens⟩
  | decrypt passphrase hok => exact (h.decryptNotDecrypted passphrase).keeps _
  | passphrase hr hempty hwritten =>
    rename_i p
    have hdue : requestVault state due r = due := by
      rcases hr with ⟨rfl, -⟩ | ⟨rfl, -⟩
      · rfl
      · rfl
    rw [hdue]
    rcases hwritten with rfl | ⟨rfl, hdata | hp⟩
    · refine HoldsAll.write input (h.frame rfl rfl fun _ => ?_) (.inr hempty)
      rcases hr with ⟨-, hp⟩ | ⟨hr, -⟩
      · exact .inl hp
      · exact .inr hr
    · exact (h.passphrase_of_empty hdata p).keeps _
    · have hafter : HoldsAll g { state with passphrase := p } False due := h.frame rfl rfl (Or.imp_left hp)
      exact hafter.keeps _
  | set name value hempty =>
    have hcount : ¬ itemsCount state.hashtableDataEncrypted > 0 := mt itemsCount_pos.mp (not_not_intro hempty)
    have hinsert : HoldsAll g { state with hashtableData := state.hashtableData.insert name value } False
        (Function.update due name (some (.plain value))) :=
      h.insert_data (hset name value rfl) (by rw [hempty]; rfl) id (.inl rfl)
    rw [requestVault, if_neg hcount]
    exact HoldsAll.write input (hinsert.frame rfl rfl (Or.imp_right False.elim)) (.inr hempty)
  | del name hempty =>
    have hcount : ¬ itemsCount state.hashtableDataEncrypted > 0 := mt itemsCount_pos.mp (not_not_intro hempty)
    rw [requestVault, if_neg hcount]
    refine HoldsAll.write input ⟨?_, h.flag_encrypted, h.oneSecret, fun n entry hd => ?_⟩ (.inr hempty)
    · rw [AList.mem_erase]
      exact fun hc => h.flag_data hc.2
    · by_cases hn : n = name
      · rw [hn, Function.update_self] at hd
        cases hd
      · rw [Function.update_of_ne hn] at hd
        exact (h.held n entry hd).frame (AList.lookup_erase_ne hn) rfl (Or.imp_right False.elim)

/-! ## Runs -/

/-- A step that meets the condition. -/
theorem HoldsAll.step {state state' : SecureState} {due : Vault} {action : SecureAction} {written : Written}
    (h : HoldsAll g state False due) (hmeets : ActionMeets g state action)
    (hstep : secureStep g state action = some (state', written)) :
    Keeps g state' (RemovesPassphrase action) (owed g state due action) written := by
  cases action with
  | read input =>
    obtain ⟨state₁, hread, heq⟩ := Option.map_eq_some_iff.mp hstep
    cases heq
    obtain ⟨⟨state₂, answers⟩, hlines, rfl⟩ := Option.map_eq_some_iff.mp hread
    have hstart : HoldsAll g { state with dataEncrypted := false } False due := h.frame rfl rfl id
    exact (hstart.readLines hmeets hlines).keeps _
  | gui initOk =>
    cases hstep
    have hafter : HoldsAll g { state with guiInitOk := initOk } False due := h.frame rfl rfl id
    exact hafter.keeps _
  | reload input =>
    obtain ⟨state₁, hread, heq⟩ := Option.map_eq_some_iff.mp hstep
    cases heq
    rw [owed]
    rw [secureConfigReloadCb] at hread
    by_cases hcount : itemsCount state.hashtableDataEncrypted > 0
    · rw [if_pos hcount] at hread ⊢
      cases hread
      exact h.keeps _
    · rw [if_neg hcount] at hread ⊢
      obtain ⟨⟨state₂, answers⟩, hlines, rfl⟩ := Option.map_eq_some_iff.mp hread
      -- nothing is owed before the lines are read
      have hstart : HoldsAll g { state with dataEncrypted := false, hashtableData := ∅ } False (fun _ => none) :=
        ⟨AList.notMem_empty _, h.flag_encrypted, h.oneSecret, fun _ _ hd => (by cases hd)⟩
      exact (hstart.readLines (hmeets (Nat.eq_zero_of_not_pos hcount)) hlines).keeps _
  | command args input =>
    have heq : commandSecure g input state args = (state', written) := Option.some.inj hstep
    have hresult := commandSecure_result g input state args
    rw [heq] at hresult
    exact h.command hmeets hresult
  | save input =>
    cases hstep
    refine HoldsAll.write input (h.frame rfl rfl (Or.imp_right False.elim)) ?_
    exact Or.imp itemsCount_eq_zero.mp itemsCount_eq_zero.mp hmeets

theorem secureRun_holdsAll {state : SecureState} {due : Vault} (hrun : SecureRun g (ActionMeets g) state due) :
    HoldsAll g state False due := by
  induction hrun with
  | init passphraseEnv =>
    exact ⟨AList.notMem_empty _, AList.notMem_empty _, fun _ _ hv => (by cases hv), fun _ _ hd => (by cases hd)⟩
  | step _ hmeets hstep ih => exact (ih.step hmeets hstep).holds

/-- In every run whose steps meet the condition, every file written keeps every
entry owed. -/
theorem keepsSecuredData (g : Gcrypt) : KeepsSecuredData g (ActionMeets g) := by
  intro state due action state' file hrun hmeets hstep
  exact ((secureRun_holdsAll hrun).step hmeets hstep).kept file rfl

/-! ## Runs with the secret "s", locked with "x" -/

/-- The bytes of a number, the most significant first. -/
def numberBytes : (length n : Nat) → List Byte
  | 0, _ => []
  | length + 1, n => numberBytes length (n / 256) ++ [UInt8.ofNat n]

/-- SHA-512 of the passphrases "x" and "y", after the default salt. -/
def exampleSha512 : List (List Byte × List Byte) :=
  [(lit "WhoreIRCx",
      numberBytes 32 0x3CC3AFEAE8E9B71358F4F97DEF40E3CA55E51F7D6B143F54648429B5B072773C ++
      numberBytes 32 0xBEEBE6C61EC25CBF9FA95342E517FDA00BBC95A053EE54AAD87B51B83A3F8DB3),
   (lit "WhoreIRCy",
      numberBytes 32 0x80BF0FAC064324465DD120C002194815ABB9BAE0C1EC8055E5F2ADA269B722F3 ++
      numberBytes 32 0x5DFA6C2EEB8129EC2C3B70B960ABDB6D093D3B50921013F6AFA350AAADC3BD1A)]

def exampleKeyX : List Byte := numberBytes 32 0x3CC3AFEAE8E9B71358F4F97DEF40E3CA55E51F7D6B143F54648429B5B072773C
def exampleKeyY : List Byte := numberBytes 32 0x80BF0FAC064324465DD120C002194815ABB9BAE0C1EC8055E5F2ADA269B722F3

/-- SHA-256 of the secret, and of what comes instead of it with the passphrase
"y". -/
def exampleHash : List (List Byte × List Byte) :=
  [(numberBytes 2 0x7300, numberBytes 32 0x28A3D6D537E5D5090D33C042AD97DB2081E47F9CC713E983EBB94121172153C8),
   (numberBytes 2 0x2506, numberBytes 32 0xDD26C551AB691DE48D30093DBEE7009FC160173B9DF0DE3D2CAEB1DC66D4B689)]

/-- Blocks of AES-256. -/
def exampleBlocks : List ((List Byte × List Byte) × List Byte) :=
  [((exampleKeyX, numberBytes 16 0), numberBytes 16 0x65659EE777C8AC2BDE0D3B46F234DB8E),
   ((exampleKeyX, numberBytes 16 0x4DC64832402D7922D33EFB045FA300AE), numberBytes 16 0x198DD725267772655B617F2D31D03C24),
   ((exampleKeyX, numberBytes 16 0x9869A8B9E1649BE6B0D83E0C26F16FEC), numberBytes 16 0xE51ACE9E22FBE9DC747E999056702047),
   ((exampleKeyY, numberBytes 16 0), numberBytes 16 0x24B72D16392D09FA172E84D603F11C38),
   ((exampleKeyY, numberBytes 16 0x4DC64832402D7922D33EFB045FA300AE), numberBytes 16 0x79801E71542A84D2C0CA7B415F78F3C7),
   ((exampleKeyY, numberBytes 16 0x9869A8B9E1649BE6B0D83E0C26F16FEC), numberBytes 16 0xB31C35F3AC302625AA313BEB694D433B),
   ((exampleKeyY, numberBytes 16 0x0C14FBC30EC8DCF31A1D4494AE66C718), numberBytes 16 0x059775A5FF59AD5DA56BE7ED75E83AC1),
   ((exampleKeyY, numberBytes 16 0x84730A39384A44DE4ED2A6CC62C96909), numberBytes 16 0x601BDBF09527A6768994B5195DA6302A)]

/-- The entry of a table, zeros for what is not in it. -/
def exampleEntry {K : Type} [BEq K] (table : List (K × List Byte)) (n : Nat) (key : K) : List Byte :=
  ((table.lookup key).getD []).takeD n 0

/-- libgcrypt with AES-256 in CFB mode and SHA-256, on the data of the examples. -/
def exampleGcrypt : Gcrypt :=
  let aes256 : BlockCipher :=
    { size := 16
      block := fun key input => exampleEntry exampleBlocks 16 (key, input)
      size_pos := by decide
      length_block := fun _ _ => List.takeD_length .. }
  { sha512 := exampleEntry exampleSha512 64
    hash := exampleEntry exampleHash 32
    hashLength := 32
    keyLength := 32
    encrypt := fun key data => cfbEncrypt aes256 key (List.replicate 16 0) data
    decrypt := fun key data => cfbDecrypt aes256 key (List.replicate 16 0) data
    length_hash := fun _ => List.takeD_length ..
    length_encrypt := fun key data _ => length_cfbEncrypt aes256 key _ data
    decrypt_encrypt := fun key data _ => cfbDecrypt_cfbEncrypt aes256 key _ data }

/-- The secret, encrypted with the passphrase "x". -/
def exampleValue : CStr :=
  cString (stringBase16Encode
    (numberBytes 42 0x57686F72654952434DC64832402D7922D33EFB045FA300AE9869A8B9E1649BE6B0D83E0C26F16FEC961A)).2

def exampleLines : List ConfigLine :=
  [(secureDataPassphraseFlag, some (cString (lit "on"))), (lit "a", some exampleValue)]

theorem exampleValue_decrypt :
    secureDecryptData exampleGcrypt (stringBase16Decode exampleValue).2 (lit "x") = .ok (numberBytes 2 0x7300) := by
  decide +kernel

/-- The keys of all passphrases, with the default salt. -/
theorem exampleGcrypt_key (passphrase : Str) :
    secureDeriveKey exampleGcrypt secureSaltDefault passphrase = exampleKeyX ∨
      secureDeriveKey exampleGcrypt secureSaltDefault passphrase = exampleKeyY ∨
      secureDeriveKey exampleGcrypt secureSaltDefault passphrase = List.replicate 32 0 := by
  change (exampleEntry exampleSha512 64 (secureSaltDefault ++ passphrase)).takeD 32 0 = _ ∨
    (exampleEntry exampleSha512 64 (secureSaltDefault ++ passphrase)).takeD 32 0 = _ ∨
    (exampleEntry exampleSha512 64 (secureSaltDefault ++ passphrase)).takeD 32 0 = _
  generalize secureSaltDefault.val ++ passphrase = data
  by_cases hx : data = lit "WhoreIRCx"
  · rw [hx]
    exact .inl (by decide)
  by_cases hy : data = lit "WhoreIRCy"
  · rw [hy]
    exact .inr (.inl (by decide))
  have hnone : exampleSha512.lookup data = none := by
    simp only [exampleSha512, List.lookup_cons, beq_eq_false_iff_ne.mpr hx, beq_eq_false_iff_ne.mpr hy,
      List.lookup_nil]
  rw [exampleEntry, hnone]
  exact .inr (.inr (by decide))

/-- Only the key of "x" opens the value. -/
theorem exampleValue_secret {passphrase : Str} {data : List Byte}
    (h : secureDecryptData exampleGcrypt (stringBase16Decode exampleValue).2 passphrase = .ok data) :
    data = numberBytes 2 0x7300 := by
  have hsalt : (stringBase16Decode exampleValue).2.take secureSaltSize = secureSaltDefault := by decide +kernel
  have hlong : ¬ (stringBase16Decode exampleValue).2.length ≤ secureSaltSize + exampleGcrypt.hashLength := by
    decide +kernel
  rw [secureDecryptData, if_neg hlong, hsalt] at h
  rcases exampleGcrypt_key passphrase with hkey | hkey | hkey
  · have hx : secureCheckHash exampleGcrypt (exampleGcrypt.decrypt exampleKeyX
        ((stringBase16Decode exampleValue).2.drop secureSaltSize)) = .ok (numberBytes 2 0x7300) := by decide +kernel
    rw [hkey, hx] at h
    exact (Except.ok.inj h).symm
  · have hy : secureCheckHash exampleGcrypt (exampleGcrypt.decrypt exampleKeyY
        ((stringBase16Decode exampleValue).2.drop secureSaltSize)) = .error (-8) := by decide +kernel
    rw [hkey, hy] at h
    cases h
  · have h0 : secureCheckHash exampleGcrypt (exampleGcrypt.decrypt (List.replicate 32 0)
        ((stringBase16Decode exampleValue).2.drop secureSaltSize)) = .error (-8) := by decide +kernel
    rw [hkey, h0] at h
    cases h

theorem exampleValue_oneSecret : OneSecret exampleGcrypt exampleValue := by
  rintro p q secret secret' ⟨data, hp, rfl⟩ ⟨data', hq, rfl⟩
  rw [exampleValue_secret hp, exampleValue_secret hq]

theorem fileVault_exampleLines :
    fileVault exampleGcrypt exampleLines (lit "a") = some (.locked (Opens exampleGcrypt exampleValue)) := by
  have hflag : lit "a" ≠ secureDataPassphraseFlag := by decide
  obtain ⟨hon, -, hon', -⟩ := configFileStringToBoolean_flags
  simp only [fileVault, exampleLines, linesVault, lineFlag, lineVault, if_neg hflag, hon, hon', ne_eq,
    not_false_eq_true, and_true, if_true]
  exact Function.update_self ..

/-- States are compared by their items. -/
instance : DecidableEq SecureState := fun a b =>
  decidable_of_iff
    (a.passphrase = b.passphrase ∧ a.hashtableData.entries = b.hashtableData.entries ∧
      a.hashtableDataEncrypted.entries = b.hashtableDataEncrypted.entries ∧
      a.dataEncrypted = b.dataEncrypted ∧ a.guiInitOk = b.guiInitOk) <| by
    rw [SecureState.mk.injEq, AList.ext_iff, AList.ext_iff]

instance : DecidableEq Written := inferInstanceAs (DecidableEq (Option (List ConfigLine)))

/-- The state with a passphrase, and some decrypted data. -/
def exampleState (passphrase : Option Str) (data : SecureTable) (dataEncrypted guiInitOk : Bool) : SecureState :=
  ⟨passphrase, data, ∅, dataEncrypted, guiInitOk⟩

def exampleData : SecureTable := (∅ : SecureTable).insert (lit "a") (cString (lit "s"))

def exampleWrite : SecureWrite := ⟨false, fun _ => secureSaltDefault⟩

/-- `/secure passphrase y`. -/
def exampleCommand : SecureAction :=
  .command [(lit "/secure", cString (lit "/secure passphrase y")), (lit "passphrase", cString (lit "passphrase y")),
    (lit "y", cString (lit "y"))] exampleWrite

theorem request_exampleCommand :
    request [(lit "/secure", cString (lit "/secure passphrase y")), (lit "passphrase", cString (lit "passphrase y")),
      (lit "y", cString (lit "y"))] = .other := by
  decide +kernel

/-- The file is read with the passphrase "x", and the interface is started. -/
theorem exampleRun : SecureRun exampleGcrypt (ActionMeets exampleGcrypt)
    (exampleState (some (lit "x")) exampleData true true) (fileVault exampleGcrypt exampleLines) := by
  have hflag : secureConfigDataReadCb exampleGcrypt none (exampleState (some (lit "x")) ∅ false false) []
      secureDataPassphraseFlag (some (cString (lit "on"))) =
      some (exampleState (some (lit "x")) ∅ true false, []) := by decide +kernel
  have hread : secureStep exampleGcrypt (secureInit (some (lit "x"))) (.read ⟨exampleLines, none, []⟩) =
      some (exampleState (some (lit "x")) exampleData true false, none) := by decide +kernel
  have hmeets : ActionMeets exampleGcrypt (secureInit (some (lit "x"))) (.read ⟨exampleLines, none, []⟩) := by
    refine ⟨fun _ _ hne => absurd rfl hne, fun state answers h => ?_⟩
    cases hflag.symm.trans h
    refine ⟨fun value hvalue _ => ?_, fun _ _ _ => trivial⟩
    cases hvalue
    refine ⟨by decide, fun _ => AList.notMem_empty _, fun _ => exampleValue_oneSecret, ?_⟩
    rintro - passphrase hp hwrong
    cases hp
    exact absurd ⟨_, exampleValue_decrypt, rfl⟩ (hwrong _)
  exact .step (.step (.init (some (lit "x"))) hmeets hread) (show ActionMeets _ _ (.gui true) from trivial) rfl

theorem keepsSecuredData_rekey :
    ∃ file, secureStep exampleGcrypt (exampleState (some (lit "x")) exampleData true true) exampleCommand =
        some (exampleState (some (lit "y")) exampleData true true, some file) ∧
      Kept (some (lit "y")) (RemovesPassphrase exampleCommand) (.locked (Opens exampleGcrypt exampleValue))
        (fileVault exampleGcrypt file (lit "a")) := by
  have hstep : secureStep exampleGcrypt (exampleState (some (lit "x")) exampleData true true) exampleCommand =
      some (exampleState (some (lit "y")) exampleData true true,
        some (secureConfigDataWriteCb exampleGcrypt exampleWrite
          (exampleState (some (lit "y")) exampleData true true))) := by decide +kernel
  refine ⟨_, hstep, ?_⟩
  refine keepsSecuredData exampleGcrypt _ _ exampleCommand _ _ exampleRun ?_ hstep (lit "a") _ ?_
  · rintro name value h
    rw [request_exampleCommand] at h
    cases h
  · exact (congrFun (congrArg (requestVault _ _) request_exampleCommand) _).trans fileVault_exampleLines

/-- A file is reloaded with another passphrase than the one that protects it:
its entry is not in the next file written. -/
theorem keepsSecuredData_fails : ¬ ∀ g, KeepsSecuredData g fun _ _ => True := by
  intro h
  have hcommand : secureStep exampleGcrypt (exampleState none ∅ false true) exampleCommand =
      some (exampleState (some (lit "y")) ∅ false true, none) := by decide +kernel
  have hreload : secureStep exampleGcrypt (exampleState (some (lit "y")) ∅ false true)
      (.reload ⟨exampleLines, none, []⟩) = some (exampleState (some (lit "y")) ∅ true true, none) := by decide +kernel
  have hsave : secureStep exampleGcrypt (exampleState (some (lit "y")) ∅ true true) (.save exampleWrite) =
      some (exampleState (some (lit "y")) ∅ true true, some []) := by decide
  have hstart : SecureRun exampleGcrypt (fun _ _ => True) (exampleState none ∅ false true) _ :=
    .step (.init none) trivial (show secureStep exampleGcrypt _ (.gui true) = _ from rfl)
  have hrun := (hstart.step trivial hcommand).step trivial hreload
  exact h exampleGcrypt _ _ _ _ _ hrun trivial hsave (lit "a") _ fileVault_exampleLines

end Wirc

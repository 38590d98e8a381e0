import WhoreIrc.Proof.Base
import WhoreIrc.Proof.CString
import WhoreIrc.Spec.Secure

/-!
# Secured data

A value decrypts to the secret it was made from (`opens_encrypt`), and the file
written stores each item of the table it was written from (`fileVault_items`).
Along a run, each entry owed is held in memory (`Held`).
-/

namespace Wirc

/-! ## Values -/

theorem secureDeriveKey_length (g : Gcrypt) (salt : List Byte) (passphrase : Str) :
    (secureDeriveKey g salt passphrase).length = g.keyLength := List.takeD_length ..

theorem secureDecryptData_encrypt (g : Gcrypt) (salt : Salt) {data : List Byte} (hdata : data ≠ []) (passphrase : Str) :
    secureDecryptData g (secureEncryptData g salt data passphrase) passphrase = .ok data := by
  have hkey := secureDeriveKey_length g salt passphrase
  have hlen : 0 < data.length := List.length_pos_iff.mpr hdata
  have htake : (secureEncryptData g salt data passphrase).take secureSaltSize = salt := List.take_left' salt.2
  have hdrop : (secureEncryptData g salt data passphrase).drop secureSaltSize =
      g.encrypt (secureDeriveKey g salt passphrase) (g.hash data ++ data) := List.drop_left' salt.2
  have hlong : ¬ (secureEncryptData g salt data passphrase).length ≤ secureSaltSize + g.hashLength := by
    unfold secureEncryptData
    simp only [List.length_append, salt.2, g.length_encrypt _ _ hkey, g.length_hash]
    omega
  unfold secureDecryptData secureCheckHash
  simp only [if_neg hlong, htake, hdrop, g.decrypt_encrypt _ _ hkey, List.drop_left' (g.length_hash data),
    List.take_left' (g.length_hash data), ne_eq, not_true_eq_false, if_false]

theorem hexa_byte : ∀ n < 16, hexa.getD n 0 ≠ 0 ∧ hexa.getD n 0 ≠ ch '\r' ∧ hexa.getD n 0 ≠ ch '\n' := by decide

/-- The text of some bytes is on one line. -/
theorem base16EncodeLoop_oneLine (bytes : List Byte) :
    ∀ c ∈ base16EncodeLoop bytes, c ≠ 0 ∧ c ≠ ch '\r' ∧ c ≠ ch '\n' := by
  induction bytes with
  | nil => simp [base16EncodeLoop]
  | cons b bytes ih =>
    have hb := b.toNat_lt
    intro c hc
    rw [base16EncodeLoop, List.mem_cons, List.mem_cons] at hc
    rcases hc with rfl | rfl | hc
    · exact hexa_byte (b.toNat / 16) (by omega)
    · exact hexa_byte (b.toNat % 16) (by omega)
    · exact ih c hc

theorem base16EncodeLoop_not_mem (bytes : List Byte) : 0 ∉ base16EncodeLoop bytes := fun h =>
  (base16EncodeLoop_oneLine bytes 0 h).1 rfl

/-- The text stored for some bytes gives them back. -/
theorem stringBase16Decode_encode (bytes : List Byte) :
    (stringBase16Decode (cString (stringBase16Encode bytes).2)).2 = bytes := by
  unfold stringBase16Decode stringBase16Encode
  rw [cString_of_not_mem (base16EncodeLoop_not_mem bytes)]
  exact base16DecodeLoop_encodeLoop bytes

theorem Opens.unique {g : Gcrypt} {value secret secret' : CStr} {passphrase : Str}
    (h : Opens g value passphrase secret) (h' : Opens g value passphrase secret') : secret = secret' := by
  obtain ⟨data, hd, rfl⟩ := h
  obtain ⟨data', hd', rfl⟩ := h'
  rw [hd] at hd'
  cases hd'
  rfl

theorem opens_encrypt (g : Gcrypt) (salt : Salt) (secret : CStr) (passphrase : Str) :
    Opens g (cString (stringBase16Encode (secureEncryptData g salt (secret.val ++ [0]) passphrase)).2)
      passphrase secret := by
  refine ⟨secret.val ++ [0], ?_, (cString_append_zero secret).symm⟩
  rw [stringBase16Decode_encode]
  exact secureDecryptData_encrypt g salt (by simp) passphrase

/-- A value that an error is returned for is opened by no secret. -/
theorem not_opens_of_error {g : Gcrypt} {value : CStr} {passphrase : Str} {e : Int}
    (h : secureDecryptData g (stringBase16Decode value).2 passphrase = .error e) (secret : CStr) :
    ¬ Opens g value passphrase secret := by
  rintro ⟨data, hd, -⟩
  rw [h] at hd
  cases hd

/-! ## Tables -/

theorem itemsCount_eq_zero {table : SecureTable} : itemsCount table = 0 ↔ table = ∅ := by
  unfold itemsCount
  rw [List.length_eq_zero_iff]
  exact ⟨fun h => AList.ext h, fun h => by rw [h]; rfl⟩

theorem itemsCount_pos {table : SecureTable} : itemsCount table > 0 ↔ table ≠ ∅ := by
  rw [gt_iff_lt, Nat.pos_iff_ne_zero, ne_eq, itemsCount_eq_zero]

theorem mem_hashtableItems {table : SecureTable} {name : Str} {value : CStr} :
    (name, value) ∈ hashtableItems table ↔ table.lookup name = some value := by
  unfold hashtableItems
  rw [List.mem_insertionSort, List.mem_map, ← Option.mem_def, AList.mem_lookup_iff]
  constructor
  · rintro ⟨⟨n, v⟩, h, heq⟩
    cases heq
    exact h
  · exact fun h => ⟨⟨name, value⟩, h, rfl⟩

theorem hashtableItems_nodup (table : SecureTable) : ((hashtableItems table).map Prod.fst).Nodup := by
  have hperm : ((hashtableItems table).map Prod.fst).Perm table.keys := by
    refine ((List.perm_insertionSort _ _).map Prod.fst).trans ?_
    rw [List.map_map]
    exact List.Perm.refl _
  exact hperm.nodup_iff.mpr table.keys_nodup

/-! ## The lines written -/

/-- The value of the line written for an item. -/
def writtenValue (g : Gcrypt) (input : SecureWrite) (passphrase : Option Str) (key : Str) (value : CStr) : CStr :=
  (secureConfigDataWriteMapCb g input passphrase key value).2.getD value

theorem secureConfigDataWriteMapCb_eq {g : Gcrypt} (input : SecureWrite) (passphrase : Option Str) (key : Str)
    (value : CStr) :
    secureConfigDataWriteMapCb g input passphrase key value =
      (key, some (writtenValue g input passphrase key value)) := by
  cases passphrase <;> rfl

section

variable (g : Gcrypt) (encrypted : Bool) (written : Str → CStr → CStr)

/-- Lines for some items, of different names. -/
theorem linesVault_items (items : List (Str × CStr)) (vault : Vault)
    (hnodup : (items.map Prod.fst).Nodup) (hflag : secureDataPassphraseFlag ∉ items.map Prod.fst) :
    (∀ name value, (name, value) ∈ items →
      linesVault g encrypted vault (items.map fun item => (item.1, some (written item.1 item.2))) name =
        some (lineEntry g encrypted (written name value))) ∧
    ∀ name, name ∉ items.map Prod.fst →
      linesVault g encrypted vault (items.map fun item => (item.1, some (written item.1 item.2))) name = vault name := by
  induction items generalizing vault with
  | nil => exact ⟨fun _ _ h => (List.not_mem_nil h).elim, fun _ _ => rfl⟩
  | cons item items ih =>
    rw [List.map_cons, List.nodup_cons] at hnodup
    rw [List.map_cons, List.mem_cons, not_or] at hflag
    have hname : item.1 ≠ secureDataPassphraseFlag := Ne.symm hflag.1
    simp only [List.map_cons, linesVault, lineFlag, lineVault, hname, false_and, if_false]
    obtain ⟨hmem, hnot⟩ := ih (Function.update vault item.1 (some (lineEntry g encrypted (written item.1 item.2))))
      hnodup.2 hflag.2
    refine ⟨fun name value h => ?_, fun name h => ?_⟩
    · rcases List.mem_cons.mp h with rfl | h
      · rw [hnot _ hnodup.1, Function.update_self]
      · exact hmem name value h
    · rw [List.mem_cons, not_or] at h
      rw [hnot name h.2, Function.update_of_ne h.1]

/-- The file with a line for each item of a table, after the flag. -/
theorem fileVault_items {table : SecureTable} (hflag : secureDataPassphraseFlag ∉ table) {flag : CStr}
    (hne : flag.val ≠ []) (hvalue : configFileStringToBoolean flag = encrypted) (name : Str) :
    fileVault g ((secureDataPassphraseFlag, some flag) ::
        (hashtableItems table).map fun item => (item.1, some (written item.1 item.2))) name =
      (table.lookup name).map fun value => lineEntry g encrypted (written name value) := by
  have hkeys : ∀ n, n ∈ (hashtableItems table).map Prod.fst ↔ n ∈ table := by
    intro n
    rw [← AList.lookup_isSome, Option.isSome_iff_exists]
    simp only [← mem_hashtableItems, List.mem_map, Prod.exists, exists_and_right, exists_eq_right]
  obtain ⟨hmem, hnot⟩ := linesVault_items g encrypted written (hashtableItems table) (fun _ => none)
    (hashtableItems_nodup table) (mt (hkeys _).mp hflag)
  simp only [fileVault, linesVault, lineFlag, lineVault, if_true, true_and, if_pos hne, hvalue]
  cases hl : table.lookup name with
  | none => rw [hnot name (mt (hkeys name).mp (AList.lookup_eq_none.mp hl)), Option.map_none]
  | some value => rw [hmem name value (mem_hashtableItems.mpr hl), Option.map_some]

end

theorem configFileStringToBoolean_flags :
    configFileStringToBoolean (cString (lit "on")) = true ∧ configFileStringToBoolean (cString (lit "off")) = false ∧
      (cString (lit "on")).val ≠ [] ∧ (cString (lit "off")).val ≠ [] := by
  decide +kernel

/-! ## Secured data along a run

Each entry owed is held in memory: as the value read, still encrypted, or as its
secret, with a passphrase to lock it again. Each line read, each key decrypted
and each write keeps this (`HoldsAll`), so a file written keeps every entry owed.
-/

variable {g : Gcrypt}

/-- The entry of a name is in one of the tables: in the table of encrypted
data, or in the other with a passphrase set, unless it is being removed. -/
def Held (g : Gcrypt) (state : SecureState) (removed : Prop) (name : Str) : Entry → Prop
  | .plain secret =>
    state.hashtableData.lookup name = some secret ∧ state.hashtableDataEncrypted.lookup name = none
  | .locked opens =>
    (∃ value, state.hashtableDataEncrypted.lookup name = some value ∧
      ∀ p secret, opens p secret → Opens g value p secret) ∨
    (∃ secret, state.hashtableData.lookup name = some secret ∧ state.hashtableDataEncrypted.lookup name = none ∧
      (state.passphrase.isSome ∨ removed) ∧ ∀ p secret', opens p secret' → secret = secret')

/-- The invariant of a run. -/
structure HoldsAll (g : Gcrypt) (state : SecureState) (removed : Prop) (due : Vault) : Prop where
  flag_data : secureDataPassphraseFlag ∉ state.hashtableData
  flag_encrypted : secureDataPassphraseFlag ∉ state.hashtableDataEncrypted
  oneSecret : ∀ name value, state.hashtableDataEncrypted.lookup name = some value → OneSecret g value
  held : ∀ name entry, due name = some entry → Held g state removed name entry

/-! ## What leaves an entry held -/

/-- An entry stays held while its name is left alone. -/
theorem Held.frame {state state' : SecureState} {removed removed' : Prop} {name : Str} {entry : Entry}
    (h : Held g state removed name entry)
    (hdata : state'.hashtableData.lookup name = state.hashtableData.lookup name)
    (hencrypted : state'.hashtableDataEncrypted.lookup name = state.hashtableDataEncrypted.lookup name)
    (hpassphrase : state.passphrase.isSome ∨ removed → state'.passphrase.isSome ∨ removed') :
    Held g state' removed' name entry := by
  cases entry with
  | plain secret => exact ⟨hdata.trans h.1, hencrypted.trans h.2⟩
  | locked opens =>
    rcases h with ⟨value, hv, hopens⟩ | ⟨secret, hs, hnone, hp, hopens⟩
    · exact .inl ⟨value, hencrypted.trans hv, hopens⟩
    · exact .inr ⟨secret, hdata.trans hs, hencrypted.trans hnone, hpassphrase hp, hopens⟩

/-- The invariant is about the tables, and whether a passphrase is set. -/
theorem HoldsAll.frame {state state' : SecureState} {removed removed' : Prop} {due : Vault}
    (h : HoldsAll g state removed due) (hdata : state'.hashtableData = state.hashtableData)
    (hencrypted : state'.hashtableDataEncrypted = state.hashtableDataEncrypted)
    (hpassphrase : state.passphrase.isSome ∨ removed → state'.passphrase.isSome ∨ removed') :
    HoldsAll g state' removed' due where
  flag_data := hdata ▸ h.flag_data
  flag_encrypted := hencrypted ▸ h.flag_encrypted
  oneSecret name value hv := h.oneSecret name value (hencrypted ▸ hv)
  held name entry hd := (h.held name entry hd).frame (by rw [hdata]) (by rw [hencrypted]) hpassphrase

/-- A secret is stored, in clear or decrypted with the passphrase set. -/
theorem HoldsAll.insert_data {state : SecureState} {due : Vault} (h : HoldsAll g state False due)
    {name : Str} (hname : name ≠ secureDataPassphraseFlag) (hnone : state.hashtableDataEncrypted.lookup name = none)
    {secret : CStr} {passphrase : Option Str} (hp : state.passphrase.isSome → passphrase.isSome) {entry : Entry}
    (hentry : entry = .plain secret ∨
      passphrase.isSome ∧ ∃ opens, entry = .locked opens ∧ ∀ p secret', opens p secret' → secret = secret') :
    HoldsAll g { state with passphrase, hashtableData := state.hashtableData.insert name secret } False
      (Function.update due name (some entry)) where
  flag_data := by
    rw [AList.mem_insert, not_or]
    exact ⟨hname.symm, h.flag_data⟩
  flag_encrypted := h.flag_encrypted
  oneSecret := h.oneSecret
  held n e hd := by
    by_cases hn : n = name
    · subst hn
      rw [Function.update_self] at hd
      cases hd
      rcases hentry with rfl | ⟨hsome, opens, rfl, hopens⟩
      · exact ⟨AList.lookup_insert _, hnone⟩
      · exact .inr ⟨secret, AList.lookup_insert _, hnone, .inl hsome, hopens⟩
    · rw [Function.update_of_ne hn] at hd
      exact (h.held n e hd).frame (AList.lookup_insert_ne hn) rfl (Or.imp_left hp)

/-- A value is stored that can not be decrypted. -/
theorem HoldsAll.insert_encrypted {state : SecureState} {due : Vault} (h : HoldsAll g state False due)
    {name : Str} (hname : name ≠ secureDataPassphraseFlag) {value : CStr} (hvalue : OneSecret g value)
    {passphrase : Option Str} (hp : state.passphrase.isSome → passphrase.isSome ∨ state.hashtableData = ∅) :
    HoldsAll g
      { state with passphrase, hashtableDataEncrypted := state.hashtableDataEncrypted.insert name value } False
      (Function.update due name (some (.locked (Opens g value)))) where
  flag_data := h.flag_data
  flag_encrypted := by
    rw [AList.mem_insert, not_or]
    exact ⟨hname.symm, h.flag_encrypted⟩
  oneSecret n v hv := by
    by_cases hn : n = name
    · subst hn
      rw [AList.lookup_insert] at hv
      cases hv
      exact hvalue
    · exact h.oneSecret n v ((AList.lookup_insert_ne hn).symm.trans hv)
  held n e hd := by
    by_cases hn : n = name
    · subst hn
      rw [Function.update_self] at hd
      cases hd
      exact .inl ⟨value, AList.lookup_insert _, fun _ _ => id⟩
    · rw [Function.update_of_ne hn] at hd
      have hheld := h.held n e hd
      cases e with
      | plain secret => exact ⟨hheld.1, (AList.lookup_insert_ne hn).trans hheld.2⟩
      | locked opens =>
        rcases hheld with ⟨v, hv, hopens⟩ | ⟨secret, hs, hnone, hpass, hopens⟩
        · exact .inl ⟨v, (AList.lookup_insert_ne hn).trans hv, hopens⟩
        · -- the table of decrypted data is not empty, so the passphrase stays set
          rcases hp (by simpa using hpass) with hp | hempty
          · exact .inr ⟨secret, hs, (AList.lookup_insert_ne hn).trans hnone, .inl hp, hopens⟩
          · rw [hempty] at hs
            cases hs

/-! ## Reading -/

/-- The flag changes no table. It sets a passphrase only where there was none. -/
theorem secureConfigReadFlag_cases {passphraseFile : Option (List Byte)} {state state' : SecureState}
    {answers answers' : List Str} {value : CStr}
    (h : secureConfigReadFlag passphraseFile state answers value = some (state', answers')) :
    ∃ passphrase, (state.passphrase.isSome → passphrase.isSome) ∧
      state' = { state with dataEncrypted := configFileStringToBoolean value, passphrase } := by
  unfold secureConfigReadFlag at h
  dsimp only at h
  split at h
  · next hask =>
    have hnone : ¬ state.passphrase.isSome := by simp [hask.2.1]
    split at h
    · cases h
      exact ⟨_, fun _ => rfl, rfl⟩
    · obtain ⟨r, -, hr⟩ := Option.map_eq_some_iff.mp h
      cases hr
      exact ⟨_, fun hs => absurd hs hnone, rfl⟩
  · cases h
    exact ⟨_, id, rfl⟩

theorem skipsPrompt_of_user {value : CStr} {answers answers' : List Str} {passphrase : Option Str}
    (h : secureConfigGetPassphraseFromUser answers = some (passphrase, answers'))
    (herror : ∀ p, passphrase = some p →
      (∀ data, secureDecryptData g (stringBase16Decode value).2 p ≠ .ok data) ∧ skipsPrompt g value answers' = true) :
    skipsPrompt g value answers = true := by
  induction answers with
  | nil => cases h
  | cons a answers ih =>
    rw [secureConfigGetPassphraseFromUser] at h
    rw [skipsPrompt]
    by_cases ha : a = []
    · rw [if_pos ha] at h ⊢
      exact ih h
    by_cases hspace : a = lit " "
    · rw [if_neg ha, if_pos hspace]
    by_cases hctrl : a = [3]
    · rw [if_neg ha, if_neg hspace, if_pos hctrl] at h
      cases h
    rw [if_neg ha, if_neg hspace, if_neg hctrl] at h ⊢
    cases h
    obtain ⟨hne, hskip⟩ := herror a rfl
    split
    · next data hok => exact absurd hok (hne data)
    · exact hskip

/-- The loop ends with the secret stored, or with the line left out after the
start of the interface, or, before it, with the prompt skipped. -/
theorem secureConfigDecryptLoop_cases {state state' : SecureState} {name : Str} {value : CStr} {passphrase : Str}
    {answers answers' : List Str}
    (h : secureConfigDecryptLoop g state name value passphrase answers = some (state', answers')) :
    (∃ p secret, Opens g value p secret ∧
      state' = { state with passphrase := some p, hashtableData := state.hashtableData.insert name secret }) ∨
    (∀ secret, ¬ Opens g value passphrase secret) ∧
      (state.guiInitOk = true ∨
        state.guiInitOk = false ∧ skipsPrompt g value answers = true ∧
          state' = { state with passphrase := none,
                                hashtableDataEncrypted := state.hashtableDataEncrypted.insert name value }) := by
  fun_induction secureConfigDecryptLoop g state name value passphrase answers with
  | case1 passphrase answers data hok =>
    cases h
    exact .inl ⟨passphrase, cString data, ⟨data, hok, rfl⟩, rfl⟩
  | case2 passphrase answers e herror hgui => exact .inr ⟨not_opens_of_error herror, .inl hgui⟩
  | case3 passphrase answers e herror hgui huser => cases h
  | case4 passphrase answers e herror hgui p rest huser ih =>
    rcases ih h with hsecret | ⟨hwrong, hinit | ⟨hinit, hskip, hstate⟩⟩
    · exact .inl hsecret
    · exact absurd hinit hgui
    · refine .inr ⟨not_opens_of_error herror, .inr ⟨hinit, skipsPrompt_of_user huser fun q hq => ?_, hstate⟩⟩
      cases hq
      exact ⟨fun data hok => hwrong _ ⟨data, hok, rfl⟩, hskip⟩
  | case5 passphrase answers e herror hgui rest huser =>
    cases h
    refine .inr ⟨not_opens_of_error herror, .inr ⟨by simpa using hgui, skipsPrompt_of_user huser ?_, rfl⟩⟩
    rintro p hp
    cases hp

/-- Reading a line that meets the condition. -/
theorem HoldsAll.readLine {passphraseFile : Option (List Byte)} {state state' : SecureState} {due : Vault}
    {answers answers' : List Str} {name : Str} {value : Option CStr} (h : HoldsAll g state False due)
    (hmeets : ∀ v, value = some v → name ≠ secureDataPassphraseFlag → LineMeets g state answers name v)
    (hread : secureConfigDataReadCb g passphraseFile state answers name value = some (state', answers')) :
    HoldsAll g state' False (lineVault g state.dataEncrypted due name value) ∧
      state'.dataEncrypted = lineFlag state.dataEncrypted name value := by
  unfold secureConfigDataReadCb at hread
  cases value with
  | none =>
    cases hread
    exact ⟨h, rfl⟩
  | some value =>
    dsimp only [lineVault, lineFlag] at hread ⊢
    by_cases hname : name = secureDataPassphraseFlag
    · rw [if_pos hname]
      by_cases hempty : value.val = []
      · rw [if_pos hempty] at hread
        cases hread
        simp [h, hempty]
      · rw [if_neg hempty, if_pos hname] at hread
        obtain ⟨passphrase, hp, rfl⟩ := secureConfigReadFlag_cases hread
        refine ⟨h.frame rfl rfl (Or.imp_left hp), ?_⟩
        rw [if_pos ⟨hname, hempty⟩]
    · have hm := hmeets value rfl hname
      rw [if_neg hm.value_ne, if_neg hname] at hread
      rw [if_neg hname, if_neg (fun hc => hname hc.1)]
      by_cases hflag : state.dataEncrypted = true
      · have hentry : lineEntry g state.dataEncrypted value = .locked (Opens g value) := if_pos hflag
        have hone := hm.oneSecret hflag
        rw [if_neg (not_not_intro hflag)] at hread
        rw [hentry]
        split at hread
        · cases hread
          exact ⟨h.insert_encrypted hname hone .inl, rfl⟩
        · next passphrase hpass =>
          have hnone := AList.lookup_eq_none.mpr (hm.fresh (.inr (by rw [hpass]; rfl)))
          rcases secureConfigDecryptLoop_cases hread with ⟨p, secret, hopens, rfl⟩ | ⟨hwrong, hrest⟩
          · exact ⟨h.insert_data hname hnone (fun _ => rfl)
              (.inr ⟨rfl, _, rfl, fun q secret' hq => hone p q secret secret' hopens hq⟩), rfl⟩
          · obtain ⟨hgui, hskip⟩ := hm.prompt hflag passphrase hpass hwrong
            rcases hrest with hinit | ⟨-, hskips, rfl⟩
            · rw [hgui] at hinit
              cases hinit
            · exact ⟨h.insert_encrypted hname hone fun _ => .inr (itemsCount_eq_zero.mp (hskip hskips)), rfl⟩
      · have hentry : lineEntry g state.dataEncrypted value = .plain value := if_neg hflag
        have hnone := AList.lookup_eq_none.mpr (hm.fresh (.inl (by simpa using hflag)))
        rw [if_pos hflag] at hread
        cases hread
        exact ⟨h.insert_data hname hnone id (.inl hentry), rfl⟩

theorem HoldsAll.readLines {passphraseFile : Option (List Byte)} {lines : List ConfigLine} {state state' : SecureState}
    {due : Vault} {answers answers' : List Str} (h : HoldsAll g state False due)
    (hmeets : LinesMeet g passphraseFile state answers lines)
    (hread : secureConfigReadLines g passphraseFile state answers lines = some (state', answers')) :
    HoldsAll g state' False (linesVault g state.dataEncrypted due lines) := by
  induction lines generalizing state due answers with
  | nil =>
    cases hread
    exact h
  | cons line lines ih =>
    obtain ⟨hline, hlines⟩ := hmeets
    rw [secureConfigReadLines] at hread
    split at hread
    · cases hread
    · next state₁ answers₁ heq =>
      obtain ⟨h₁, hflag⟩ := h.readLine hline heq
      have := ih h₁ (hlines state₁ answers₁ heq) hread
      rwa [hflag] at this

/-! ## Decrypting what was not decrypted -/

theorem lookup_erase_of_some {table : SecureTable} {name key : Str} {value : CStr}
    (h : (table.erase key).lookup name = some value) : name ≠ key ∧ table.lookup name = some value := by
  have hne : name ≠ key := by
    rintro rfl
    rw [AList.lookup_erase] at h
    cases h
  exact ⟨hne, (AList.lookup_erase_ne hne).symm.trans h⟩

theorem secureDecryptKey_cases (passphrase : Str) (r : Nat × SecureState) (key : Str) :
    secureDecryptKey g passphrase r key = r ∨
    ∃ value secret, r.2.hashtableDataEncrypted.lookup key = some value ∧ Opens g value passphrase secret ∧
      secureDecryptKey g passphrase r key =
        (r.1 + 1, { r.2 with hashtableData := r.2.hashtableData.insert key secret,
                             hashtableDataEncrypted := r.2.hashtableDataEncrypted.erase key }) := by
  unfold secureDecryptKey
  split
  · exact .inl rfl
  · next value hv =>
    split
    · exact .inl rfl
    · split
      · next data hok => exact .inr ⟨value, cString data, hv, ⟨data, hok, rfl⟩, rfl⟩
      · exact .inl rfl

theorem HoldsAll.decryptKey {passphrase : Str} {r : Nat × SecureState} {due : Vault} (key : Str)
    (h : HoldsAll g { r.2 with passphrase := some passphrase } False due) :
    HoldsAll g { (secureDecryptKey g passphrase r key).2 with passphrase := some passphrase } False due := by
  rcases secureDecryptKey_cases passphrase r key with heq | ⟨value, secret, hv, hopens, heq⟩
  · rwa [heq]
  rw [heq]
  have hkey : key ≠ secureDataPassphraseFlag := by
    rintro rfl
    have hnone := AList.lookup_eq_none.mpr h.flag_encrypted
    rw [hv] at hnone
    cases hnone
  refine ⟨?_, ?_, ?_, ?_⟩
  · rw [AList.mem_insert, not_or]
    exact ⟨hkey.symm, h.flag_data⟩
  · rw [AList.mem_erase]
    exact fun hc => h.flag_encrypted hc.2
  · exact fun n v hn => h.oneSecret n v (lookup_erase_of_some hn).2
  · rintro n entry hd
    have hheld := h.held n entry hd
    by_cases hn : n = key
    · subst hn
      cases entry with
      | plain s =>
        have hnone := hheld.2
        rw [hv] at hnone
        cases hnone
      | locked opens =>
        rcases hheld with ⟨v, hv', ho⟩ | ⟨s, -, hnone, -⟩
        · rw [hv] at hv'
          cases hv'
          exact .inr ⟨secret, AList.lookup_insert _, AList.lookup_erase _ _, .inl rfl,
            fun q s hq => h.oneSecret _ value hv passphrase q secret s hopens (ho q s hq)⟩
        · rw [hv] at hnone
          cases hnone
    · exact hheld.frame (AList.lookup_insert_ne hn) (AList.lookup_erase_ne hn) id

theorem HoldsAll.decryptKeys {passphrase : Str} (keys : List Str) {r : Nat × SecureState} {due : Vault}
    (h : HoldsAll g { r.2 with passphrase := some passphrase } False due) :
    HoldsAll g { (keys.foldl (secureDecryptKey g passphrase) r).2 with passphrase := some passphrase } False due := by
  induction keys generalizing r with
  | nil => exact h
  | cons key keys ih => exact ih (h.decryptKey key)

/-- Where nothing was decrypted, nothing has changed. -/
theorem secureDecryptKeys_zero (passphrase : Str) (keys : List Str) (r : Nat × SecureState) :
    r.1 ≤ (keys.foldl (secureDecryptKey g passphrase) r).1 ∧
      ((keys.foldl (secureDecryptKey g passphrase) r).1 = r.1 →
        (keys.foldl (secureDecryptKey g passphrase) r).2 = r.2) := by
  induction keys generalizing r with
  | nil => exact ⟨Nat.le_refl _, fun _ => rfl⟩
  | cons key keys ih =>
    rw [List.foldl_cons]
    obtain ⟨hle, hsame⟩ := ih (secureDecryptKey g passphrase r key)
    rcases secureDecryptKey_cases passphrase r key with heq | ⟨value, secret, -, -, heq⟩
    · rw [heq] at hle hsame ⊢
      exact ⟨hle, hsame⟩
    · have hnum : (secureDecryptKey g passphrase r key).1 = r.1 + 1 := by rw [heq]
      refine ⟨by omega, fun h => ?_⟩
      omega

theorem secureDecryptDataNotDecrypted_zero {state : SecureState} {passphrase : Str}
    (h : (secureDecryptDataNotDecrypted g state passphrase).1 = 0) :
    (secureDecryptDataNotDecrypted g state passphrase).2 = state := by
  unfold secureDecryptDataNotDecrypted at h ⊢
  split
  · rfl
  · next hne =>
    rw [if_neg hne] at h
    dsimp only at h ⊢
    split
    · rfl
    · next keys heq =>
      rw [heq] at h
      exact (secureDecryptKeys_zero passphrase keys (0, state)).2 h

theorem HoldsAll.decryptNotDecrypted {state : SecureState} {due : Vault} (passphrase : Str)
    (h : HoldsAll g state False due) :
    HoldsAll g { (secureDecryptDataNotDecrypted g state passphrase).2 with passphrase := some passphrase } False due := by
  have hset : HoldsAll g { state with passphrase := some passphrase } False due :=
    h.frame rfl rfl (Or.imp_left fun _ => rfl)
  unfold secureDecryptDataNotDecrypted
  split
  · exact hset
  · dsimp only
    split
    · exact hset
    · next keys _ => exact hset.decryptKeys keys

end Wirc

import WhoreIrc.Framework.Run
import WhoreIrc.Proof.SecureTotp
import WhoreIrc.Spec.RelayClient

/-!
# Authentication of a relay client: the second factor

The command `init` accepts a `totp` option whose fields are accepted
(`relayWeechatProtocolInit_totpOk`). Without a comma this is the code for a
time near now; with commas, the client gives the time and the window.
-/

namespace Wirc

open Framework

/-! ## The command -/

/-- Only a `totp` option that is validated sets `totp_ok`. -/
theorem relayInitOption_totpOk (server : RelayServer) (client : RelayWeechatData) (option : Str) :
    (relayInitOption server client option).totpOk = true ↔
      client.totpOk = true ∨ ∃ value secret, totpValue option = some value ∧ server.totpSecret = some secret ∧
        pluginApiInfoTotpValidateCb server.hmac server.now (relayInfoTotpArgs secret value server.totpWindow) =
          some (lit "1") := by
  have hname : lit "totp" ≠ lit "password" := by decide
  rw [relayInitOption, totpValue]
  cases strchr option (ch '=') with
  | none => simp
  | some ptr =>
    dsimp only
    by_cases htotp : strndup option (off option ptr) = lit "totp"
    · rw [if_neg (by rw [htotp]; exact hname), if_pos htotp, if_pos htotp]
      cases server.totpSecret with
      | none => simp
      | some secret =>
        dsimp only
        split
        · rename_i h
          simp [h]
        · rename_i h
          simp [h]
    · rw [if_neg htotp, if_neg htotp]
      split
      · cases server.password with
        | none => simp
        | some password =>
          dsimp only
          split <;> simp
      · split
        · split <;> simp
        · simp

theorem relayWeechatProtocolInit_totpOk (server : RelayServer) (client : RelayWeechatData) (argvEol0 : Str) :
    (relayWeechatProtocolInit server client argvEol0).1.totpOk = true ↔
      client.totpOk = true ∨ ∃ value ∈ totpValues argvEol0, ∃ secret, server.totpSecret = some secret ∧
        pluginApiInfoTotpValidateCb server.hmac server.now (relayInfoTotpArgs secret value server.totpWindow) =
          some (lit "1") := by
  rw [relayWeechatProtocolInit, totpValues]
  dsimp only
  induction relayInitOptions argvEol0 generalizing client with
  | nil => simp
  | cons option options ih =>
    rw [List.foldl_cons, ih, relayInitOption_totpOk, List.filterMap_cons]
    cases hvalue : totpValue option with
    | none => simp
    | some value => simp [or_assoc]

/-! ## The fields of a value -/

/-- Without a comma, the fields are the code, the time of the server and the
configured window. -/
theorem fieldsAccepted_plain {hmac : Hmac} {key : List Byte} {now window : Nat} {value : Str}
    (hwindow : window < 2147483648) (hvalue : ch ',' ∉ value)
    (h : FieldsAccepted hmac key now (totpFields value window)) : IsCodeNear hmac key now window value := by
  rw [totpFields] at h
  by_cases hne : value = []
  · rw [hne, runs_nil] at h
    cases h
  · have hother : ∀ c ∈ value, isIn (lit ",") c = false := by
      intro c hc
      have : c ≠ ch ',' := fun h => hvalue (h ▸ hc)
      simpa [isIn, lit] using this
    rw [runs_word hne hother] at h
    cases h with
    | @intro _ _ _ _ time window' htime hw _ hnear =>
      have h0 : time = 0 := by
        have : totpNumber (lit "0") = some 0 := by decide
        exact Int.ofNat.inj (Option.some.inj (htime.symm.trans this))
      have hw' : window' = window :=
        Int.ofNat.inj (Option.some.inj (hw.symm.trans (totpNumber_fmtNat hwindow)))
      rw [h0, hw'] at hnear
      exact hnear

/-- The command sets `totp_ok` only for a code of the configured secret near the
time of the server, if and only if a value is such a code as a whole, or no
value with a comma has fields that are accepted. -/
theorem relayInit_totp_iff {server : RelayServer} {client : RelayWeechatData} {secret : Str}
    (hclient : client.totpOk = false) (hserver : server.totpSecret = some secret) (hsecret : secret ≠ [])
    (hcomma : ch ',' ∉ secret) (hkey : 0 ≤ (stringBase32Decode secret).1) (hwindow : server.totpWindow ≤ 256)
    (hnow : server.now < 9223372036854775808) (argvEol0 : Str) :
    ((relayWeechatProtocolInit server client argvEol0).1.totpOk = true →
        ∃ value ∈ totpValues argvEol0,
          IsCodeNear server.hmac (stringBase32Decode secret).2 server.now server.totpWindow value) ↔
      (∃ value ∈ totpValues argvEol0,
        IsCodeNear server.hmac (stringBase32Decode secret).2 server.now server.totpWindow value) ∨
      ∀ value ∈ totpValues argvEol0, ch ',' ∈ value →
        ¬ FieldsAccepted server.hmac (stringBase32Decode secret).2 server.now
          (totpFields value server.totpWindow) := by
  have haccept : ∀ value, (∃ s, server.totpSecret = some s ∧
      pluginApiInfoTotpValidateCb server.hmac server.now (relayInfoTotpArgs s value server.totpWindow) =
        some (lit "1")) ↔
      FieldsAccepted server.hmac (stringBase32Decode secret).2 server.now
        (totpFields value server.totpWindow) := by
    intro value
    rw [← pluginApiInfoTotpValidateCb_iff server.hmac hnow hsecret hcomma hkey value, hserver]
    simp
  rw [relayWeechatProtocolInit_totpOk, hclient]
  simp only [Bool.false_eq_true, false_or, haccept]
  constructor
  · intro h
    by_cases hcode : ∃ value ∈ totpValues argvEol0,
        IsCodeNear server.hmac (stringBase32Decode secret).2 server.now server.totpWindow value
    · exact .inl hcode
    · exact .inr fun value hvalue _ haccepted => hcode (h ⟨value, hvalue, haccepted⟩)
  · rintro (hcode | hnone) ⟨value, hvalue, haccepted⟩
    · exact hcode
    · refine ⟨value, hvalue, fieldsAccepted_plain (by omega) (fun hc => ?_) haccepted⟩
      exact hnone value hvalue hc haccepted

/-- A server with a hash that tells the time step 1 from the others, at the time
step 100000. -/
def exampleServer : RelayServer where
  password := none
  totpSecret := some (lit "ME")
  totpWindow := 0
  now := 3000000
  hmac := fun _ message _ => if message = [0, 0, 0, 0, 0, 0, 0, 1] then 0 else 1

theorem relayInit_totp_iff_code :
    (relayWeechatProtocolInit exampleServer ⟨true, false, 0⟩ (lit "totp=843009")).1.totpOk = true ∧
      ((relayWeechatProtocolInit exampleServer ⟨true, false, 0⟩ (lit "totp=843009")).1.totpOk = true →
        ∃ value ∈ totpValues (lit "totp=843009"),
          IsCodeNear exampleServer.hmac (stringBase32Decode (lit "ME")).2 3000000 0 value) := by
  refine ⟨by decide +kernel, ?_⟩
  refine (@relayInit_totp_iff exampleServer ⟨true, false, 0⟩ (lit "ME") rfl rfl (by decide) (by decide)
    (by decide) (by decide) (by decide) (lit "totp=843009")).mpr (.inr fun value hvalue hcomma => ?_)
  have hvalues : totpValues (lit "totp=843009") = [lit "843009"] := by decide +kernel
  rw [hvalues, List.mem_singleton] at hvalue
  rw [hvalue] at hcomma
  exact absurd hcomma (by decide)

/-- The code of the time step 1 and the time 59 make an option `totp` that is
accepted at the time step 100000. -/
theorem relayInit_totp_fails :
    (relayWeechatProtocolInit exampleServer ⟨true, false, 0⟩ (lit "totp=000000\\,59")).1.totpOk = true ∧
      ¬ ∃ value ∈ totpValues (lit "totp=000000\\,59"),
        IsCodeNear exampleServer.hmac (stringBase32Decode (lit "ME")).2 3000000 0 value := by
  refine ⟨by decide +kernel, ?_⟩
  rintro ⟨value, hvalue, step, h1, h2, hcode⟩
  have hvalues : totpValues (lit "totp=000000\\,59") = [lit "000000,59"] := by decide
  rw [hvalues, List.mem_singleton] at hvalue
  have hstep : step = 100000 := by omega
  have hgenerate := hcode.code
  rw [hvalue, hstep] at hgenerate
  exact absurd hgenerate (by decide)

end Wirc

/-!
# A client before its authentication

Only `init` sets the two flags of a client; without both, a command is refused
(`relayWeechatProtocolRecv_refused`), and without a synchronized buffer the
callbacks of signals do nothing.
-/

namespace Wirc

open Framework

/-! ## The state -/

/-- Before the authentication, nothing happened, and no nicklist is waiting. -/
structure Unauthenticated (client : RelayWeechatClient) : Prop extends NothingHappened client where
  flags : (client.data.passwordOk && client.data.totpOk) = false
  buffersNicklist : client.buffersNicklist = []

theorem relayEmptyOption_configured {option : Option Str} (h : ConfiguredOption option) :
    relayEmptyOption option = false := by
  obtain ⟨s, rfl, hs⟩ := h
  simpa [relayEmptyOption] using hs

theorem unauthenticated_alloc {server : RelayServer} (status : RelayStatus)
    (h : ConfiguredOption server.password ∨ ConfiguredOption server.totpSecret) :
    Unauthenticated (relayWeechatAlloc server status) := by
  refine ⟨⟨?_, ?_, rfl⟩, ?_, rfl⟩
  · intro name hname
    cases hname
  · intro id body hmsg
    cases hmsg
  · show (relayEmptyOption server.password && relayEmptyOption server.totpSecret) = false
    rcases h with h | h
    · rw [relayEmptyOption_configured h, Bool.false_and]
    · rw [relayEmptyOption_configured h, Bool.and_false]

/-- The status and the hooks of a client. -/
theorem relayClientSetStatus_fields (client : RelayWeechatClient) (status : RelayStatus) :
    (relayClientSetStatus client status).acts = client.acts ∧
      (relayClientSetStatus client status).data = client.data ∧
      (relayClientSetStatus client status).buffersSync = client.buffersSync ∧
      (relayClientSetStatus client status).buffersNicklist = client.buffersNicklist := by
  unfold relayClientSetStatus
  dsimp only
  split
  · exact ⟨rfl, rfl, rfl, rfl⟩
  · exact ⟨rfl, rfl, rfl, rfl⟩

theorem Unauthenticated.setStatus {client : RelayWeechatClient} (h : Unauthenticated client) (status : RelayStatus) :
    Unauthenticated (relayClientSetStatus client status) := by
  obtain ⟨hacts, hdata, hsync, hnicklist⟩ := relayClientSetStatus_fields client status
  refine ⟨⟨?_, ?_, ?_⟩, ?_, ?_⟩
  · rw [hacts]
    exact h.callbacks
  · rw [hacts]
    exact h.messages
  · rw [hsync]
    exact h.buffersSync
  · rw [hdata]
    exact h.flags
  · rw [hnicklist]
    exact h.buffersNicklist

/-! ## Commands -/

/-- The only callback of the name `init`. -/
theorem relayWeechatProtocolCb_init {server : RelayServer} {core : RelayCore}
    {f : RelayWeechatClient → RelayArgs → RelayWeechatClient}
    (h : (lit "init", f) ∈ relayWeechatProtocolCb server core) : f = relayWeechatProtocolCbInit server := by
  have hne : ∀ name : Str, lit "init" ≠ name → ∀ g, (lit "init", f) ≠ (name, g) := by
    intro name hname g heq
    exact hname (Prod.mk.inj heq).1
  rw [relayWeechatProtocolCb, List.mem_cons] at h
  rcases h with h | h
  · exact (Prod.mk.inj h).2
  · simp only [List.mem_cons, List.not_mem_nil, or_false] at h
    rcases h with h | h | h | h | h | h | h | h | h | h
    all_goals exact absurd h (hne _ (by decide) _)

/-- Without both flags, no callback but `init` runs. -/
theorem relayWeechatProtocolRecv_refused (server : RelayServer) (core : RelayCore) {client : RelayWeechatClient}
    (hflags : (client.data.passwordOk && client.data.totpOk) = false) (data : Str) :
    relayWeechatProtocolRecv server core client data = client ∨
      relayWeechatProtocolRecv server core client data = relayClientSetStatus client .authFailed ∨
      ∃ args, relayWeechatProtocolRecv server core client data =
        relayWeechatProtocolCbInit server { client with acts := client.acts ++ [.callback (lit "init")] } args := by
  have hor : (!client.data.passwordOk || !client.data.totpOk) = true := by
    rw [← Bool.not_and, hflags]
    rfl
  unfold relayWeechatProtocolRecv
  split
  · exact .inl rfl
  · dsimp only
    split
    · exact .inl rfl
    · rename_i name cmdFunction hfind
      have hmem := List.mem_of_find?_eq_some hfind
      split
      · exact .inr (.inl rfl)
      · rename_i hinit
        have hname : name = lit "init" := by
          by_contra hname
          exact hinit ⟨hname, hor⟩
        subst hname
        rw [relayWeechatProtocolCb_init hmem]
        exact .inr (.inr ⟨_, rfl⟩)

/-- What `init` leaves when it does not set both flags. -/
theorem Unauthenticated.init {server : RelayServer} {client : RelayWeechatClient} (h : Unauthenticated client)
    (args : RelayArgs)
    (hfail : ((relayWeechatProtocolCbInit server
      { client with acts := client.acts ++ [.callback (lit "init")] } args).data.passwordOk &&
      (relayWeechatProtocolCbInit server
        { client with acts := client.acts ++ [.callback (lit "init")] } args).data.totpOk) = false) :
    Unauthenticated (relayWeechatProtocolCbInit server
      { client with acts := client.acts ++ [.callback (lit "init")] } args) := by
  have hcallbacks : ∀ name, RelayAct.callback name ∈ client.acts ++ [.callback (lit "init")] → name = lit "init" := by
    intro name hname
    rcases List.mem_append.mp hname with hname | hname
    · exact h.callbacks name hname
    · exact RelayAct.callback.inj (List.mem_singleton.mp hname)
  have hmessages : ∀ id body, RelayAct.msgSend id body ∉ client.acts ++ [.callback (lit "init")] := by
    intro id body hmsg
    rcases List.mem_append.mp hmsg with hmsg | hmsg
    · exact h.messages id body hmsg
    · cases List.mem_singleton.mp hmsg
  unfold relayWeechatProtocolCbInit at hfail ⊢
  split at hfail
  · rename_i hargs
    rw [if_pos hargs]
    exact ⟨⟨hcallbacks, hmessages, h.buffersSync⟩, hfail, h.buffersNicklist⟩
  · rename_i hargs
    rw [if_neg hargs]
    dsimp only at hfail ⊢
    split at hfail
    · rename_i hinit
      rw [if_pos hinit]
      exact ⟨⟨hcallbacks, hmessages, h.buffersSync⟩, hfail, h.buffersNicklist⟩
    · rename_i hinit
      rw [if_neg hinit]
      rw [(relayClientSetStatus_fields _ _).2.1] at hfail
      refine Unauthenticated.setStatus ?_ _
      exact ⟨⟨hcallbacks, hmessages, h.buffersSync⟩, hfail, h.buffersNicklist⟩

/-! ## Signals -/

/-- Without a synchronized buffer, nothing is synchronized. -/
theorem relayWeechatProtocolIsSync_empty (core : RelayCore) {client : RelayWeechatClient}
    (h : client.buffersSync = []) (buffer : Option Addr) (flags : UInt32) :
    relayWeechatProtocolIsSync core client buffer flags = false := by
  unfold relayWeechatProtocolIsSync
  rw [h]
  cases buffer.bind (bufferFullName core) with
  | none => rfl
  | some fullName => rfl

theorem relaySignalHdata_empty (core : RelayCore) {client : RelayWeechatClient} (h : client.buffersSync = [])
    (signal : Str) (buffer : Addr) (flags : UInt32) (path keys : Str) :
    relaySignalHdata core client signal buffer flags path keys = client := by
  unfold relaySignalHdata
  rw [relayWeechatProtocolIsSync_empty core h]
  exact if_neg Bool.false_ne_true

theorem relayWeechatProtocolSignalBufferCb_empty (core : RelayCore) {client : RelayWeechatClient}
    (h : client.buffersSync = []) (hnicklist : client.buffersNicklist = []) (signal : Str)
    (signalData : BufferSignal) : relayWeechatProtocolSignalBufferCb core client signal signalData = client := by
  unfold relayWeechatProtocolSignalBufferCb
  dsimp only
  split
  · rfl
  · rename_i buffer _
    split
    · exact relaySignalHdata_empty core h ..
    · split
      · split
        · rfl
        · exact relaySignalHdata_empty core h ..
      · split
        · split
          · rfl
          · split
            · rfl
            · exact relaySignalHdata_empty core h ..
        · split
          · -- the tables from which the buffer is removed are empty
            rw [relaySignalHdata_empty core h]
            obtain ⟨status, data, buffersSync, hook₁, hook₂, hook₃, buffersNicklist, timer, acts⟩ := client
            cases h
            cases hnicklist
            cases bufferFullName core buffer with
            | none => rfl
            | some fullName => rfl
          · rfl

/-! ## Runs -/

/-- A step keeps a client that is not authenticated, unless it authenticates it. -/
theorem Unauthenticated.run {client : RelayWeechatClient} (h : Unauthenticated client)
    (op : RelayCore × RelayWeechatOp) (huntil : ¬ AuthenticatedAt client op) :
    Unauthenticated (RelayWeechatOp.run client op) := by
  obtain ⟨core, op⟩ := op
  cases op with
  | recv server data =>
    have hrun : RelayWeechatOp.run client (core, .recv server data) =
        relayWeechatProtocolRecv server core client data := rfl
    rcases relayWeechatProtocolRecv_refused server core h.flags data with heq | heq | ⟨args, heq⟩
    · rw [hrun, heq]
      exact h
    · rw [hrun, heq]
      exact h.setStatus _
    · have hacts : (RelayWeechatOp.run client (core, .recv server data)).acts =
          client.acts ++ .callback (lit "init") :: [] := by
        rw [hrun, heq]
        unfold relayWeechatProtocolCbInit
        split
        · rfl
        · dsimp only
          split
          · rfl
          · rw [(relayClientSetStatus_fields _ _).1]
      rw [hrun, heq]
      refine h.init args ?_
      rw [← heq, ← hrun]
      by_contra hboth
      rw [Bool.not_eq_false, Bool.and_eq_true] at hboth
      exact huntil ⟨⟨[], hacts⟩, hboth.1, hboth.2⟩
  | signalBuffer signal signalData =>
    unfold RelayWeechatOp.run
    dsimp only
    rw [relayWeechatProtocolSignalBufferCb_empty core h.buffersSync h.buffersNicklist, ite_self]
    exact h
  | hsignalNicklist signal hashtable =>
    have hcb : relayWeechatProtocolHsignalNicklistCb core client signal hashtable = client := by
      unfold relayWeechatProtocolHsignalNicklistCb
      rw [relayWeechatProtocolIsSync_empty core h.buffersSync]
      rfl
    unfold RelayWeechatOp.run
    dsimp only
    rw [hcb, ite_self]
    exact h
  | signalUpgrade signal =>
    have hcb : relayWeechatProtocolSignalUpgradeCb core client signal = client := by
      unfold relayWeechatProtocolSignalUpgradeCb
      rw [relayWeechatProtocolIsSync_empty core h.buffersSync]
      exact if_neg fun hand => Bool.false_ne_true hand.2
    unfold RelayWeechatOp.run
    dsimp only
    rw [hcb, ite_self]
    exact h
  | timerNicklist =>
    unfold RelayWeechatOp.run
    dsimp only
    split
    · unfold relayWeechatProtocolTimerNicklistCb
      rw [h.buffersNicklist]
      exact ⟨⟨h.callbacks, h.messages, h.buffersSync⟩, h.flags, rfl⟩
    · exact h
  | setStatus status => exact h.setStatus status

/-- Until an `init` has set both flags, nothing happens for a client: no other
callback, no message, no synchronized buffer. -/
theorem relayWeechat_nothingBeforeInit {server : RelayServer} (status : RelayStatus)
    (hconfig : ConfiguredOption server.password ∨ ConfiguredOption server.totpSecret)
    {ops : List (RelayCore × RelayWeechatOp)}
    (huntil : Along RelayWeechatOp.run (fun client op => ¬ AuthenticatedAt client op)
      (relayWeechatAlloc server status) ops) :
    NothingHappened (ops.foldl RelayWeechatOp.run (relayWeechatAlloc server status)) := by
  have hall : ∀ ops client, Unauthenticated client →
      Along RelayWeechatOp.run (fun client op => ¬ AuthenticatedAt client op) client ops →
      Unauthenticated (ops.foldl RelayWeechatOp.run client) := by
    intro ops
    induction ops with
    | nil => exact fun _ h _ => h
    | cons op ops ih => exact fun client h halong => ih _ (h.run op halong.1) halong.2
  exact (hall ops _ (unauthenticated_alloc status hconfig) huntil).toNothingHappened

/-- A core with one buffer. -/
def exampleCore : RelayCore where
  guiBuffers := [⟨4096, some (lit "core.weechat"), 0⟩]
  currentBuffer := 4096
  relayRawBuffer := none
  relayBuffer := none
  nicklist := ⟨fun _ => ⟨false, 0, none, none, none, none⟩, fun _ => ⟨false, 0, none, none, none, none⟩⟩

/-- A server with the password `ab`. -/
def examplePassword : RelayServer := { exampleServer with password := some (lit "ab"), totpSecret := some [] }

theorem relayWeechat_nothingBeforeInit_two :
    ConfiguredOption examplePassword.password ∧
      NothingHappened ([(exampleCore, RelayWeechatOp.signalBuffer (lit "buffer_opened") ⟨some 4096, none⟩),
        (exampleCore, RelayWeechatOp.recv examplePassword (lit "sync"))].foldl
        RelayWeechatOp.run (relayWeechatAlloc examplePassword .connected)) := by
  have hconfig : ConfiguredOption examplePassword.password := ⟨lit "ab", rfl, by decide⟩
  refine ⟨hconfig, relayWeechat_nothingBeforeInit .connected (.inl hconfig) ⟨?_, ?_, trivial⟩⟩
  · rintro ⟨-, h, -⟩
    exact absurd h (by decide)
  · rintro ⟨-, h, -⟩
    exact absurd h (by decide)

end Wirc

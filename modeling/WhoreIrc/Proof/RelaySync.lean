import WhoreIrc.Proof.RelayWeechat
import WhoreIrc.Spec.RelayClient

/-!
# The synchronization of a client: what the commands change

No entry of the table is without a flag (`Entries`, kept by each command), so
the flags for a buffer are those of its entry, or of `*` if it has no flag
(`isSync_own`). A command on single buffers changes the entries of their names
only (`relaySyncAdd_fold`, `relaySyncSub_fold`, by induction on its list).
-/

namespace Wirc

open Framework

/-! ## The table -/

section Table

variable {K V : Type} [BEq K] [LawfulBEq K] [DecidableEq K]

/-- The value of a key is replaced where it is. -/
theorem lookup_replace (table : List (K × V)) (key : K) (value : V) (k : K) :
    (table.map fun item => if item.1 = key then (key, value) else item).lookup k =
      if k = key then (table.lookup key).map fun _ => value else table.lookup k := by
  induction table with
  | nil => split <;> rfl
  | cons item table ih =>
    obtain ⟨itemKey, itemValue⟩ := item
    rw [List.map_cons]
    by_cases hitem : itemKey = key
    · rw [if_pos hitem, List.lookup_cons, List.lookup_cons, List.lookup_cons, hitem, ih, beq_self_eq_true]
      by_cases hk : k = key
      · rw [hk, beq_self_eq_true, if_pos rfl, if_pos rfl]
        rfl
      · rw [beq_false_of_ne hk, if_neg hk, if_neg hk]
    · rw [if_neg hitem, List.lookup_cons, List.lookup_cons, List.lookup_cons, ih]
      by_cases hk : k = key
      · rw [hk, beq_false_of_ne (Ne.symm hitem), if_pos rfl]
      · rw [if_neg hk, if_neg hk]

theorem lookup_tableSet (table : List (K × V)) (key : K) (value : V) (k : K) :
    (tableSet table key value).lookup k = if k = key then some value else table.lookup k := by
  obtain rfl := lawful_beq_subsingleton ‹BEq K› instBEqOfDecidableEq
  unfold tableSet
  split
  · rename_i hkey
    obtain ⟨old, hold⟩ := Option.isSome_iff_exists.mp hkey
    rw [lookup_replace, hold]
    rfl
  · rename_i hkey
    rw [Option.not_isSome_iff_eq_none] at hkey
    rw [List.lookup_append, List.lookup_cons, List.lookup_nil]
    by_cases hk : k = key
    · rw [hk, hkey, beq_self_eq_true, if_pos rfl]
      rfl
    · rw [beq_false_of_ne hk, if_neg hk]
      exact Option.or_none

theorem lookup_tableRemove (table : List (K × V)) (key k : K) :
    (tableRemove table key).lookup k = if k = key then none else table.lookup k := by
  unfold tableRemove
  induction table with
  | nil => split <;> rfl
  | cons item table ih =>
    obtain ⟨itemKey, itemValue⟩ := item
    rw [List.filter_cons, List.lookup_cons]
    by_cases hitem : itemKey = key
    · have hdrop : ¬ (decide ((itemKey, itemValue).1 ≠ key) = true) := by simp [hitem]
      rw [if_neg hdrop, ih]
      by_cases hk : k = key
      · rw [if_pos hk, if_pos hk]
      · rw [if_neg hk, if_neg hk, hitem, beq_false_of_ne hk]
    · have hkeep : decide ((itemKey, itemValue).1 ≠ key) = true := by simp [hitem]
      rw [if_pos hkeep, List.lookup_cons, ih]
      by_cases hk : k = key
      · rw [hk, beq_false_of_ne (Ne.symm hitem), if_pos rfl]
      · rw [if_neg hk, if_neg hk]

end Table

/-! ## Flags -/

theorem or_and_flags (a b f : UInt32) : (a ||| b) &&& f = a &&& f ||| b &&& f := by
  apply UInt32.toBitVec_inj.mp
  rw [UInt32.toBitVec_and, UInt32.toBitVec_or, UInt32.toBitVec_or, UInt32.toBitVec_and, UInt32.toBitVec_and]
  exact BitVec.and_or_distrib_right

theorem and_not_of_and_eq_zero {g f : UInt32} (h : g &&& f = 0) : ~~~g &&& f = f := by
  have hbit : ∀ i, g.toBitVec.getLsbD i = true → f.toBitVec.getLsbD i = false := by
    intro i hg
    have hzero := congrArg (fun x => UInt32.toBitVec x |>.getLsbD i) h
    simpa [hg] using hzero
  apply UInt32.toBitVec_inj.mp
  apply BitVec.eq_of_getLsbD_eq
  intro i hi
  rw [UInt32.toBitVec_and, UInt32.toBitVec_not, BitVec.getLsbD_and, BitVec.getLsbD_not]
  cases hg : g.toBitVec.getLsbD i with
  | true => rw [hbit i hg, Bool.and_false]
  | false => simp [hi]

theorem not_and_of_subset {g f : UInt32} (h : f &&& g = f) : ~~~g &&& f = 0 := by
  rw [← h, UInt32.and_comm f g, ← UInt32.and_assoc, UInt32.and_comm (~~~g) g, UInt32.and_not_self, UInt32.zero_and]

/-- What a name has in the table. -/
def tableFlags (buffersSync : List (Str × UInt32)) (name : Str) : UInt32 := (buffersSync.lookup name).getD 0

/-- No entry of the table is without a flag. -/
def Entries (buffersSync : List (Str × UInt32)) : Prop := ∀ name, buffersSync.lookup name ≠ some 0

theorem Entries.lookup {buffersSync : List (Str × UInt32)} (h : Entries buffersSync) (name : Str) :
    buffersSync.lookup name = if tableFlags buffersSync name = 0 then none else some (tableFlags buffersSync name) := by
  unfold tableFlags
  cases hlookup : buffersSync.lookup name with
  | none => rfl
  | some flags =>
    have hne : flags ≠ 0 := fun hzero => h name (hlookup.trans (congrArg some hzero))
    rw [Option.getD_some, if_neg hne]

/-- The table where a name has other flags, and no entry if they are none. -/
structure SetFlags (before after : List (Str × UInt32)) (key : Str) (flags : UInt32) : Prop where
  flags : ∀ name, tableFlags after name = if name = key then flags else tableFlags before name
  entries : Entries before → Entries after

theorem setFlags_set {buffersSync : List (Str × UInt32)} (key : Str) {flags : UInt32} (hflags : flags ≠ 0) :
    SetFlags buffersSync (tableSet buffersSync key flags) key flags := by
  refine ⟨fun name => ?_, fun h name => ?_⟩
  · unfold tableFlags
    rw [lookup_tableSet]
    split
    · rfl
    · rfl
  · rw [lookup_tableSet]
    split
    · exact fun hsome => hflags (Option.some.inj hsome)
    · exact h name

theorem setFlags_remove {buffersSync : List (Str × UInt32)} (key : Str) :
    SetFlags buffersSync (tableRemove buffersSync key) key 0 := by
  refine ⟨fun name => ?_, fun h name => ?_⟩
  · unfold tableFlags
    rw [lookup_tableRemove]
    split
    · rfl
    · rfl
  · rw [lookup_tableRemove]
    split
    · exact (Option.some_ne_none 0).symm
    · exact h name

/-- `sync` of one buffer. -/
theorem relaySyncAdd_some {core : RelayCore} {arg key : Str} {mask : UInt32}
    (hname : relaySyncName core arg = some (key, mask)) (addFlags : UInt32) (buffersSync : List (Str × UInt32)) :
    SetFlags buffersSync (relaySyncAdd core addFlags buffersSync arg) key
      (tableFlags buffersSync key ||| (addFlags &&& mask)) := by
  simp only [relaySyncAdd, hname]
  change SetFlags _ (if tableFlags buffersSync key ||| (addFlags &&& mask) ≠ 0 then _ else _) _ _
  split
  · rename_i hflags
    exact setFlags_set key hflags
  · rename_i hflags
    rw [Decidable.not_not] at hflags
    refine ⟨fun name => ?_, id⟩
    split
    · rename_i hkey
      rw [hkey, hflags, (UInt32.or_eq_zero_iff.mp hflags).1]
    · rfl

/-- `desync` of one buffer. -/
theorem relaySyncSub_some {core : RelayCore} {arg key : Str} {mask : UInt32}
    (hname : relaySyncName core arg = some (key, mask)) (subFlags : UInt32) (buffersSync : List (Str × UInt32)) :
    SetFlags buffersSync (relaySyncSub core subFlags buffersSync arg) key
      (tableFlags buffersSync key &&& ~~~(subFlags &&& mask)) := by
  simp only [relaySyncSub, hname]
  change SetFlags _ (if tableFlags buffersSync key &&& ~~~(subFlags &&& mask) ≠ 0 then _ else _) _ _
  split
  · rename_i hflags
    exact setFlags_set key hflags
  · rename_i hflags
    rw [Decidable.not_not] at hflags
    rw [hflags]
    exact setFlags_remove key

/-- The table after a list, where each item changes the flags of its name in a
way that is the same once as twice. -/
theorem foldl_flags {step : List (Str × UInt32) → Str → List (Str × UInt32)} {nameOf : Str → Option Str}
    {change : UInt32 → UInt32} (htwice : ∀ flags, change (change flags) = change flags) :
    ∀ {args : List Str},
      (∀ arg ∈ args, ∀ buffersSync, (nameOf arg = none → step buffersSync arg = buffersSync) ∧
        ∀ key, nameOf arg = some key →
          SetFlags buffersSync (step buffersSync arg) key (change (tableFlags buffersSync key))) →
      ∀ buffersSync name,
        ((∃ arg ∈ args, nameOf arg = some name) →
          tableFlags (args.foldl step buffersSync) name = change (tableFlags buffersSync name)) ∧
        ((¬ ∃ arg ∈ args, nameOf arg = some name) →
          tableFlags (args.foldl step buffersSync) name = tableFlags buffersSync name)
  | [], _, _, _ => ⟨fun ⟨_, harg, _⟩ => absurd harg (List.not_mem_nil), fun _ => rfl⟩
  | arg :: args, hstep, buffersSync, name => by
    have hrest := foldl_flags htwice (fun arg harg => hstep arg (List.mem_cons_of_mem _ harg)) (step buffersSync arg)
      name
    obtain ⟨hnone, hsome⟩ := hstep arg (List.mem_cons_self ..) buffersSync
    rw [List.foldl_cons]
    -- the flags after the first item
    have hfirst : tableFlags (step buffersSync arg) name =
        if nameOf arg = some name then change (tableFlags buffersSync name) else tableFlags buffersSync name := by
      cases hname : nameOf arg with
      | none =>
        rw [hnone hname]
        rfl
      | some key =>
        rw [(hsome key hname).flags name]
        by_cases hkey : name = key
        · rw [if_pos hkey, hkey, if_pos rfl]
        · rw [if_neg hkey, if_neg fun h => hkey (Option.some.inj h).symm]
    constructor
    · rintro ⟨other, hother, hname⟩
      by_cases hlater : ∃ arg ∈ args, nameOf arg = some name
      · rw [hrest.1 hlater, hfirst]
        split
        · exact htwice _
        · rfl
      · rcases List.mem_cons.mp hother with rfl | hother
        · rw [hrest.2 hlater, hfirst, if_pos hname]
        · exact absurd ⟨other, hother, hname⟩ hlater
    · intro hno
      have hlater : ¬ ∃ arg ∈ args, nameOf arg = some name :=
        fun ⟨other, hother, hname⟩ => hno ⟨other, List.mem_cons_of_mem _ hother, hname⟩
      rw [hrest.2 hlater, hfirst, if_neg fun h => hno ⟨arg, List.mem_cons_self .., h⟩]

/-! ## Runs -/

theorem relaySyncAdd_entries (core : RelayCore) (addFlags : UInt32) {buffersSync : List (Str × UInt32)} (arg : Str)
    (h : Entries buffersSync) : Entries (relaySyncAdd core addFlags buffersSync arg) := by
  cases hname : relaySyncName core arg with
  | none =>
    rw [relaySyncAdd, hname]
    exact h
  | some item => exact (relaySyncAdd_some hname addFlags buffersSync).entries h

theorem relaySyncSub_entries (core : RelayCore) (subFlags : UInt32) {buffersSync : List (Str × UInt32)} (arg : Str)
    (h : Entries buffersSync) : Entries (relaySyncSub core subFlags buffersSync arg) := by
  cases hname : relaySyncName core arg with
  | none =>
    rw [relaySyncSub, hname]
    exact h
  | some item => exact (relaySyncSub_some hname subFlags buffersSync).entries h

theorem foldl_entries {step : List (Str × UInt32) → Str → List (Str × UInt32)}
    (hstep : ∀ {buffersSync} arg, Entries buffersSync → Entries (step buffersSync arg)) :
    ∀ (args : List Str) {buffersSync}, Entries buffersSync → Entries (args.foldl step buffersSync)
  | [], _, h => h
  | arg :: args, _, h => foldl_entries hstep args (hstep arg h)

/-- A command keeps the table without empty entries. -/
theorem SyncCommand.run_entries {client : RelayWeechatClient} (h : Entries client.buffersSync) :
    ∀ command, Entries (SyncCommand.run client command).buffersSync
  | (core, .sync args) => by
    unfold SyncCommand.run relayWeechatProtocolCbSync
    dsimp only
    split
    · exact h
    · exact foldl_entries (relaySyncAdd_entries core _) _ h
  | (core, .desync args) => by
    unfold SyncCommand.run relayWeechatProtocolCbDesync
    dsimp only
    split
    · exact h
    · exact foldl_entries (relaySyncSub_entries core _) _ h

theorem runs_entries : ∀ (commands : List (RelayCore × SyncCommand)) {client : RelayWeechatClient},
    Entries client.buffersSync → Entries (commands.foldl SyncCommand.run client).buffersSync
  | [], _, h => h
  | command :: commands, _, h => runs_entries commands (SyncCommand.run_entries h command)

/-! ## What is synchronized -/

theorem isSync_star (core : RelayCore) (client : RelayWeechatClient) (f : UInt32) :
    relayWeechatProtocolIsSync core client none f = decide (ownFlags client (lit "*") &&& f ≠ 0) := by
  unfold relayWeechatProtocolIsSync ownFlags
  dsimp only [Option.bind_none, Option.none_or]
  cases client.buffersSync.lookup (lit "*") with
  | none => simp
  | some flags => rfl

/-- The flags for a buffer are those of its entry, or of `*` if there is none. -/
theorem isSync_own {core : RelayCore} {client : RelayWeechatClient} (h : Entries client.buffersSync) {buffer : Addr}
    {name : Str} (hname : bufferFullName core buffer = some name) (f : UInt32) :
    relayWeechatProtocolIsSync core client (some buffer) f =
      if ownFlags client name = 0 then relayWeechatProtocolIsSync core client none f
      else decide (ownFlags client name &&& f ≠ 0) := by
  have hlookup := h.lookup name
  change client.buffersSync.lookup name = if ownFlags client name = 0 then none else some (ownFlags client name) at hlookup
  unfold relayWeechatProtocolIsSync
  rw [Option.bind_some, hname, Option.bind_some, hlookup]
  split
  · rfl
  · rfl

theorem isSync_noName {core : RelayCore} (client : RelayWeechatClient) {buffer : Addr}
    (hname : bufferFullName core buffer = none) (f : UInt32) :
    relayWeechatProtocolIsSync core client (some buffer) f = relayWeechatProtocolIsSync core client none f := by
  unfold relayWeechatProtocolIsSync
  rw [Option.bind_some, hname]
  rfl

/-! ## Commands on buffers -/

theorem relaySyncName_single (core : RelayCore) {arg : Str} (h : arg ≠ lit "*") :
    relaySyncName core arg =
      ((relayWeechatProtocolGetBuffer core arg).bind (bufferFullName core)).map fun name => (name, syncForBuffer) := by
  unfold relaySyncName
  rw [if_neg h]
  cases (relayWeechatProtocolGetBuffer core arg).bind (bufferFullName core) with
  | none => rfl
  | some name => rfl

/-- What a command on buffers does to the flags of the entries. -/
structure ChangesOwn (core : RelayCore) (args : RelayArgs) (change : UInt32 → UInt32)
    (before after : RelayWeechatClient) : Prop where
  named : ∀ {name}, NamesBuffer core args name → ownFlags after name = change (ownFlags before name)
  others : ∀ {name}, ¬ NamesBuffer core args name → ownFlags after name = ownFlags before name

/-- The entry of `*` is not changed. -/
theorem ChangesOwn.star {core : RelayCore} {args : RelayArgs} {change : UInt32 → UInt32}
    {before after : RelayWeechatClient} (h : ChangesOwn core args change before after) (hon : OnBuffers core args) :
    ∀ f, relayWeechatProtocolIsSync core after none f = relayWeechatProtocolIsSync core before none f := by
  intro f
  have hno : ¬ NamesBuffer core args (lit "*") := by
    rintro ⟨arg, -, hname⟩
    obtain ⟨buffer, -, hfull⟩ := Option.bind_eq_some_iff.mp hname
    exact hon.names buffer hfull
  rw [isSync_star, isSync_star, h.others hno]

/-- The other buffers are synchronized as before. -/
theorem ChangesOwn.otherBuffer {core : RelayCore} {args : RelayArgs} {change : UInt32 → UInt32}
    {before after : RelayWeechatClient} (h : ChangesOwn core args change before after) (hon : OnBuffers core args)
    (hbefore : Entries before.buffersSync) (hafter : Entries after.buffersSync) {buffer : Addr}
    (hother : OtherBuffer core args buffer) (f : UInt32) :
    relayWeechatProtocolIsSync core after (some buffer) f =
      relayWeechatProtocolIsSync core before (some buffer) f := by
  cases hname : bufferFullName core buffer with
  | none => rw [isSync_noName after hname, isSync_noName before hname, h.star hon]
  | some name =>
    rw [isSync_own hafter hname, isSync_own hbefore hname, h.others (hother name hname), h.star hon]

/-- `sync` adds its flags to those of its buffers. -/
theorem relayWeechatProtocolCbSync_changes {core : RelayCore} {args : RelayArgs} (hon : OnBuffers core args)
    (client : RelayWeechatClient) :
    ChangesOwn core args (· ||| singleFlags args) client (relayWeechatProtocolCbSync core client args) := by
  unfold relayWeechatProtocolCbSync
  dsimp only
  split
  · rename_i hzero
    refine ⟨fun _ => ?_, fun _ => rfl⟩
    rw [singleFlags, hzero, UInt32.zero_and, UInt32.or_zero]
  · have hfold := fun name => @foldl_flags (relaySyncAdd core (relaySyncFlags args))
      (fun arg => (relayWeechatProtocolGetBuffer core arg).bind (bufferFullName core)) (· ||| singleFlags args)
      (fun flags => by rw [UInt32.or_assoc, UInt32.or_self]) (relaySyncBuffers args)
      (fun arg harg buffersSync => by
        have hname := relaySyncName_single core fun h : arg = lit "*" => hon.list (h ▸ harg)
        refine ⟨fun hnone => ?_, fun key hkey => ?_⟩
        · rw [hnone] at hname
          rw [relaySyncAdd, hname]
          rfl
        · rw [hkey] at hname
          exact relaySyncAdd_some hname _ buffersSync) client.buffersSync name
    exact ⟨fun h => (hfold _).1 h, fun h => (hfold _).2 h⟩

/-- `desync` takes its flags from those of its buffers. -/
theorem relayWeechatProtocolCbDesync_changes {core : RelayCore} {args : RelayArgs} (hon : OnBuffers core args)
    (client : RelayWeechatClient) :
    ChangesOwn core args (· &&& ~~~singleFlags args) client (relayWeechatProtocolCbDesync core client args) := by
  unfold relayWeechatProtocolCbDesync
  dsimp only
  split
  · rename_i hzero
    refine ⟨fun _ => ?_, fun _ => rfl⟩
    rw [singleFlags, hzero, UInt32.zero_and, UInt32.not_zero, UInt32.and_neg_one]
  · have hfold := fun name => @foldl_flags (relaySyncSub core (relaySyncFlags args))
      (fun arg => (relayWeechatProtocolGetBuffer core arg).bind (bufferFullName core)) (· &&& ~~~singleFlags args)
      (fun flags => by rw [UInt32.and_assoc, UInt32.and_self]) (relaySyncBuffers args)
      (fun arg harg buffersSync => by
        have hname := relaySyncName_single core fun h : arg = lit "*" => hon.list (h ▸ harg)
        refine ⟨fun hnone => ?_, fun key hkey => ?_⟩
        · rw [hnone] at hname
          rw [relaySyncSub, hname]
          rfl
        · rw [hkey] at hname
          exact relaySyncSub_some hname _ buffersSync) client.buffersSync name
    exact ⟨fun h => (hfold _).1 h, fun h => (hfold _).2 h⟩

theorem syncDone {core : RelayCore} {args : RelayArgs} (hon : OnBuffers core args) {client : RelayWeechatClient}
    (h : Entries client.buffersSync) :
    SyncDone core args client (SyncCommand.run client (core, .sync args)) := by
  have hchanges := relayWeechatProtocolCbSync_changes hon client
  have hafter := SyncCommand.run_entries h (core, .sync args)
  refine ⟨fun {buffer name f} hname hnamed hf hsubset => ?_, fun {buffer name f} hname hnamed hdisjoint => ?_,
    hchanges.otherBuffer hon h hafter, hchanges.star hon⟩
  · have hflags : (ownFlags client name ||| singleFlags args) &&& f ≠ 0 := by
      rw [or_and_flags, UInt32.and_comm (singleFlags args), hsubset]
      exact fun hzero => hf (UInt32.or_eq_zero_iff.mp hzero).2
    have hown : ownFlags client name ||| singleFlags args ≠ 0 := by
      intro hzero
      rw [hzero, UInt32.zero_and] at hflags
      exact hflags rfl
    rw [isSync_own hafter hname, SyncCommand.run, hchanges.named hnamed, if_neg hown]
    exact decide_eq_true hflags
  · have hsame : (ownFlags client name ||| singleFlags args) &&& f = ownFlags client name &&& f := by
      rw [or_and_flags, hdisjoint, UInt32.or_zero]
    rw [isSync_own hafter hname, SyncCommand.run, hchanges.named hnamed, hsame, hchanges.star hon, isSync_own h hname]
    by_cases hown : ownFlags client name = 0
    · by_cases hsingle : singleFlags args = 0
      · simp [hown, hsingle]
      · simp [hown, hsingle]
    · simp [hown]

theorem desyncDone {core : RelayCore} {args : RelayArgs} (hon : OnBuffers core args) {client : RelayWeechatClient}
    (h : Entries client.buffersSync) :
    DesyncDone core args client (SyncCommand.run client (core, .desync args)) := by
  have hchanges := relayWeechatProtocolCbDesync_changes hon client
  have hafter := SyncCommand.run_entries h (core, .desync args)
  refine ⟨fun {buffer name f} hname hnamed hsubset => ?_, fun {buffer name f} hname hnamed hdisjoint => ?_,
    hchanges.otherBuffer hon h hafter, hchanges.star hon⟩
  · have hflags : ownFlags client name &&& ~~~singleFlags args &&& f = 0 := by
      rw [UInt32.and_assoc, not_and_of_subset hsubset, UInt32.and_zero]
    rw [isSync_own hafter hname, SyncCommand.run, hchanges.named hnamed, hchanges.star hon, hflags]
    simp
  · have hsame : ownFlags client name &&& ~~~singleFlags args &&& f = ownFlags client name &&& f := by
      rw [UInt32.and_assoc, and_not_of_and_eq_zero hdisjoint]
    rw [isSync_own hafter hname, SyncCommand.run, hchanges.named hnamed, hchanges.star hon, hsame, isSync_own h hname]
    by_cases hown : ownFlags client name = 0
    · simp [hown]
    · simp [hown]

/-- In every run of commands `sync` and `desync`, a command on buffers gives its
flags to them or takes them, by the entries of their names; a buffer without a
flag of its own has those of `*`. -/
theorem relaySync_run (server : RelayServer) (status : RelayStatus) (history : List (RelayCore × SyncCommand))
    {core : RelayCore} {args : RelayArgs} (hon : OnBuffers core args) :
    SyncDone core args (history.foldl SyncCommand.run (relayWeechatAlloc server status))
        ((history ++ [(core, SyncCommand.sync args)]).foldl SyncCommand.run (relayWeechatAlloc server status)) ∧
      DesyncDone core args (history.foldl SyncCommand.run (relayWeechatAlloc server status))
        ((history ++ [(core, SyncCommand.desync args)]).foldl SyncCommand.run (relayWeechatAlloc server status)) := by
  have hstart : Entries (relayWeechatAlloc server status).buffersSync := fun name => (Option.some_ne_none 0).symm
  have h := runs_entries history hstart
  rw [List.foldl_append, List.foldl_append]
  exact ⟨syncDone hon h, desyncDone hon h⟩

/-- The arguments of a command on the buffer `core.weechat`. -/
def exampleSyncArgs (flags : Str) : RelayArgs := ⟨none, [lit "core.weechat", flags], []⟩

theorem relaySync_run_example :
    OnBuffers exampleCore (exampleSyncArgs (lit "buffer")) ∧
      DesyncDone exampleCore (exampleSyncArgs (lit "buffer")) (relayWeechatAlloc exampleServer .connected)
        (SyncCommand.run (relayWeechatAlloc exampleServer .connected)
          (exampleCore, .desync (exampleSyncArgs (lit "buffer")))) := by
  have hon : OnBuffers exampleCore (exampleSyncArgs (lit "buffer")) := by
    refine ⟨by decide +kernel, fun buffer h => ?_⟩
    obtain ⟨item, hitem, hname⟩ := Option.bind_eq_some_iff.mp h
    rw [List.mem_singleton.mp (List.mem_of_find?_eq_some hitem)] at hname
    exact absurd hname (by decide)
  exact ⟨hon, (relaySync_run exampleServer .connected [] hon).2⟩

/-- A client that has synchronized `*`. -/
def exampleStar : RelayWeechatClient :=
  SyncCommand.run (relayWeechatAlloc exampleServer .connected) (exampleCore, .sync ⟨none, [lit "*"], []⟩)

/-- After `sync *`, `desync` of a buffer leaves it synchronized, and `sync` of
its nicklist stops its lines. -/
theorem relaySync_star :
    relayWeechatProtocolIsSync exampleCore exampleStar (some 4096) syncBuffer = true ∧
      relayWeechatProtocolIsSync exampleCore
        (SyncCommand.run exampleStar (exampleCore, .desync (exampleSyncArgs (lit "buffer")))) (some 4096)
        syncBuffer = true ∧
      relayWeechatProtocolIsSync exampleCore
        (SyncCommand.run exampleStar (exampleCore, .sync (exampleSyncArgs (lit "nicklist")))) (some 4096)
        syncBuffer = false := by
  decide +kernel

end Wirc

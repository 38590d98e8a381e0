import WhoreIrc.Framework.Run
import WhoreIrc.Proof.IrcModeChannel

/-!
# The prefixes of nicks

All that writes prefixes in a nick keeps it fit for the tables of the server
(`nickSetPrefix_fits`), and so does each message on nicks. A message 005 changes
the tables and no nick (`isupport_fits_iff`). From this, when all nicks fit in
all states of a run (`prefixesFit_run_iff`).
-/

namespace Wirc

open Framework

/-! ## Writing prefixes -/

section

variable {server : IrcServerModes} {nick : IrcNick}

theorem strchr_getElem {s t : Str} {c : Byte} (h : strchr s c = some t) : s[off s t]? = some c := by
  obtain ⟨u, v, rfl, rfl, -⟩ := strchr_some h
  rw [off_append, List.getElem?_append_right (Nat.le_refl _), Nat.sub_self]
  rfl

/-- The char of a prefix is at its index. -/
theorem charIndex_getElem {c : Byte} {index : Nat} (h : ircServerGetPrefixCharIndex server c = some index) :
    (ircServerGetPrefixChars server)[index]? = some c := by
  rw [ircServerGetPrefixCharIndex] at h
  obtain ⟨t, ht, rfl⟩ := Option.map_eq_some_iff.mp h
  exact strchr_getElem ht

/-- A mode that has an index has a char. -/
theorem modeIndex_char {mode : Byte} {index : Nat} (h : ircServerGetPrefixModeIndex server mode = some index) :
    ∃ c, (ircServerGetPrefixChars server)[index]? = some c := by
  rw [ircServerGetPrefixModeIndex] at h
  obtain ⟨t, ht, rfl⟩ := Option.map_eq_some_iff.mp h
  obtain ⟨hlt, -⟩ := List.getElem?_eq_some_iff.mp (strchr_getElem ht)
  have hlength := (server.prefixTable.getD ircServerPrefixDefault).length_eq
  exact ⟨_, List.getElem?_eq_getElem (hlength.symm ▸ hlt)⟩

/-- `irc_nick_set_prefix` writes inside the string, the char of the position or a space. -/
theorem nickSetPrefix_fits (h : PositionsFit server nick.prefixes) (set : Bool) (prefixChar : Byte) :
    ∃ nick', ircNickSetPrefix server nick set prefixChar = some nick' ∧ PositionsFit server nick'.prefixes ∧
      (ShowsFirst nick → ShowsFirst nick') := by
  unfold ircNickSetPrefix
  cases hindex : ircServerGetPrefixCharIndex server prefixChar with
  | none => exact ⟨nick, rfl, h, id⟩
  | some index =>
    have hchar := charIndex_getElem hindex
    obtain ⟨hlt, -⟩ := List.getElem?_eq_some_iff.mp hchar
    rw [← h.length_eq] at hlt
    dsimp only
    rw [if_pos hlt]
    refine ⟨_, rfl, ⟨List.length_set.trans h.length_eq, fun i c hc => ?_⟩, fun _ => rfl⟩
    rw [ircNickSetCurrentPrefix, List.getElem?_set] at hc
    split at hc
    · rename_i heq
      rw [Option.some.injEq] at hc
      rw [← heq, ← hc]
      cases set with
      | false => exact .inl rfl
      | true => exact .inr hchar
    · exact h.position i c hc

/-- `irc_nick_set_prefixes` resets all positions, and sets some of them. -/
theorem nickSetPrefixes_fits (hlength : nick.prefixes.length = (ircServerGetPrefixChars server).length)
    (prefixes : Option Str) :
    ∃ nick', ircNickSetPrefixes server nick prefixes = some nick' ∧ NickFits server nick' := by
  have hreset : PositionsFit server (List.replicate nick.prefixes.length (ch ' ')) :=
    ⟨List.length_replicate.trans hlength, fun i c hc => .inl (List.eq_of_mem_replicate (List.mem_of_getElem? hc))⟩
  have hstep : ∀ (nick : IrcNick) prefixChar, PositionsFit server nick.prefixes →
      ∃ nick', ircNickSetPrefix server nick true prefixChar = some nick' ∧ PositionsFit server nick'.prefixes :=
    fun nick prefixChar h => by
      obtain ⟨nick', hnick', hfits, -⟩ := nickSetPrefix_fits h true prefixChar
      exact ⟨nick', hnick', hfits⟩
  obtain ⟨nick', hnick', hfits⟩ := @foldlM_invariant _ _ _ _ hstep
    { nick with prefixes := List.replicate nick.prefixes.length (ch ' ') } hreset (prefixes.getD [])
  rw [ircNickSetPrefixes, hnick', Option.map_some]
  exact ⟨_, rfl, hfits, rfl⟩

/-- `irc_nick_set_mode` sets the char of a mode. -/
theorem nickSetMode_fits (h : NickFits server nick) (set : Bool) (mode : Byte) :
    ∃ nick', ircNickSetMode server nick set mode = some nick' ∧ NickFits server nick' := by
  unfold ircNickSetMode
  cases hindex : ircServerGetPrefixModeIndex server mode with
  | none => exact ⟨nick, rfl, h⟩
  | some index =>
    obtain ⟨prefixChar, hchar⟩ := modeIndex_char hindex
    obtain ⟨nick', hnick', hpositions, hcurrent⟩ := nickSetPrefix_fits h.positions set prefixChar
    dsimp only
    rw [hchar, Option.bind_some]
    exact ⟨nick', hnick', hpositions, hcurrent h.current⟩

/-! ## The nicks of a channel -/

variable {nicks : List IrcNick}

theorem changeNick_fits {change : IrcNick → Option IrcNick}
    (hchange : ∀ nick, NickFits server nick → ∃ nick', change nick = some nick' ∧ NickFits server nick')
    (h : ∀ nick ∈ nicks, NickFits server nick) (nickname : Str) :
    ∃ nicks', changeNick server change nickname nicks = some nicks' ∧ ∀ nick ∈ nicks', NickFits server nick := by
  induction nicks with
  | nil => exact ⟨[], rfl, h⟩
  | cons nick nicks ih =>
    rw [List.forall_mem_cons] at h
    rw [changeNick]
    split
    · obtain ⟨nick', hnick', hfits⟩ := hchange nick h.1
      rw [hnick', Option.map_some]
      exact ⟨_, rfl, List.forall_mem_cons.mpr ⟨hfits, h.2⟩⟩
    · obtain ⟨nicks', hnicks', hfits⟩ := ih h.2
      rw [hnicks', Option.map_some]
      exact ⟨_, rfl, List.forall_mem_cons.mpr ⟨h.1, hfits⟩⟩

theorem nickNew_fits (h : ∀ nick ∈ nicks, NickFits server nick) (nickname : Str) (prefixes : Option Str) :
    ∃ nicks', ircNickNew server nicks nickname prefixes = some nicks' ∧ ∀ nick ∈ nicks', NickFits server nick := by
  rw [ircNickNew]
  split
  · exact ⟨nicks, rfl, h⟩
  · split
    · exact changeNick_fits (fun nick hnick => nickSetPrefixes_fits hnick.positions.length_eq prefixes) h nickname
    · dsimp only
      obtain ⟨nick', hnick', hfits⟩ := @nickSetPrefixes_fits server
        ⟨nickname, List.replicate (ircServerGetPrefixChars server).length (ch ' '), ch ' '⟩ List.length_replicate prefixes
      rw [hnick', Option.map_some]
      refine ⟨_, rfl, fun nick hnick => ?_⟩
      rcases List.mem_append.mp hnick with hnick | hnick
      · exact h nick hnick
      · rwa [List.mem_singleton.mp hnick]

theorem names_fits (h : ∀ nick ∈ nicks, NickFits server nick) (words : List Str) :
    ∃ nicks', ircProtocolCb353 server nicks words = some nicks' ∧ ∀ nick ∈ nicks', NickFits server nick := by
  refine foldlM_invariant (fun nicks word h => ?_) h words
  split
  · exact ⟨nicks, rfl, h⟩
  · exact nickNew_fits h _ _

end

/-! ## Messages of a server -/

section

variable {Nicks : Type}

variable {server : IrcServerModes} {I : Nicks → Prop} {setNickMode : Nicks → Str → Bool → Byte → Nicks}

theorem channelSetMode_nicks (hset : ∀ nicks nickname set mode, I nicks → I (setNickMode nicks nickname set mode))
    {channel : IrcChannel Nicks} (h : I channel.nicks) (setFlag : Bool) (mode : Byte) (ptrArg : Option Str) :
    I (ircModeChannelSetMode server setNickMode channel setFlag mode ptrArg).2.nicks := by
  unfold ircModeChannelSetMode
  dsimp only
  split
  · exact h
  split
  · exact h
  split
  · cases ptrArg with
    | some argument => exact hset _ _ _ _ h
    | none => exact h
  · exact h

/-- What each mode for a nick keeps, a call keeps. -/
theorem channelSet_nicks (hset : ∀ nicks nickname set mode, I nicks → I (setNickMode nicks nickname set mode))
    {channel : IrcChannel Nicks} (h : I channel.nicks) (modes : Str) (modesArguments : Option Str) :
    I (ircModeChannelSet server setNickMode channel modes modesArguments).nicks := by
  rw [channelSet_words]
  generalize modeWords (modesArguments.getD []) = argv
  generalize true = setFlag
  induction modes generalizing setFlag argv channel with
  | nil => exact h
  | cons c modes ih =>
    rw [ircModeChannelSetLoop]
    split
    · exact ih h _ _
    split
    · exact h
    split
    · exact ih h _ _
    split
    · exact ih h _ _
    · refine ih ?_ _ _
      split
      · exact channelSetMode_nicks hset h _ _ _
      · exact channelSetMode_nicks hset h _ _ _

end

/-! ### The message 005 -/

section

variable {server : IrcServerModes}

/-- The chars after a value of PREFIX. -/
theorem setPrefix_chars (value : Str) :
    ircServerGetPrefixChars (ircServerSetPrefixModesChars server value) = announcedChars value := by
  unfold ircServerSetPrefixModesChars ircServerGetPrefixChars announcedChars
  dsimp only
  cases hpos : strchr value (ch ')') with
  | none =>
    rw [if_neg fun h => strchr_none.mp hpos h.1]
    rfl
  | some pos =>
    obtain ⟨u, v, rfl, rfl, hu⟩ := strchr_some hpos
    have hmem : ch ')' ∈ u ++ ch ')' :: v := List.mem_append_right _ (List.mem_cons_self ..)
    have hall : ∀ c ∈ u, decide (c ≠ ch ')') = true := fun c hc => decide_eq_true fun h => hu (h ▸ hc)
    have hoff := off_append u (ch ')' :: v)
    dsimp only
    cases u with
    | nil =>
      rw [List.length_nil] at hoff
      rw [if_pos hoff, if_neg fun h => h.2 rfl]
      rfl
    | cons c u =>
      have hhead : (c :: u ++ ch ')' :: v).head? ≠ some (ch ')') := fun h =>
        hu (Option.some.inj h ▸ List.mem_cons_self ..)
      have hmodes : strndup (c :: u ++ ch ')' :: v).tail ((c :: u).length - 1) = u := List.take_left
      rw [if_neg (by rw [hoff]; exact Nat.succ_ne_zero _), if_pos ⟨hmem, hhead⟩, List.takeWhile_append_of_pos hall,
        List.dropWhile_append_of_pos hall, List.takeWhile_cons_of_neg (by decide),
        List.dropWhile_cons_of_neg (by decide), List.append_nil, Option.getD_some]
      dsimp only
      rw [hoff, hmodes, prefixCharsFor, List.take_append, List.take_replicate,
        Nat.min_eq_left (Nat.sub_le _ _)]
      rfl

/-- The chars after a message 005. -/
theorem isupport_chars (text : Str) :
    ircServerGetPrefixChars (ircProtocolCb005 server text) =
      ((isupportValue text (lit "PREFIX=")).map announcedChars).getD (ircServerGetPrefixChars server) := by
  unfold ircProtocolCb005
  dsimp only
  cases isupportValue text (lit "PREFIX=") with
  | none =>
    cases isupportValue text (lit "CASEMAPPING=") with
    | none =>
      cases isupportValue text (lit "CHANMODES=") with
      | none => rfl
      | some value => rfl
    | some value =>
      cases isupportValue text (lit "CHANMODES=") with
      | none => rfl
      | some value => rfl
  | some value =>
    rw [Option.map_some, Option.getD_some, ← @setPrefix_chars server value]
    cases isupportValue text (lit "CASEMAPPING=") with
    | none =>
      cases isupportValue text (lit "CHANMODES=") with
      | none => rfl
      | some value => rfl
    | some value =>
      cases isupportValue text (lit "CHANMODES=") with
      | none => rfl
      | some value => rfl

/-- A nick fits other chars if and only if they are the same for it. -/
theorem nickFits_announced {server' : IrcServerModes} {value : Str}
    (hchars : ircServerGetPrefixChars server' = announcedChars value) {nick : IrcNick} (h : NickFits server nick) :
    NickFits server' nick ↔ SamePrefixes server value nick := by
  constructor
  · intro h'
    refine ⟨?_, fun i c hc hne => ?_⟩
    · rw [← hchars, ← h'.positions.length_eq, h.positions.length_eq]
    · rw [← hchars, (h'.positions.position i c hc).resolve_left hne, (h.positions.position i c hc).resolve_left hne]
  · intro hsame
    refine ⟨⟨?_, fun i c hc => ?_⟩, h.current⟩
    · rw [hchars, hsame.length_eq, h.positions.length_eq]
    · rcases h.positions.position i c hc with hspace | hchar
      · exact .inl hspace
      · by_cases hspace : c = ch ' '
        · exact .inl hspace
        · exact .inr (by rw [hchars, hsame.used i c hc hspace, hchar])

end

/-! ### Runs -/

section

variable {Channel : Type} [DecidableEq Channel] {server : IrcServerChannels Channel}

/-- A change of one channel that keeps its nicks fit. -/
theorem changeChannel_fits (h : PrefixesFit server) {channel : Channel}
    {change : IrcChannel (Option (List IrcNick)) → IrcChannel (Option (List IrcNick))}
    (hchange : ∀ ptrChannel nicks, ptrChannel.nicks = some nicks → (∀ nick ∈ nicks, NickFits server.server nick) →
      ∃ nicks', (change ptrChannel).nicks = some nicks' ∧ ∀ nick ∈ nicks', NickFits server.server nick) :
    PrefixesFit (changeChannel server channel change) := fun channel' => by
  obtain ⟨nicks, hnicks, hfits⟩ := h channel'
  rw [changeChannel]
  dsimp only
  by_cases hsame : channel' = channel
  · rw [hsame, Function.update_self]
    rw [hsame] at hnicks
    exact hchange _ nicks hnicks hfits
  · rw [Function.update_of_ne hsame]
    exact ⟨nicks, hnicks, hfits⟩

/-- A message keeps the nicks fit if and only if the prefixes that they have stay the same. -/
theorem receive_fits_iff (h : PrefixesFit server) (message : IrcServerMessage Channel) :
    KeepsPrefixes server message ↔ PrefixesFit (receiveMessage server message) := by
  cases message with
  | isupport text =>
    rw [KeepsPrefixes, receiveMessage]
    have hchars := @isupport_chars server.server text
    cases hvalue : isupportValue text (lit "PREFIX=") with
    | none =>
      rw [hvalue, Option.map_none, Option.getD_none] at hchars
      refine ⟨fun _ channel => ?_, fun _ value' hvalue' => by cases hvalue'⟩
      obtain ⟨nicks, hnicks, hfits⟩ := h channel
      refine ⟨nicks, hnicks, fun nick hnick => ⟨⟨?_, ?_⟩, (hfits nick hnick).current⟩⟩
      · rw [hchars]
        exact (hfits nick hnick).positions.length_eq
      · rw [hchars]
        exact (hfits nick hnick).positions.position
    | some value =>
      rw [hvalue, Option.map_some, Option.getD_some] at hchars
      constructor
      · intro hkeeps channel
        obtain ⟨nicks, hnicks, hfits⟩ := h channel
        exact ⟨nicks, hnicks, fun nick hnick =>
          (nickFits_announced hchars (hfits nick hnick)).mpr (hkeeps value rfl channel nicks hnicks nick hnick)⟩
      · intro hfits' value' hvalue' channel nicks hnicks nick hnick
        cases hvalue'
        obtain ⟨_, hnicks', hfits⟩ := h channel
        obtain ⟨_, hnicks'', hfits'⟩ := hfits' channel
        cases hnicks.symm.trans hnicks'
        cases hnicks.symm.trans hnicks''
        exact (nickFits_announced hchars (hfits nick hnick)).mp (hfits' nick hnick)
  | nickNew channel nickname prefixes =>
    refine ⟨fun _ => ?_, fun _ => trivial⟩
    rw [receiveMessage]
    refine changeChannel_fits h fun ptrChannel nicks hnicks hfits => ?_
    dsimp only
    rw [hnicks, Option.bind_some]
    exact nickNew_fits hfits nickname prefixes
  | mode channel modes modesArguments =>
    refine ⟨fun _ => ?_, fun _ => trivial⟩
    rw [receiveMessage]
    refine changeChannel_fits h fun ptrChannel nicks hnicks hfits => ?_
    refine @channelSet_nicks _ _
      (fun nicks => ∃ nicks', nicks = some nicks' ∧ ∀ nick ∈ nicks', NickFits server.server nick) _ ?_ ptrChannel
      ⟨nicks, hnicks, hfits⟩ modes modesArguments
    rintro _ nickname set mode ⟨nicks, rfl, hfits⟩
    rw [setNickMode, Option.bind_some]
    exact changeNick_fits (fun nick hnick => nickSetMode_fits hnick set mode) hfits nickname
  | names channel words =>
    refine ⟨fun _ => ?_, fun _ => trivial⟩
    rw [receiveMessage]
    refine changeChannel_fits h fun ptrChannel nicks hnicks hfits => ?_
    dsimp only
    rw [hnicks, Option.bind_some]
    exact names_fits hfits words

/-- The nicks fit in all states of a run if and only if each message 005 keeps the
prefixes that they have. -/
theorem prefixesFit_run_iff (server : IrcServerChannels Channel)
    (hstart : ∀ channel, (server.channel channel).nicks = some []) (messages : List (IrcServerMessage Channel)) :
    (∀ before after, messages = before ++ after → PrefixesFit (before.foldl receiveMessage server)) ↔
      Along receiveMessage KeepsPrefixes server messages := by
  have hfits : PrefixesFit server := fun channel => ⟨[], hstart channel, fun nick h => absurd h List.not_mem_nil⟩
  refine along_states ?_ hfits messages
  exact fun server message h => receive_fits_iff h message

end

/-- A server with one channel that is open. -/
def oneChannelServer : IrcServerChannels Unit := ⟨⟨.rfc1459, none, none⟩, fun _ => ⟨none, none, 0, some [], false⟩⟩

/-- A nick with voice, and a message 005 that changes the other prefix. -/
def voiceMessages : List (IrcServerMessage Unit) :=
  [.nickNew () (lit "nick") (some (lit "+")), .isupport (lit "PREFIX=(av)&+ :are supported"),
    .mode () (lit "-v") (some (lit "nick"))]

theorem prefixesFit_run_voice : PrefixesFit (voiceMessages.foldl receiveMessage oneChannelServer) := by
  have halong : Along receiveMessage KeepsPrefixes oneChannelServer voiceMessages := by
    refine ⟨trivial, ?_, trivial, trivial⟩
    intro value hvalue channel nicks hnicks nick hnick
    have hvalue' : isupportValue (lit "PREFIX=(av)&+ :are supported") (lit "PREFIX=") = some (lit "(av)&+") := by decide
    have hnicks' : ((receiveMessage oneChannelServer (.nickNew () (lit "nick") (some (lit "+")))).channel ()).nicks =
        some [⟨lit "nick", lit " +", ch '+'⟩] := by decide
    cases hvalue.symm.trans hvalue'
    cases hnicks.symm.trans hnicks'
    rw [List.mem_singleton.mp hnick]
    refine ⟨by decide, fun i c hc hne => ?_⟩
    rcases i with _ | _ | i
    · exact absurd (Option.some.inj hc).symm hne
    · decide
    · cases hc
  exact (prefixesFit_run_iff oneChannelServer (fun _ => rfl) _).mpr halong _ [] (List.append_nil _).symm

/-- A nick has two positions, a message 005 gives three prefixes, and the third is set. -/
def shortMessages : List (IrcServerMessage Unit) :=
  [.nickNew () (lit "nick") none, .isupport (lit "PREFIX=(ohv)@%+ :are supported"),
    .mode () (lit "+v") (some (lit "nick"))]

theorem prefixesFit_run_fails : ¬ PrefixesFit (shortMessages.foldl receiveMessage oneChannelServer) := fun h => by
  have houtside : ((shortMessages.foldl receiveMessage oneChannelServer).channel ()).nicks = none := by decide +kernel
  obtain ⟨nicks, hnicks, -⟩ := h ()
  rw [houtside] at hnicks
  cases hnicks

end Wirc

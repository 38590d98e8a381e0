import WhoreIrc.Proof.Hashtable
import WhoreIrc.Proof.StringCase
import WhoreIrc.Spec.IrcChannelSpeaking

/-!
# Nicks speaking once (`speaking_iff`)

For each operation, what it does to a list with distinct nicks: a nick is added
after the others (`nickSpeakingAdd_right`), one is set (`nicksDistinct_set`), or
all that are present (`nicksDistinct_map`).
-/

namespace Wirc

open Framework

variable {weelist : List Str} {nickName newNick : Str} {item : Nat}

/-! ## One list -/

theorem NicksDistinct.sublist {weelist' : List Str} (h : NicksDistinct weelist) (hsub : weelist'.Sublist weelist) :
    NicksDistinct weelist' := List.Pairwise.sublist hsub h

theorem weelistRemove_casesearch (weelist : List Str) (nickName : Str) :
    weelistRemove weelist (weelistCasesearch weelist nickName) =
      weelist.eraseP fun ptrItem => stringStrcasecmp nickName ptrItem = 0 := by
  rw [List.eraseP_eq_eraseIdx, weelistCasesearch]
  cases weelist.findIdx? fun ptrItem => stringStrcasecmp nickName ptrItem = 0 with
  | none => rfl
  | some item => rfl

/-- Among distinct nicks, one at most is the nick. -/
theorem NicksDistinct.eraseP (h : NicksDistinct weelist) (nickName : Str) :
    ∀ nick ∈ weelist.eraseP (fun ptrItem => stringStrcasecmp nickName ptrItem = 0), stringStrcasecmp nickName nick ≠ 0 := by
  induction weelist with
  | nil => exact List.forall_mem_nil _
  | cons first weelist ih =>
    obtain ⟨hfirst, hrest⟩ := List.pairwise_cons.mp h
    by_cases heq : stringStrcasecmp nickName first = 0
    · rw [List.eraseP_cons_of_pos (p := fun ptrItem => stringStrcasecmp nickName ptrItem = 0) (decide_eq_true heq)]
      intro nick hmem hnick
      refine hfirst nick hmem (Int.le_antisymm ?_ ?_)
      · exact strcasecmp_order.trans _ _ _ (Int.le_of_eq (strcasecmp_order.symm heq)) (Int.le_of_eq hnick)
      · exact (strcasecmp_order.le_flip _ _).mp
          (strcasecmp_order.trans _ _ _ (Int.le_of_eq (strcasecmp_order.symm hnick)) (Int.le_of_eq heq))
    · rw [List.eraseP_cons_of_neg (by simpa using heq), List.forall_mem_cons]
      exact ⟨heq, ih hrest⟩

theorem weelistRemoveFirst_eq (toRemove : Nat) (weelist : List Str) :
    weelistRemoveFirst toRemove weelist = weelist.drop toRemove := by
  induction toRemove generalizing weelist with
  | zero => rfl
  | succ toRemove ih =>
    rw [weelistRemoveFirst, ih]
    cases weelist with
    | nil => exact List.drop_nil
    | cons first weelist => rfl

/-- The list after a nick was added, which is not the empty one. -/
theorem nickSpeakingAdd_eq (h : NicksDistinct weelist) (hne : nickName ≠ []) :
    ∃ others, nickSpeakingAdd weelist nickName = others ++ [nickName] ∧ NicksDistinct (others ++ [nickName]) ∧
      (others ++ [nickName]).length ≤ ircChannelNicksSpeakingLimit := by
  have herase := h.eraseP nickName
  have hdistinct : NicksDistinct (weelist.eraseP fun ptrItem => stringStrcasecmp nickName ptrItem = 0) :=
    h.sublist (List.eraseP_sublist ..)
  rw [nickSpeakingAdd, weelistRemove_casesearch]
  generalize weelist.eraseP (fun ptrItem => stringStrcasecmp nickName ptrItem = 0) = weelist' at herase hdistinct
  have hsearch : weelistSearch weelist' nickName = none := by
    rw [weelistSearch, List.findIdx?_eq_none_iff]
    intro nick hmem
    refine decide_eq_false fun heq => herase nick hmem ?_
    rw [← strcmp_order.eq _ _ heq]
    exact strcasecmp_order.refl nickName
  have hadd : weelistAdd weelist' nickName .posEnd = weelist' ++ [nickName] := by
    rw [weelistAdd, if_neg hne, weelistInsert, hsearch]
    rfl
  have hadded : NicksDistinct (weelist' ++ [nickName]) := by
    refine List.pairwise_append.mpr ⟨hdistinct, List.pairwise_singleton _ _, fun nick hmem nick' hmem' heq => ?_⟩
    rw [List.mem_singleton.mp hmem'] at heq
    exact herase nick hmem (strcasecmp_order.symm heq)
  rw [hadd]
  split
  · rename_i hgt
    -- the first items are removed
    have hdrop : weelistRemoveFirst ((weelist' ++ [nickName]).length - ircChannelNicksSpeakingLimit)
        (weelist' ++ [nickName]) =
        weelist'.drop ((weelist' ++ [nickName]).length - ircChannelNicksSpeakingLimit) ++ [nickName] := by
      rw [weelistRemoveFirst_eq, List.drop_append_of_le_length]
      rw [List.length_append, List.length_singleton, ircChannelNicksSpeakingLimit]
      omega
    refine ⟨_, hdrop, hadded.sublist ((List.drop_sublist ..).append_right _), ?_⟩
    rw [List.length_append, List.length_drop, List.length_singleton, List.length_append, List.length_singleton,
      ircChannelNicksSpeakingLimit]
    rw [List.length_append, List.length_singleton, ircChannelNicksSpeakingLimit] at hgt
    omega
  · rename_i hle
    exact ⟨weelist', rfl, hadded, Nat.le_of_not_lt hle⟩

/-- The empty nick is removed, and not added. -/
theorem nickSpeakingAdd_nil (h : NicksDistinct weelist) : (nickSpeakingAdd weelist []).getLast? ≠ some [] := by
  have herase := h.eraseP []
  rw [nickSpeakingAdd, weelistRemove_casesearch]
  generalize weelist.eraseP (fun ptrItem => stringStrcasecmp [] ptrItem = 0) = weelist' at herase
  have hadd : weelistAdd weelist' [] .posEnd = weelist' := if_pos rfl
  rw [hadd]
  intro hlast
  have hmem := List.mem_of_getLast? hlast
  refine herase [] ?_ (strcasecmp_order.refl [])
  split at hmem
  · rw [weelistRemoveFirst_eq] at hmem
    exact List.mem_of_mem_drop hmem
  · exact hmem

/-- A nick is set. -/
theorem nicksDistinct_set (h : NicksDistinct weelist) (hitem : item < weelist.length) :
    NicksDistinct (weelist.set item newNick) ↔ ∀ nick ∈ weelist.eraseIdx item, stringStrcasecmp nick newNick ≠ 0 := by
  have hothers : NicksDistinct (weelist.eraseIdx item) := h.sublist (List.eraseIdx_sublist ..)
  rw [List.eraseIdx_eq_take_drop_succ] at hothers ⊢
  rw [List.set_eq_take_append_cons_drop, if_pos hitem]
  obtain ⟨hbefore, hafter, hbetween⟩ := List.pairwise_append.mp hothers
  rw [NicksDistinct, List.pairwise_append, List.pairwise_cons]
  constructor
  · rintro ⟨-, ⟨hnew, -⟩, hall⟩ nick hmem
    rcases List.mem_append.mp hmem with hmem | hmem
    · exact hall nick hmem newNick (List.mem_cons_self ..)
    · exact fun heq => hnew nick hmem (strcasecmp_order.symm heq)
  · intro hnew
    refine ⟨hbefore, ⟨fun nick hmem heq => ?_, hafter⟩, fun nick hmem nick' hmem' => ?_⟩
    · exact hnew nick (List.mem_append_right _ hmem) (strcasecmp_order.symm heq)
    · rcases List.mem_cons.mp hmem' with rfl | hmem'
      · exact hnew nick (List.mem_append_left _ hmem)
      · exact hbetween nick hmem nick' hmem'

/-! ## Nicks that are present -/

theorem wideCharLower_toNat (wchar : UInt32) :
    (wideCharLower wchar).toNat = if 65 ≤ wchar.toNat ∧ wchar.toNat ≤ 90 then wchar.toNat + 32 else wchar.toNat := by
  have hiff : (65 ≤ wchar && wchar ≤ 90) = true ↔ 65 ≤ wchar.toNat ∧ wchar.toNat ≤ 90 := by
    rw [Bool.and_eq_true, decide_eq_true_eq, decide_eq_true_eq]
    exact Iff.rfl
  rw [wideCharLower]
  by_cases h : 65 ≤ wchar.toNat ∧ wchar.toNat ≤ 90
  · rw [if_pos (hiff.mpr h), if_pos h, UInt32.toNat_add]
    show (wchar.toNat + 32) % 2 ^ 32 = wchar.toNat + 32
    omega
  · rw [if_neg (mt hiff.mp h), if_neg h]

theorem wideCharLowerRange_toNat {range : UInt32} (hrange : range ≤ 30) (wchar : UInt32) :
    (wideCharLowerRange range wchar).toNat =
      if 65 ≤ wchar.toNat ∧ wchar.toNat < 65 + range.toNat then wchar.toNat + 32 else wchar.toNat := by
  have hle : range.toNat ≤ 30 := hrange
  have hsum : (65 + range).toNat = 65 + range.toNat := by
    rw [UInt32.toNat_add]
    show (65 + range.toNat) % 2 ^ 32 = 65 + range.toNat
    omega
  have hiff : (65 ≤ wchar && wchar < 65 + range) = true ↔ 65 ≤ wchar.toNat ∧ wchar.toNat < 65 + range.toNat := by
    rw [Bool.and_eq_true, decide_eq_true_eq, decide_eq_true_eq, UInt32.lt_iff_toNat_lt, hsum]
    exact Iff.rfl
  rw [wideCharLowerRange]
  by_cases h : 65 ≤ wchar.toNat ∧ wchar.toNat < 65 + range.toNat
  · rw [if_pos (hiff.mpr h), if_pos h, UInt32.toNat_add]
    show (wchar.toNat + 32) % 2 ^ 32 = wchar.toNat + 32
    omega
  · rw [if_neg (mt hiff.mp h), if_neg h]

/-- Letters that are equal ignoring case are equal for the server. -/
theorem wideCharLowerRange_eq {range wchar1 wchar2 : UInt32} (hrange : 26 ≤ range ∧ range ≤ 30)
    (h : wideCharLower wchar1 = wideCharLower wchar2) :
    wideCharLowerRange range wchar1 = wideCharLowerRange range wchar2 := by
  have hlow : 26 ≤ range.toNat := hrange.1
  have hlower := congrArg UInt32.toNat h
  rw [wideCharLower_toNat, wideCharLower_toNat] at hlower
  rw [← UInt32.toNat_inj, wideCharLowerRange_toNat hrange.2, wideCharLowerRange_toNat hrange.2]
  have hhigh : range.toNat ≤ 30 := hrange.2
  split_ifs at hlower ⊢ <;> omega

theorem stringStrcaseeqRange_of_strcasecmp {range : UInt32} (hrange : 26 ≤ range ∧ range ≤ 30) {string1 string2 : Str}
    (h : stringStrcasecmp string1 string2 = 0) : stringStrcaseeqRange range string1 string2 = true := by
  induction hn : string1.length using Nat.strong_induction_on generalizing string1 string2 with
  | _ n ih =>
    rw [stringStrcaseeqRange]
    by_cases hnil : string1 = [] ∨ string2 = []
    · rw [dif_pos hnil]
      rw [strcasecmp_eq, if_pos hnil] at h
      refine decide_eq_true ?_
      by_cases h1 : string1 = []
      · rw [if_neg (not_not.mpr h1)] at h
        by_cases h2 : string2 = []
        · rw [h1, h2]
        · rw [if_pos h2] at h
          cases h
      · rw [if_pos h1] at h
        cases h
    · obtain ⟨h1, h2⟩ := not_or.mp hnil
      rw [strcasecmp_step h1 h2] at h
      have hchar : utf8Charcasecmp string1 string2 = 0 := by
        by_contra hne
        rw [if_neg hne] at h
        split at h <;> cases h
      rw [if_pos hchar] at h
      rw [dif_neg hnil, Bool.and_eq_true, decide_eq_true_eq]
      exact ⟨wideCharLowerRange_eq hrange ((charcasecmp_eq_zero ..).mp hchar),
        ih _ (hn ▸ utf8NextChar_length_lt h1) h rfl⟩

/-- What `irc_server_strcasecmp` makes equal. -/
theorem ircServerStrcaseeq_of_strcasecmp (server : IrcServerModes) {string1 string2 : Str}
    (h : stringStrcasecmp string1 string2 = 0) : ircServerStrcaseeq server string1 string2 = true := by
  rw [ircServerStrcaseeq]
  split
  · exact stringStrcaseeqRange_of_strcasecmp (by decide) h
  · exact stringStrcaseeqRange_of_strcasecmp (by decide) h
  · exact decide_eq_true h

theorem countP_le_one {α : Type*} {p : α → Bool} {l : List α} :
    l.countP p ≤ 1 ↔ l.Pairwise fun a b => ¬ (p a = true ∧ p b = true) := by
  induction l with
  | nil => exact iff_of_true (Nat.zero_le _) List.Pairwise.nil
  | cons a l ih =>
    rw [List.pairwise_cons, ← ih]
    by_cases ha : p a = true
    · rw [List.countP_cons_of_pos ha]
      constructor
      · intro hle
        have hzero : l.countP p = 0 := Nat.le_zero.mp (Nat.le_of_succ_le_succ hle)
        exact ⟨fun b hb hboth => List.countP_eq_zero.mp hzero b hb hboth.2, hzero ▸ Nat.zero_le _⟩
      · rintro ⟨hnone, -⟩
        have hzero : l.countP p = 0 := List.countP_eq_zero.mpr fun b hb hpb => hnone b hb ⟨ha, hpb⟩
        exact Nat.le_of_eq (congrArg Nat.succ hzero)
    · rw [List.countP_cons_of_neg ha]
      exact (and_iff_right fun b _ hboth => ha hboth.1).symm

/-- All nicks that are present are set. -/
theorem nicksDistinct_map (server : IrcServerModes) (h : NicksDistinct weelist) :
    NicksDistinct (weelist.map fun ptrItem => if ircServerStrcaseeq server ptrItem nickName then nickName else ptrItem) ↔
      weelist.countP (ircServerStrcaseeq server · nickName) ≤ 1 := by
  rw [countP_le_one, NicksDistinct, List.pairwise_map]
  have hsame : ∀ nick, stringStrcasecmp nick nickName = 0 → ircServerStrcaseeq server nick nickName = true :=
    fun nick => ircServerStrcaseeq_of_strcasecmp server
  constructor
  · refine List.Pairwise.imp fun {nick1 nick2} hne hboth => hne ?_
    rw [if_pos hboth.1, if_pos hboth.2]
    exact strcasecmp_order.refl nickName
  · intro hnot
    refine (h.and hnot).imp fun {nick1 nick2} hpair => ?_
    obtain ⟨hne, hboth⟩ := hpair
    by_cases h1 : ircServerStrcaseeq server nick1 nickName = true
    · have h2 : ¬ ircServerStrcaseeq server nick2 nickName = true := fun h2 => hboth ⟨h1, h2⟩
      rw [if_pos h1, if_neg h2]
      exact fun heq => h2 (hsame nick2 (strcasecmp_order.symm heq))
    · rw [if_neg h1]
      split
      · exact fun heq => h1 (hsame nick1 heq)
      · exact hne

/-! ## Steps -/

section

variable {channel : IrcChannelSpeaking}

theorem nicksDistinct_getD (h : SpeakingRight channel) (i : Fin 2) :
    NicksDistinct ((channel.nicksSpeaking i).getD []) := by
  cases hlist : channel.nicksSpeaking i with
  | none => exact List.Pairwise.nil
  | some weelist => exact (h i weelist hlist).1

theorem addToList_self (channel : IrcChannelSpeaking) (nickName : Str) (highlight : Fin 2) :
    (ircChannelNickSpeakingAddToList channel nickName highlight).nicksSpeaking highlight =
      some (nickSpeakingAdd ((channel.nicksSpeaking highlight).getD []) nickName) := Function.update_self ..

theorem addToList_of_ne {i highlight : Fin 2} (hi : i ≠ highlight) :
    (ircChannelNickSpeakingAddToList channel nickName highlight).nicksSpeaking i = channel.nicksSpeaking i :=
  Function.update_of_ne hi ..

theorem addToList_right (h : SpeakingRight channel) (hne : nickName ≠ []) (highlight : Fin 2) :
    SpeakingRight (ircChannelNickSpeakingAddToList channel nickName highlight) := by
  intro i weelist hlist
  by_cases hi : i = highlight
  · rw [hi, addToList_self, Option.some.injEq] at hlist
    obtain ⟨others, heq, hdistinct, hlength⟩ := nickSpeakingAdd_eq (nicksDistinct_getD h highlight) hne
    rw [← hlist, heq]
    exact ⟨hdistinct, hlength⟩
  · rw [addToList_of_ne hi] at hlist
    exact h i weelist hlist

/-- `highlight` is brought to 0 or 1. -/
theorem ircChannelNickSpeakingAdd_eq (channel : IrcChannelSpeaking) (nickName : Str) (highlight : Int) :
    ircChannelNickSpeakingAdd channel nickName highlight =
      ircChannelNickSpeakingAddToList
        (if 0 < highlight then ircChannelNickSpeakingAddToList channel nickName 1 else channel) nickName 0 := by
  rw [ircChannelNickSpeakingAdd]
  by_cases hpos : 0 < highlight
  · have hne : (if (if highlight < 0 then 0 else highlight) > 1 then 1 else if highlight < 0 then 0 else highlight) ≠ 0 := by
      split_ifs <;> omega
    rw [if_pos hpos]
    exact congrArg (ircChannelNickSpeakingAddToList · nickName 0) (if_pos hne)
  · have heq : (if (if highlight < 0 then 0 else highlight) > 1 then 1 else if highlight < 0 then 0 else highlight) = 0 := by
      split_ifs <;> omega
    rw [if_neg hpos]
    exact congrArg (ircChannelNickSpeakingAddToList · nickName 0) (if_neg (not_not.mpr heq))

theorem addHighlight_right (h : SpeakingRight channel) (hne : nickName ≠ []) (highlight : Int) :
    SpeakingRight (if 0 < highlight then ircChannelNickSpeakingAddToList channel nickName 1 else channel) := by
  split
  · exact addToList_right h hne 1
  · exact h

theorem add_right (h : SpeakingRight channel) (hne : nickName ≠ []) (highlight : Int) :
    SpeakingRight (ircChannelNickSpeakingAdd channel nickName highlight) := by
  rw [ircChannelNickSpeakingAdd_eq]
  exact addToList_right (addHighlight_right h hne highlight) hne 0

/-- The nick is added at the end of a list. -/
theorem addToList_last (h : SpeakingRight channel) (hne : nickName ≠ []) (highlight : Fin 2) :
    ∃ weelist, (ircChannelNickSpeakingAddToList channel nickName highlight).nicksSpeaking highlight = some weelist ∧
      weelist.getLast? = some nickName := by
  obtain ⟨others, heq, -, -⟩ := nickSpeakingAdd_eq (nicksDistinct_getD h highlight) hne
  exact ⟨_, addToList_self channel nickName highlight, by rw [heq, List.getLast?_concat]⟩

theorem addedLast (h : SpeakingRight channel) (hne : nickName ≠ []) (highlight : Int) :
    SpeakingOp.AddedLast channel (.add nickName highlight) := by
  intro i hi
  rw [ircChannelNickSpeakingAdd_eq]
  by_cases h0 : i = 0
  · rw [h0]
    exact addToList_last (addHighlight_right h hne highlight) hne 0
  · obtain rfl : i = 1 := by omega
    rw [addToList_of_ne h0, if_pos (hi.resolve_left h0)]
    exact addToList_last h hne 1

theorem not_addedLast (h : SpeakingRight channel) (highlight : Int) :
    ¬ SpeakingOp.AddedLast channel (.add [] highlight) := by
  intro hlast
  obtain ⟨weelist, hlist, hnil⟩ := hlast 0 (.inl rfl)
  rw [ircChannelNickSpeakingAdd_eq, addToList_self, Option.some.injEq] at hlist
  refine nickSpeakingAdd_nil ?_ (hlist ▸ hnil)
  have hzero : (if 0 < highlight then ircChannelNickSpeakingAddToList channel [] 1 else channel).nicksSpeaking 0 =
      channel.nicksSpeaking 0 := by
    split
    · exact addToList_of_ne (by decide)
    · rfl
  rw [hzero]
  exact nicksDistinct_getD h 0

/-- Lists of the same length are right if their nicks are distinct. -/
theorem speakingRight_map (h : SpeakingRight channel) {f : List Str → List Str} (hf : ∀ weelist, (f weelist).length = weelist.length) :
    SpeakingRight ⟨fun i => (channel.nicksSpeaking i).map f⟩ ↔
      ∀ i weelist, channel.nicksSpeaking i = some weelist → NicksDistinct (f weelist) := by
  constructor
  · intro hright i weelist hlist
    refine (hright i (f weelist) ?_).1
    show (channel.nicksSpeaking i).map f = some (f weelist)
    rw [hlist, Option.map_some]
  · intro hdistinct i weelist' hlist'
    obtain ⟨weelist, hlist, rfl⟩ := Option.map_eq_some_iff.mp hlist'
    exact ⟨hdistinct i weelist hlist, hf weelist ▸ (h i weelist hlist).2⟩

/-- The step keeps what is expected if and only if it meets its condition. -/
theorem speaking_step (h : SpeakingRight channel) (op : SpeakingOp) :
    op.Distinct channel ↔ SpeakingRight (op.run channel) ∧ op.AddedLast channel := by
  cases op with
  | add nickName highlight =>
    constructor
    · intro hne
      exact ⟨add_right h hne highlight, addedLast h hne highlight⟩
    · rintro ⟨-, hlast⟩ rfl
      exact not_addedLast h highlight hlast
  | rename oldNick newNick =>
    have hlength : ∀ weelist, (weelistSet weelist (weelistSearch weelist oldNick) newNick).length = weelist.length := by
      intro weelist
      cases weelistSearch weelist oldNick with
      | none => rfl
      | some item => exact List.length_set
    refine Iff.trans ?_ ((speakingRight_map h hlength).symm.trans (and_iff_left trivial).symm)
    constructor
    · intro hdistinct i weelist hlist
      cases hitem : weelistSearch weelist oldNick with
      | none => exact (h i weelist hlist).1
      | some item =>
        obtain ⟨hlt, -⟩ := List.findIdx?_eq_some_iff_getElem.mp hitem
        exact (nicksDistinct_set (h i weelist hlist).1 hlt).mpr (hdistinct i weelist item hlist hitem)
    · intro hright i weelist item hlist hitem
      obtain ⟨hlt, -⟩ := List.findIdx?_eq_some_iff_getElem.mp hitem
      have hset := hright i weelist hlist
      rw [hitem] at hset
      exact (nicksDistinct_set (h i weelist hlist).1 hlt).mp hset
  | renameIfPresent server nickName =>
    refine Iff.trans ?_ ((speakingRight_map h fun _ => List.length_map ..).symm.trans (and_iff_left trivial).symm)
    refine forall_congr' fun i => forall_congr' fun weelist => imp_congr_right fun hlist => ?_
    exact (nicksDistinct_map server (h i weelist hlist).1).symm

end

theorem speakingRight_init : SpeakingRight ircChannelSpeakingInit := by
  intro i weelist hlist
  cases hlist

/-- In every run, each step leaves lists that are right, with the nick added at the end, if and
only if each step meets its condition. -/
theorem speaking_iff (ops : List SpeakingOp) :
    Along SpeakingOp.run (fun channel op => SpeakingRight (op.run channel) ∧ op.AddedLast channel) ircChannelSpeakingInit ops ↔
      Along SpeakingOp.run (fun channel op => op.Distinct channel) ircChannelSpeakingInit ops := by
  have hkeep : ∀ channel (op : SpeakingOp), SpeakingRight channel → op.Distinct channel → SpeakingRight (op.run channel) :=
    fun channel op h hdistinct => ((speaking_step h op).mp hdistinct).1
  have hstep : ∀ channel (op : SpeakingOp), SpeakingRight channel →
      (op.Distinct channel ↔ SpeakingRight (op.run channel) ∧ op.AddedLast channel) :=
    fun channel op h => speaking_step h op
  exact (along_congr hkeep hstep speakingRight_init ops).symm

/-- A nick is renamed to one that spoke before. -/
theorem speaking_fails :
    ¬ ∀ ops : List SpeakingOp,
      Along SpeakingOp.run (fun channel op => SpeakingRight (op.run channel) ∧ op.AddedLast channel) ircChannelSpeakingInit
        ops := by
  intro h
  have hrun := h [.add (lit "a") 0, .add (lit "b") 0, .rename (lit "a") (lit "b")]
  have hright := hrun.2.2.1.1
  obtain ⟨hdistinct, -⟩ := hright 0 [lit "b", lit "b"] (by decide +kernel)
  exact (List.pairwise_cons.mp hdistinct).1 (lit "b") (List.mem_singleton.mpr rfl) (stringStrcasecmp_self _)

end Wirc

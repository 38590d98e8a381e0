import WhoreIrc.Framework.Packing
import WhoreIrc.Proof.StringSplit
import WhoreIrc.Spec.IrcMessageSplitJoin

/-!
# When channels and keys stay paired (`ircMessageSplitJoin_iff`)

The channels are packed by the length of a message (`joinLoop_pack`). A message is
made of the channels and keys of its group if its length is below the size of
the buffer (`joinBuilt_fits`), and loses a channel otherwise (`joinBuilt_lost`).
-/

namespace Wirc

open Framework

/-! ## Channels and keys -/

section

variable {channels keys items : List Str} {pairs : List (Str × Option Str)}

@[simp] theorem pairUp_length (channels keys : List Str) : (pairUp channels keys).length = channels.length := by
  fun_induction pairUp channels keys with
  | case1 => rfl
  | case2 channel channels keys ih => rw [List.length_cons, List.length_cons, ih]

theorem pairUp_getElem? (channels keys : List Str) (i : Nat) :
    (pairUp channels keys)[i]? = channels[i]?.map fun channel => (channel, keys[i]?) := by
  induction i generalizing channels keys with
  | zero => cases channels <;> cases keys <;> rfl
  | succ i ih =>
    cases channels with
    | nil => rfl
    | cons channel channels =>
      rw [pairUp, List.getElem?_cons_succ, List.getElem?_cons_succ, ih, List.getElem?_tail]

/-- The channels that have a key are first. -/
def KeysFirst (pairs : List (Str × Option Str)) : Prop := pairs.Pairwise fun p q => q.2.isSome → p.2.isSome

theorem pairUp_nil_keys (channels : List Str) : pairUp channels [] = channels.map fun channel => (channel, none) := by
  induction channels with
  | nil => rfl
  | cons channel channels ih => rw [pairUp, List.tail_nil, ih]; rfl

theorem pairUp_keysFirst (channels keys : List Str) : KeysFirst (pairUp channels keys) := by
  fun_induction pairUp channels keys with
  | case1 => exact .nil
  | case2 channel channels keys ih =>
    refine List.pairwise_cons.mpr ⟨fun q hq hsome => ?_, ih⟩
    cases keys with
    | cons key keys => rfl
    | nil =>
      rw [List.tail_nil, pairUp_nil_keys] at hq
      obtain ⟨c, -, rfl⟩ := List.mem_map.mp hq
      cases hsome

/-- Channels and keys are paired as before. -/
theorem pairUp_of_keysFirst (h : KeysFirst pairs) : pairUp (pairs.map Prod.fst) (pairs.filterMap Prod.snd) = pairs := by
  induction pairs with
  | nil => rfl
  | cons p pairs ih =>
    obtain ⟨hp, hpairs⟩ := List.pairwise_cons.mp h
    obtain ⟨channel, key⟩ := p
    cases key with
    | some key =>
      show (channel, some key) :: pairUp (pairs.map Prod.fst) (pairs.filterMap Prod.snd) = _
      rw [ih hpairs]
    | none =>
      have hnone : pairs.filterMap Prod.snd = [] :=
        List.filterMap_eq_nil_iff.mpr fun q hq => Option.not_isSome_iff_eq_none.mp fun h => by cases hp q hq h
      show (channel, (pairs.filterMap Prod.snd).head?) :: pairUp (pairs.map Prod.fst) (pairs.filterMap Prod.snd).tail = _
      rw [hnone, List.tail_nil, ← hnone, ih hpairs, hnone]
      rfl

/-! ## The texts -/

@[simp] theorem joinList_nil : joinList [] = [] := rfl

theorem joinList_concat (items : List Str) (item : Str) :
    joinList (items ++ [item]) = joinList items ++ (if items = [] then lit " " else lit ",") ++ item := by
  rw [joinList, if_neg (List.concat_ne_nil item items), joinList]
  split
  · rename_i hnil
    rw [hnil, List.nil_append, List.intercalate_singleton, List.nil_append]
  · rename_i hne
    rw [intercalate_concat _ _ hne, List.append_assoc, List.append_assoc]

theorem joinList_eq_nil : joinList items = [] ↔ items = [] := by
  rw [joinList]
  split
  · exact iff_of_true rfl ‹_›
  · exact iff_of_false (List.cons_ne_nil _ _) ‹_›

theorem joinList_length_concat (items : List Str) (item : Str) :
    (joinList (items ++ [item])).length = (joinList items).length + 1 + item.length := by
  rw [joinList_concat, List.length_append, List.length_append]
  split <;> rfl

theorem joinList_append_cons (h : channels ≠ []) (keys : List Str) :
    joinList channels ++ joinList keys = lit " " ++ joinArguments channels keys := by
  rw [joinList, if_neg h, joinArguments, List.append_assoc]

/-- The list is read back. -/
theorem joinSplitList_intercalate (h : ∀ w ∈ items, IsJoinWord w) :
    joinSplitList ((lit ",").intercalate items) = items := by
  have hruns : runs (isIn (lit ",")) ((lit ",").intercalate items) = items :=
    runs_intercalate (by decide) fun w hw => ⟨(h w hw).1, fun c hc =>
      decide_eq_false fun hmem => (h w hw).2.2 (List.mem_singleton.mp hmem ▸ hc)⟩
  rw [joinSplitList, stringSplit_runs _ (by decide), hruns]
  split
  · exact (‹items = []›).symm
  · rfl

theorem space_notMem_intercalate (h : ∀ w ∈ items, IsJoinWord w) : ch ' ' ∉ (lit ",").intercalate items := by
  intro hmem
  rcases mem_intercalate hmem with hmem | ⟨w, hw, hmem⟩
  · exact absurd hmem (by decide)
  · exact (h w hw).2.1 hmem

theorem joinChannelsKeys_arguments (hchannels : ∀ w ∈ channels, IsJoinWord w) (hkeys : ∀ w ∈ keys, IsJoinWord w) :
    joinChannelsKeys (joinArguments channels keys) = (channels, keys) := by
  have hspace := space_notMem_intercalate hchannels
  rw [joinChannelsKeys, joinArguments, joinList]
  by_cases hnil : keys = []
  · rw [if_pos hnil, List.append_nil, strchr_none.mpr hspace, hnil]
    dsimp only
    rw [joinSplitList_intercalate hchannels]
  · rw [if_neg hnil]
    have hstr : strchr ((lit ",").intercalate channels ++ (lit " " ++ (lit ",").intercalate keys)) (ch ' ') =
        some (lit " " ++ (lit ",").intercalate keys) := strchr_append hspace _
    have hskip : skipSpaces (lit " " ++ (lit ",").intercalate keys) = (lit ",").intercalate keys := by
      have hspace' := space_notMem_intercalate hkeys
      show List.dropWhile _ (ch ' ' :: _) = _
      rw [List.dropWhile_cons_of_pos (by decide)]
      exact List.dropWhile_eq_self_iff.mpr fun hpos hhead =>
        hspace' (of_decide_eq_true hhead ▸ List.getElem_mem hpos)
    rw [hstr]
    dsimp only
    rw [strndup, take_off_append, hskip, joinSplitList_intercalate hchannels, joinSplitList_intercalate hkeys]

theorem splitOn_comma (h : ∀ w ∈ items, IsJoinWord w) (hne : items ≠ []) :
    ((lit ",").intercalate items).splitOn (ch ',') = items :=
  List.splitOn_intercalate (ch ',') (fun w hw => (h w hw).2.2) hne

theorem joinPairs_arguments (hne : channels ≠ []) (hchannels : ∀ w ∈ channels, IsJoinWord w)
    (hkeys : ∀ w ∈ keys, IsJoinWord w) : joinPairs (joinArguments channels keys) = pairUp channels keys := by
  have hspace := space_notMem_intercalate hchannels
  have hspace' := space_notMem_intercalate hkeys
  rw [joinPairs, joinArguments, joinList]
  by_cases hnil : keys = []
  · have hsplit : ((lit ",").intercalate channels).splitOn (ch ' ') = [(lit ",").intercalate channels] := by
      have h : ((lit " ").intercalate [(lit ",").intercalate channels]).splitOn (ch ' ') = _ :=
        List.splitOn_intercalate (ch ' ') (fun w hw => List.mem_singleton.mp hw ▸ hspace) (List.cons_ne_nil _ _)
      rwa [List.intercalate_singleton] at h
    rw [if_pos hnil, List.append_nil, hsplit, hnil]
    dsimp only
    rw [splitOn_comma hchannels hne]
  · have hsplit : ((lit ",").intercalate channels ++ (lit " " ++ (lit ",").intercalate keys)).splitOn (ch ' ') =
        [(lit ",").intercalate channels, (lit ",").intercalate keys] := by
      have h : ((lit " ").intercalate [(lit ",").intercalate channels, (lit ",").intercalate keys]).splitOn (ch ' ') = _ :=
        List.splitOn_intercalate (ch ' ') (List.forall_mem_cons.mpr ⟨hspace, List.forall_mem_singleton.mpr hspace'⟩)
          (List.cons_ne_nil _ _)
      rw [List.intercalate_cons_cons, List.intercalate_singleton, List.append_assoc] at h
      exact h
    rw [if_neg hnil, hsplit]
    dsimp only
    rw [splitOn_comma hchannels hne, splitOn_comma hkeys hnil]

end

/-! ## The buffers -/

section

variable {start : Str} {channels keys : List Str} {group : List (Str × Option Str)} {s : JoinState}

/-- What is added to the keys. -/
theorem joinAddKey_spec (keys : List Str) (key : Option Str) :
    ∃ keys', joinAddKey (joinList keys) key = joinList keys' ∧
    keys'.Sublist (keys ++ key.toList) ∧
    ((joinList keys).length + (key.elim 0 fun key => 1 + key.length) < joinBufferSize → keys' = keys ++ key.toList) := by
  cases key with
  | none => exact ⟨keys, rfl, List.sublist_append_left _ _, fun _ => (List.append_nil keys).symm⟩
  | some key =>
    rw [joinAddKey]
    split
    · refine ⟨keys ++ [key], ?_, List.Sublist.refl _, fun _ => rfl⟩
      rw [joinList_concat]
      by_cases hnil : keys = []
      · rw [if_pos hnil, hnil, joinList_nil, if_neg (not_not.mpr rfl)]
      · rw [if_neg hnil, if_pos (joinList_eq_nil.not.mpr hnil)]
    · rename_i hfull
      refine ⟨keys, rfl, List.sublist_append_left _ _, fun h => absurd ?_ hfull⟩
      rwa [Option.elim_some, ← Nat.add_assoc] at h

/-- The size of a group is the length of its text. -/
theorem packSize_eq (start : Str) (group : List (Str × Option Str)) : packSize joinWeight start.length group =
    start.length + (joinList (group.map Prod.fst)).length + (joinList (group.filterMap Prod.snd)).length := by
  induction group using List.reverseRecOn with
  | nil => rfl
  | append_singleton group pair ih =>
    obtain ⟨channel, key⟩ := pair
    rw [packSize_concat, ih, List.map_append, List.filterMap_append, List.map_singleton, joinList_length_concat,
      joinWeight, joinLengthToAdd]
    cases key with
    | none =>
      show _ = _ + (joinList (group.filterMap Prod.snd ++ [])).length
      rw [List.append_nil]
      simp only [Option.elim_none]
      omega
    | some key =>
      show _ = _ + (joinList (group.filterMap Prod.snd ++ [key])).length
      rw [joinList_length_concat]
      simp only [Option.elim_some]
      omega

/-- The buffers after the channels of a group. -/
def joinBuilt (start : Str) (group : List (Str × Option Str)) (s : JoinState) : JoinState :=
  group.foldl (fun s pair => joinAdd start.length pair.1 pair.2 s) s

/-- The channels and keys that are in the buffers. -/
structure Built (start : Str) (group : List (Str × Option Str)) (s : JoinState) (channels keys : List Str) : Prop where
  msgToSend : s.msgToSend = start ++ joinList channels
  keysToAdd : s.keysToAdd = joinList keys
  length : s.length = packSize joinWeight start.length group
  channels_sublist : channels.Sublist (group.map Prod.fst)
  keys_sublist : keys.Sublist (group.filterMap Prod.snd)
  fits : s.length < joinBufferSize → channels = group.map Prod.fst ∧ keys = group.filterMap Prod.snd
  lost : joinBufferSize ≤ s.length → channels.length < group.length

theorem joinWeight_pos (pair : Str × Option Str) : 0 < joinWeight pair := by
  rw [joinWeight, joinLengthToAdd]
  omega

/-- Only the group without channels has the size of the start. -/
theorem packSize_eq_start : packSize joinWeight start.length group = start.length ↔ group = [] := by
  constructor
  · intro h
    cases group with
    | nil => rfl
    | cons pair group =>
      have := joinWeight_pos pair
      rw [packSize, List.map_cons, List.sum_cons] at h
      omega
  · rintro rfl
    rfl

theorem filterMap_snd_concat (group : List (Str × Option Str)) (pair : Str × Option Str) :
    (group ++ [pair]).filterMap Prod.snd = group.filterMap Prod.snd ++ pair.2.toList := by
  obtain ⟨channel, key⟩ := pair
  rw [List.filterMap_append]
  cases key <;> rfl

/-- A channel and its key are added to those of the group. -/
theorem Built.add (h : Built start group s channels keys) (pair : Str × Option Str) : ∃ channels' keys',
    Built start (group ++ [pair]) (joinAdd start.length pair.1 pair.2 s) channels' keys' := by
  obtain ⟨keys', hkey, hsublist, hkeys'⟩ := joinAddKey_spec keys pair.2
  have hlength : s.length + joinLengthToAdd pair.1 pair.2 = packSize joinWeight start.length (group ++ [pair]) := by
    rw [packSize_concat, h.length, joinWeight]
  have hkeys_sublist : keys'.Sublist ((group ++ [pair]).filterMap Prod.snd) := by
    rw [filterMap_snd_concat]
    exact hsublist.trans (h.keys_sublist.append_right _)
  have hkeysToAdd : (joinAdd start.length pair.1 pair.2 s).keysToAdd = joinList keys' := by
    rw [← hkey, ← h.keysToAdd]
    rfl
  by_cases hfit : s.length + joinLengthToAdd pair.1 pair.2 < joinBufferSize
  · obtain ⟨rfl, rfl⟩ := h.fits (by omega)
    refine ⟨group.map Prod.fst ++ [pair.1], keys', ?_, hkeysToAdd, hlength, ?_, hkeys_sublist, fun _ => ⟨?_, ?_⟩,
      fun hle => ?_⟩
    · have hsep : s.length = start.length ↔ group.map Prod.fst = [] := by
        rw [h.length, packSize_eq_start, List.map_eq_nil_iff]
      show (if _ then s.msgToSend ++ _ ++ pair.1 else _) = _
      rw [if_pos hfit, h.msgToSend, joinList_concat, List.append_assoc, List.append_assoc, List.append_assoc]
      simp only [hsep]
    · rw [List.map_append]
      exact List.Sublist.refl _
    · rw [List.map_append]
      rfl
    · rw [filterMap_snd_concat]
      refine hkeys' ?_
      have hsize := packSize_eq start group
      have hlengthToAdd : joinLengthToAdd pair.1 pair.2 =
        1 + pair.1.length + (pair.2.elim 0 fun key => 1 + key.length) := rfl
      have := h.length
      omega
    · exact absurd hfit (Nat.not_lt.mpr hle)
  · refine ⟨channels, keys', ?_, hkeysToAdd, hlength, ?_, hkeys_sublist, fun hlt => absurd hlt hfit, fun _ => ?_⟩
    · show (if _ then _ else s.msgToSend) = _
      rw [if_neg hfit, h.msgToSend]
    · rw [List.map_append]
      exact h.channels_sublist.trans (List.sublist_append_left _ _)
    · have := h.channels_sublist.length_le
      rw [List.length_map] at this
      rw [List.length_append, List.length_singleton]
      omega

/-- A new message. -/
def joinNew (start : Str) (indexChannel number : Nat) (calls : List (HashtableOp Str Str)) : JoinState :=
  ⟨indexChannel, number, start, [], start.length, calls⟩

theorem joinBuilt_concat (group : List (Str × Option Str)) (pair : Str × Option Str) :
    joinBuilt start (group ++ [pair]) s = joinAdd start.length pair.1 pair.2 (joinBuilt start group s) := by
  rw [joinBuilt, List.foldl_append]
  rfl

theorem joinBuilt_built (hstart : start.length < joinBufferSize) (group : List (Str × Option Str)) (index number : Nat)
    (calls : List (HashtableOp Str Str)) : ∃ channels keys,
      Built start group (joinBuilt start group (joinNew start index number calls)) channels keys := by
  induction group using List.reverseRecOn with
  | nil =>
    exact ⟨[], [], (List.append_nil start).symm, rfl, rfl, .slnil, .slnil, fun _ => ⟨rfl, rfl⟩,
      fun hle => absurd hstart (Nat.not_lt.mpr hle)⟩
  | append_singleton group pair ih =>
    obtain ⟨channels, keys, hbuilt⟩ := ih
    rw [joinBuilt_concat]
    exact hbuilt.add pair

/-- The other variables. -/
theorem joinBuilt_frame (start : Str) (group : List (Str × Option Str)) (index number : Nat)
    (calls : List (HashtableOp Str Str)) :
    joinBuilt start group (joinNew start index number calls) =
      { joinBuilt start group (joinNew start 0 1 []) with
        indexChannel := index + group.length, number := number, calls := calls } := by
  induction group using List.reverseRecOn with
  | nil => rfl
  | append_singleton group pair ih =>
    rw [joinBuilt_concat, joinBuilt_concat, ih, List.length_append]
    rfl

/-! ## The groups of the loop -/

/-- The message for a group. -/
def joinMessage (start : Str) (group : List (Str × Option Str)) : Str :=
  let s := joinBuilt start group (joinNew start 0 1 [])
  s.msgToSend ++ s.keysToAdd

/-- The message is in the buffer, and has arguments. -/
def JoinMessageOk (start message : Str) : Prop := message.length < joinBufferSize ∧ start.length + 1 ≤ message.length

instance (start message : Str) : Decidable (JoinMessageOk start message) := inferInstanceAs (Decidable (_ ∧ _))

/-- The calls for the groups, after some others. -/
def joinGroups (tags : Option Str) (start : Str) (number : Nat) (calls : List (HashtableOp Str Str))
    (groups : List (List (Str × Option Str))) : Option (List (HashtableOp Str Str)) :=
  if ∀ group ∈ groups, JoinMessageOk start (joinMessage start group) then
    some (calls ++ joinCalls tags start.length number (groups.map (joinMessage start)))
  else none

theorem joinFlush_eq (tags : Option Str) (group : List (Str × Option Str)) (index number : Nat)
    (calls : List (HashtableOp Str Str)) :
    joinFlush tags start.length (joinBuilt start group (joinNew start index number calls)) =
      if JoinMessageOk start (joinMessage start group) then
        some (calls ++ ircMessageSplitAdd number tags (joinMessage start group)
          ((joinMessage start group).drop (start.length + 1)))
      else none := by
  rw [joinBuilt_frame]
  rfl

theorem joinGroups_cons (tags : Option Str) (group : List (Str × Option Str)) (groups : List (List (Str × Option Str)))
    (index number : Nat) (calls : List (HashtableOp Str Str)) : joinGroups tags start number calls (group :: groups) =
      (joinFlush tags start.length (joinBuilt start group (joinNew start index number calls))).bind fun calls =>
        joinGroups tags start (number + 1) calls groups := by
  rw [joinFlush_eq, joinGroups]
  simp only [List.forall_mem_cons]
  by_cases hgroup : JoinMessageOk start (joinMessage start group)
  · rw [if_pos hgroup, Option.bind_some, joinGroups]
    simp only [hgroup, true_and, List.map_cons, joinCalls, List.append_assoc]
  · rw [if_neg hgroup, if_neg fun h => hgroup h.1]
    rfl

variable {tags : Option Str} {maxLength : Int} {rest : List (Str × Option Str)}

/-- After all channels. -/
theorem joinLoop_end (h : (pairUp channels keys).drop s.indexChannel = []) :
    joinLoop tags start channels keys maxLength s =
    if s.length > start.length then joinFlush tags start.length s else some s.calls := by
  rw [joinLoop]
  split
  · rfl
  · rename_i channel hchannel
    have hget : ((pairUp channels keys).drop s.indexChannel)[0]? = some (channel, keys[s.indexChannel]?) := by
      rw [List.getElem?_drop, Nat.add_zero, pairUp_getElem?, hchannel]
      rfl
    rw [h] at hget
    cases hget

/-- At a channel. -/
theorem joinLoop_pair {pair : Str × Option Str} (h : (pairUp channels keys).drop s.indexChannel = pair :: rest) :
    joinLoop tags start channels keys maxLength s =
      if s.length + joinLengthToAdd pair.1 pair.2 < maxLength ∨ s.length = start.length then
        joinLoop tags start channels keys maxLength (joinAdd start.length pair.1 pair.2 s)
      else
        (joinFlush tags start.length s).bind fun calls =>
          joinLoop tags start channels keys maxLength (joinNew start s.indexChannel (s.number + 1) calls) := by
  have hget : (pairUp channels keys)[s.indexChannel]? = some pair := by
    rw [← Nat.add_zero s.indexChannel, ← List.getElem?_drop, h]
    rfl
  rw [pairUp_getElem?] at hget
  obtain ⟨channel, hchannel, rfl⟩ := Option.map_eq_some_iff.mp hget
  rw [joinLoop]
  split
  · rename_i hnone
    rw [hnone] at hchannel
    cases hchannel
  · rename_i channel' hchannel'
    rw [hchannel] at hchannel'
    cases hchannel'
    dsimp only
    split
    · rfl
    · cases joinFlush tags start.length s <;> rfl

theorem drop_eq_tail {α : Type} {l rest : List α} {x : α} {n : Nat} (h : l.drop n = x :: rest) :
    l.drop (n + 1) = rest := by
  rw [← List.drop_drop, h]
  rfl

theorem joinBuilt_length (hstart : start.length < joinBufferSize) (group : List (Str × Option Str)) (index number : Nat)
    (calls : List (HashtableOp Str Str)) :
    (joinBuilt start group (joinNew start index number calls)).length = packSize joinWeight start.length group := by
  obtain ⟨channels, keys, hbuilt⟩ := joinBuilt_built hstart group index number calls
  exact hbuilt.length

/-- The loop packs the channels. -/
theorem joinLoop_pack (hstart : start.length < joinBufferSize) (index number : Nat) (calls : List (HashtableOp Str Str))
    (hdrop : (pairUp channels keys).drop (index + group.length) = rest) :
    joinLoop tags start channels keys maxLength (joinBuilt start group (joinNew start index number calls)) =
      joinGroups tags start number calls (packFrom joinWeight maxLength start.length group rest) := by
  have hindex : ∀ group index number calls,
      (joinBuilt start group (joinNew start index number calls)).indexChannel = index + group.length := by
    intro group index number calls
    rw [joinBuilt_frame]
  induction rest generalizing group index number calls with
  | nil =>
    rw [joinLoop_end (by rw [hindex]; exact hdrop), joinBuilt_length hstart, packFrom]
    by_cases hnil : group = []
    · rw [if_pos hnil, hnil, packSize_nil, if_neg (Nat.lt_irrefl _), joinGroups,
        if_pos (List.forall_mem_nil _), List.map_nil,
        joinCalls, List.append_nil]
      rfl
    · have hlt : packSize joinWeight start.length group > start.length := by
        have hne : packSize joinWeight start.length group ≠ start.length := packSize_eq_start.not.mpr hnil
        have hle : start.length ≤ packSize joinWeight start.length group := Nat.le_add_right _ _
        omega
      rw [if_pos hlt, if_neg hnil, joinGroups_cons tags group [] index]
      cases joinFlush tags start.length (joinBuilt start group (joinNew start index number calls)) with
      | none => rfl
      | some calls =>
        rw [Option.bind_some, joinGroups, if_pos (List.forall_mem_nil _), List.map_nil, joinCalls, List.append_nil]
  | cons pair rest ih =>
    have hnext : (pairUp channels keys).drop (index + (group ++ [pair]).length) = rest := by
      rw [List.length_append, ← Nat.add_assoc]
      exact drop_eq_tail hdrop
    have hfits : (packSize joinWeight start.length group : Int) + joinLengthToAdd pair.1 pair.2 < maxLength ∨
        packSize joinWeight start.length group = start.length ↔
          (packSize joinWeight start.length (group ++ [pair]) : Int) < maxLength ∨ group = [] := by
      rw [packSize_eq_start, packSize_concat, Int.natCast_add, joinWeight]
    rw [joinLoop_pair (by rw [hindex]; exact hdrop), joinBuilt_length hstart, packFrom]
    by_cases hfit : (packSize joinWeight start.length (group ++ [pair]) : Int) < maxLength ∨ group = []
    · rw [if_pos (hfits.mpr hfit), if_pos hfit, ← joinBuilt_concat]
      exact ih index number calls hnext
    · rw [if_neg (hfits.not.mpr hfit), if_neg hfit, joinGroups_cons tags group _ index]
      congr 1
      funext calls'
      -- the message that begins has enough space for its first channel
      have hfirst : (pairUp channels keys).drop (joinNew start (index + group.length) (number + 1) calls').indexChannel =
          pair :: rest := hdrop
      have hone : (pairUp channels keys).drop (index + group.length + [pair].length) = rest := drop_eq_tail hdrop
      have hnumber : (joinBuilt start group (joinNew start index number calls)).number = number :=
        by rw [joinBuilt_frame]
      rw [hindex, hnumber, joinLoop_pair hfirst, if_pos (.inr rfl)]
      exact ih (index + group.length) (number + 1) calls' hone

end

/-! ## The messages -/

section

variable {start : Str} {tags host : Option Str} {maxLength : Int} {group : List (Str × Option Str)}
  {channels keys : List Str} {groups : List (List (Str × Option Str))}

/-- The messages are found in the calls. -/
theorem joinCalls_injective {lengthNoChannel number : Nat} {messages messages' : List Str}
    (h : joinCalls tags lengthNoChannel number messages = joinCalls tags lengthNoChannel number messages') :
    messages = messages' := by
  induction messages generalizing messages' number with
  | nil =>
    cases messages' with
    | nil => rfl
    | cons message messages => cases h
  | cons message messages ih =>
    cases messages' with
    | nil => cases h
    | cons message' messages' =>
      obtain ⟨hfirst, hrest⟩ := List.append_inj h rfl
      obtain ⟨hmsg, -⟩ := List.cons.inj hfirst
      simp only [HashtableOp.set.injEq, Option.some.injEq, List.append_cancel_left_eq] at hmsg
      rw [hmsg.2, ih hrest]

/-- What the function does, for words. -/
theorem ircMessageSplitJoin_eq (hchannels : ∀ w ∈ channels, IsJoinWord w) (hkeys : ∀ w ∈ keys, IsJoinWord w) :
    ircMessageSplitJoin tags host (joinArguments channels keys) maxLength =
      (joinGroups tags (joinStart host) 1 []
        (packFrom joinWeight (maxLength - 2) (joinStart host).length [] (pairUp channels keys))).map fun calls => (1, calls) := by
  have hstart : (joinStart host).length < joinBufferSize := by
    rw [joinStart, List.length_take]
    exact Nat.lt_of_le_of_lt (Nat.min_le_left _ _) (by decide)
  rw [ircMessageSplitJoin, joinChannelsKeys_arguments hchannels hkeys]
  have hloop := @joinLoop_pack _ channels keys [] tags (maxLength - 2) _ hstart 0 1 [] rfl
  exact congrArg (Option.map _) hloop

/-- When no list is read back longer than it is, all are read back. -/
theorem flatMap_eq_flatten {α β : Type} {f : α → List β} {g : α → List β} {l : List α}
    (hle : ∀ x ∈ l, (f x).length ≤ (g x).length) (h : l.flatMap f = l.flatMap g) : ∀ x ∈ l, f x = g x := by
  induction l with
  | nil => exact List.forall_mem_nil _
  | cons x l ih =>
    rw [List.forall_mem_cons] at hle ⊢
    rw [List.flatMap_cons, List.flatMap_cons] at h
    have hrest : (l.flatMap f).length ≤ (l.flatMap g).length := by
      rw [List.length_flatMap, List.length_flatMap]
      exact List.sum_le_sum hle.2
    have hlength := congrArg List.length h
    rw [List.length_append, List.length_append] at hlength
    obtain ⟨hx, hl⟩ := List.append_inj h (by omega)
    exact ⟨hx, ih hle.2 hl⟩

/-- The message of a group that fits is made of all its channels and keys. -/
theorem joinMessage_fits (hstart : start.length < joinBufferSize) (hne : group ≠ [])
    (hlt : packSize joinWeight start.length group < joinBufferSize) :
    joinMessage start group = start ++ (lit " " ++ joinArguments (group.map Prod.fst) (group.filterMap Prod.snd)) ∧
      (joinMessage start group).length = packSize joinWeight start.length group ∧
      JoinMessageOk start (joinMessage start group) := by
  obtain ⟨channels, keys, hbuilt⟩ := joinBuilt_built hstart group 0 1 []
  obtain ⟨rfl, rfl⟩ := hbuilt.fits (by rwa [hbuilt.length])
  have hmessage : joinMessage start group =
      start ++ (lit " " ++ joinArguments (group.map Prod.fst) (group.filterMap Prod.snd)) := by
    rw [joinMessage, hbuilt.msgToSend, hbuilt.keysToAdd, List.append_assoc,
      joinList_append_cons (List.map_eq_nil_iff.not.mpr hne)]
  have hlength : (joinMessage start group).length = packSize joinWeight start.length group := by
    rw [joinMessage, hbuilt.msgToSend, hbuilt.keysToAdd, packSize_eq, List.length_append, List.length_append]
  refine ⟨hmessage, hlength, ?_, ?_⟩
  · rwa [hlength]
  · rw [hmessage, List.length_append, List.length_append]
    exact Nat.add_le_add_left (Nat.le_add_right 1 _) _

/-- The message of another group is without one of its channels. -/
theorem joinMessage_lost (hstart : start.length < joinBufferSize)
    (hle : joinBufferSize ≤ packSize joinWeight start.length group) : ∃ channels keys,
      joinMessage start group = start ++ (joinList channels ++ joinList keys) ∧
        channels.Sublist (group.map Prod.fst) ∧ keys.Sublist (group.filterMap Prod.snd) ∧ channels.length < group.length := by
  obtain ⟨channels, keys, hbuilt⟩ := joinBuilt_built hstart group 0 1 []
  refine ⟨channels, keys, ?_, hbuilt.channels_sublist, hbuilt.keys_sublist, hbuilt.lost (by rwa [hbuilt.length])⟩
  rw [joinMessage, hbuilt.msgToSend, hbuilt.keysToAdd, List.append_assoc]

theorem parseJoin_head (host : Option Str) (arguments : Str) :
    parseJoin host (joinHead host ++ (lit " " ++ arguments)) = joinPairs arguments := by
  have hlength : (joinHead host).length + 1 = (joinHead host ++ lit " ").length := by
    rw [List.length_append]
    rfl
  rw [parseJoin, ← List.append_assoc, if_pos (List.prefix_append _ _), hlength, List.drop_left]

theorem mem_pairUp {pair : Str × Option Str} (h : pair ∈ pairUp channels keys) :
    pair.1 ∈ channels ∧ ∀ key, pair.2 = some key → key ∈ keys := by
  fun_induction pairUp channels keys with
  | case1 => cases h
  | case2 channel channels keys ih =>
    rcases List.mem_cons.mp h with rfl | h
    · exact ⟨List.mem_cons_self, fun key hkey => List.mem_of_mem_head? hkey⟩
    · exact ⟨List.mem_cons_of_mem _ (ih h).1, fun key hkey => List.mem_of_mem_tail ((ih h).2 key hkey)⟩

/-- The words of a group. -/
structure GroupOk (group : List (Str × Option Str)) : Prop where
  ne_nil : group ≠ []
  keysFirst : KeysFirst group
  channels : ∀ w ∈ group.map Prod.fst, IsJoinWord w
  keys : ∀ w ∈ group.filterMap Prod.snd, IsJoinWord w

theorem groupOk_of_mem {start : Nat} (hchannels : ∀ w ∈ channels, IsJoinWord w) (hkeys : ∀ w ∈ keys, IsJoinWord w)
    (hg : group ∈ packFrom joinWeight maxLength start [] (pairUp channels keys)) : GroupOk group := by
  have hsublist : group.Sublist (pairUp channels keys) := by
    have h := List.sublist_flatten_of_mem hg
    rwa [packFrom_flatten, List.nil_append] at h
  refine ⟨packFrom_ne_nil hg, (pairUp_keysFirst channels keys).sublist hsublist, fun w hw => ?_, fun w hw => ?_⟩
  · obtain ⟨pair, hpair, rfl⟩ := List.mem_map.mp hw
    exact hchannels _ (mem_pairUp (hsublist.subset hpair)).1
  · obtain ⟨pair, hpair, hkey⟩ := List.mem_filterMap.mp hw
    exact hkeys _ ((mem_pairUp (hsublist.subset hpair)).2 w hkey)

/-- The message of a group that fits is read back. -/
theorem parseJoin_fits (hok : GroupOk group) (hlt : packSize joinWeight (joinHead host).length group < joinBufferSize) :
    parseJoin host (joinMessage (joinHead host) group) = group := by
  have hstart : (joinHead host).length < joinBufferSize := Nat.lt_of_le_of_lt (Nat.le_add_right _ _) hlt
  rw [(joinMessage_fits hstart hok.ne_nil hlt).1, parseJoin_head,
    joinPairs_arguments (List.map_eq_nil_iff.not.mpr hok.ne_nil) hok.channels hok.keys, pairUp_of_keysFirst hok.keysFirst]

/-- The message of another group is not read back as the group, and not as more channels. -/
theorem parseJoin_lost (hok : GroupOk group) (hstart : (joinHead host).length < joinBufferSize)
    (hle : joinBufferSize ≤ packSize joinWeight (joinHead host).length group)
    (hmessage : JoinMessageOk (joinHead host) (joinMessage (joinHead host) group)) :
    (parseJoin host (joinMessage (joinHead host) group)).length ≤ group.length ∧
      parseJoin host (joinMessage (joinHead host) group) ≠ group := by
  obtain ⟨channels, keys, heq, hchannels, hkeys, hlost⟩ := joinMessage_lost hstart hle
  have hchannelsOk : ∀ w ∈ channels, IsJoinWord w := fun w hw => hok.channels w (hchannels.subset hw)
  have hkeysOk : ∀ w ∈ keys, IsJoinWord w := fun w hw => hok.keys w (hkeys.subset hw)
  by_cases hnil : channels = []
  · -- the keys are read as channels
    subst hnil
    have hne : keys ≠ [] := by
      rintro rfl
      have := hmessage.2
      rw [heq, joinList_nil, List.append_nil, List.append_nil] at this
      exact absurd this (Nat.not_succ_le_self _)
    have hparse : parseJoin host (joinMessage (joinHead host) group) = pairUp keys [] := by
      have h := parseJoin_head host (joinArguments keys [])
      rw [joinPairs_arguments hne hkeysOk (List.forall_mem_nil _), ← joinList_append_cons hne, joinList_nil,
        List.append_nil] at h
      rw [heq, joinList_nil, List.nil_append, h]
    rw [hparse, pairUp_length]
    have hfilter := List.length_filterMap_le Prod.snd group
    refine ⟨Nat.le_trans hkeys.length_le hfilter, fun hgroup => ?_⟩
    have hnone : group.filterMap Prod.snd = [] := by
      rw [← hgroup, pairUp_nil_keys, List.filterMap_map]
      exact List.filterMap_eq_nil_iff.mpr fun _ _ => rfl
    rw [hnone] at hkeys
    exact hne (List.sublist_nil.mp hkeys)
  · have hparse : parseJoin host (joinMessage (joinHead host) group) = pairUp channels keys := by
      rw [heq, joinList_append_cons hnil, parseJoin_head, joinPairs_arguments hnil hchannelsOk hkeysOk]
    rw [hparse, pairUp_length]
    refine ⟨Nat.le_of_lt hlost, fun hgroup => ?_⟩
    have := congrArg List.length hgroup
    rw [pairUp_length] at this
    omega

/-! ## All messages -/

/-- The groups of channels and keys of the messages. -/
def joinPacks (host : Option Str) (channels keys : List Str) (maxLength : Int) : List (List (Str × Option Str)) :=
  packFrom joinWeight (maxLength - 2) (joinHead host).length [] (pairUp channels keys)

theorem joinStart_eq (hstart : (joinHead host).length < joinBufferSize) : joinStart host = joinHead host :=
  List.take_of_length_le (Nat.le_sub_one_of_lt hstart)

theorem joinPacks_flatten (host : Option Str) (channels keys : List Str) (maxLength : Int) :
    (joinPacks host channels keys maxLength).flatMap id = pairUp channels keys := by
  rw [List.flatMap_id, joinPacks, packFrom_flatten, List.nil_append]

/-- When all groups fit, the messages are those of the groups. -/
theorem keepsPairs_of_fits (tags : Option Str) (hchannels : ∀ w ∈ channels, IsJoinWord w)
    (hkeys : ∀ w ∈ keys, IsJoinWord w)
    (hfits : ∀ group ∈ joinPacks host channels keys maxLength,
      packSize joinWeight (joinHead host).length group < joinBufferSize) :
    KeepsPairs tags host channels keys maxLength := by
  have hflatten := joinPacks_flatten host channels keys maxLength
  cases hpacks : joinPacks host channels keys maxLength with
  | nil =>
    rw [hpacks] at hflatten
    refine ⟨[], ?_, hflatten, List.forall_mem_nil _⟩
    rw [ircMessageSplitJoin_eq hchannels hkeys, ← hflatten]
    rfl
  | cons first groups =>
    have hstart : (joinHead host).length < joinBufferSize :=
      Nat.lt_of_le_of_lt (Nat.le_add_right _ _) (hfits first (hpacks ▸ List.mem_cons_self))
    have hok : ∀ group ∈ joinPacks host channels keys maxLength, GroupOk group := fun group hg =>
      groupOk_of_mem hchannels hkeys hg
    have hparse : ∀ group ∈ joinPacks host channels keys maxLength,
        parseJoin host (joinMessage (joinHead host) group) = group := fun group hg => parseJoin_fits (hok group hg) (hfits group hg)
    refine ⟨(joinPacks host channels keys maxLength).map (joinMessage (joinHead host)), ?_, ?_, ?_⟩
    · rw [ircMessageSplitJoin_eq hchannels hkeys, joinStart_eq hstart, ← joinPacks, joinGroups, if_pos fun group hg =>
        (joinMessage_fits hstart (hok group hg).ne_nil (hfits group hg)).2.2]
      rfl
    · rw [List.flatMap_map, ← hflatten]
      exact List.flatMap_congr hparse
    · intro message hmessage
      obtain ⟨group, hg, rfl⟩ := List.mem_map.mp hmessage
      rw [hparse group hg, (joinMessage_fits hstart (hok group hg).ne_nil (hfits group hg)).2.1]
      have hone := pack_size hg
      have hpos := List.length_pos_of_ne_nil (hok group hg).ne_nil
      exact hone.imp_right fun hone => Nat.le_antisymm hone hpos

/-- With a group that does not fit, a channel is lost. -/
theorem not_keepsPairs_of_lost (tags : Option Str) (hchannels : ∀ w ∈ channels, IsJoinWord w)
    (hkeys : ∀ w ∈ keys, IsJoinWord w)
    (hgroup : group ∈ joinPacks host channels keys maxLength)
    (hle : joinBufferSize ≤ packSize joinWeight (joinHead host).length group) :
    ¬ KeepsPairs tags host channels keys maxLength := by
  rintro ⟨messages, hcalls, hpairs, -⟩
  rw [ircMessageSplitJoin_eq hchannels hkeys] at hcalls
  obtain ⟨calls, hgroups, heq⟩ := Option.map_eq_some_iff.mp hcalls
  obtain ⟨-, rfl⟩ := Prod.mk.inj heq
  rw [joinGroups] at hgroups
  split at hgroups
  case isFalse => cases hgroups
  case isTrue hmessages =>
    have heq := joinCalls_injective (Option.some.inj hgroups)
    subst heq
    rw [List.flatMap_map] at hpairs
    have hflatten := joinPacks_flatten host channels keys maxLength
    by_cases hstart : (joinHead host).length < joinBufferSize
    · rw [joinStart_eq hstart, ← joinPacks] at hpairs hmessages
      have hok : ∀ group ∈ joinPacks host channels keys maxLength, GroupOk group := fun group hg =>
        groupOk_of_mem hchannels hkeys hg
      have hall := flatMap_eq_flatten (fun group hg => ?_) (hpairs.trans hflatten.symm)
      · exact (parseJoin_lost (hok group hgroup) hstart hle (hmessages group hgroup)).2 (hall group hgroup)
      · by_cases hfit : packSize joinWeight (joinHead host).length group < joinBufferSize
        · exact Nat.le_of_eq (congrArg List.length (parseJoin_fits (hok group hg) hfit))
        · exact (parseJoin_lost (hok group hg) hstart (Nat.not_lt.mp hfit) (hmessages group hg)).1
    · -- no message begins as it must
      have hnil : (packFrom joinWeight (maxLength - 2) (joinStart host).length [] (pairUp channels keys)).flatMap
          (fun group => parseJoin host (joinMessage (joinStart host) group)) = [] := by
        refine List.flatMap_eq_nil_iff.mpr fun group hg => ?_
        have hlt := (hmessages group hg).1
        rw [parseJoin, if_neg fun hpre => ?_]
        have := hpre.length_le
        rw [List.length_append] at this
        omega
      have hgnil := List.flatMap_eq_nil_iff.mp (hflatten.trans (hpairs.symm.trans hnil)) group hgroup
      exact packFrom_ne_nil hgroup hgnil

/-- Channels and keys stay paired if and only if all messages fit into the buffer. -/
theorem ircMessageSplitJoin_iff (tags host : Option Str) (channels keys : List Str) (maxLength : Int)
    (hchannels : ∀ w ∈ channels, IsJoinWord w) (hkeys : ∀ w ∈ keys, IsJoinWord w) :
    KeepsPairs tags host channels keys maxLength ↔
      ∀ group ∈ packFrom joinWeight (maxLength - 2) (joinHead host).length [] (pairUp channels keys),
        packSize joinWeight (joinHead host).length group < 16384 := by
  constructor
  · intro hkeeps group hgroup
    by_contra hlt
    exact not_keepsPairs_of_lost tags hchannels hkeys hgroup (Nat.not_lt.mp hlt) hkeeps
  · exact keepsPairs_of_fits tags hchannels hkeys

/-- For a length up to the size of the buffer, each channel with its key must fit. -/
theorem joinPacks_fits_iff (host : Option Str) (channels keys : List Str) {maxLength : Int}
    (hmax : maxLength - 2 ≤ 16384) :
    (∀ group ∈ joinPacks host channels keys maxLength, packSize joinWeight (joinHead host).length group < 16384) ↔
      ∀ pair ∈ pairUp channels keys, (joinHead host).length + joinLengthToAdd pair.1 pair.2 < 16384 :=
  packFrom_lt_iff hmax _

/-- Three channels, of which two have a key. -/
theorem ircMessageSplitJoin_iff_three :
    KeepsPairs none none [lit "#chan1", lit "#chan2", lit "#chan3"] [lit "key1", lit "key2"] 20 :=
  (ircMessageSplitJoin_iff none none [lit "#chan1", lit "#chan2", lit "#chan3"] [lit "key1", lit "key2"] 20
    (by decide) (by decide)).mpr (by decide)

/-- A channel of 16370 bytes is lost, and its key is joined instead. -/
theorem ircMessageSplitJoin_fails : ∃ channel key : Str, IsJoinWord channel ∧ IsJoinWord key ∧
    (joinArguments [channel] [key]).length < 16384 ∧ ¬ KeepsPairs none none [channel] [key] 512 := by
  have hword : IsJoinWord (List.replicate 16370 (ch 'a')) :=
    ⟨List.ne_nil_of_length_pos (by rw [List.length_replicate]; exact Nat.succ_pos _),
      fun h => absurd (List.eq_of_mem_replicate h) (by decide), fun h => absurd (List.eq_of_mem_replicate h) (by decide)⟩
  refine ⟨List.replicate 16370 (ch 'a'), lit "#key4321", hword, by decide, ?_, ?_⟩
  · rw [joinArguments, joinList, if_neg (List.cons_ne_nil _ _), List.intercalate_singleton, List.intercalate_singleton,
      List.length_append, List.length_replicate]
    decide
  · have hgroup : [(List.replicate 16370 (ch 'a'), some (lit "#key4321"))] ∈
        joinPacks none [List.replicate 16370 (ch 'a')] [lit "#key4321"] 512 := by
      rw [joinPacks, pairUp, packFrom, if_pos (.inr rfl)]
      exact List.mem_singleton_self _
    refine not_keepsPairs_of_lost none (List.forall_mem_singleton.mpr hword) (by decide) hgroup ?_
    rw [packSize, List.map_singleton, List.sum_singleton, joinWeight, joinLengthToAdd, List.length_replicate]
    decide

end

end Wirc

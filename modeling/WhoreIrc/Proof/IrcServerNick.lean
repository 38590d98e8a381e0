import Mathlib.Data.List.Nodup
import WhoreIrc.Framework.Walk
import WhoreIrc.Spec.IrcServer

/-!
# The search of a free nick

The nicks that are built end in any case. Before them, the search is a walk on the
indices of the list: from an index to the one after that where the text tried is
found.
-/

namespace Wirc

open Framework

/-! ## Nicks that are built -/

section

variable {server server' : IrcServerNicks} {nick nick' : Str} {tried tried' : List (Str × Bool)}

theorem NicksTried.unique (h : NicksTried server tried) (h' : NicksTried server tried') : tried = tried' := by
  induction h generalizing tried' with
  | stop hstop =>
    cases h' with
    | stop => rfl
    | next hnext => exact absurd (hstop.symm.trans hnext) (Option.some_ne_none _).symm
  | next hnext _ ih =>
    cases h' with
    | stop hstop => exact absurd (hstop.symm.trans hnext) (Option.some_ne_none _).symm
    | next hnext' h' =>
      cases hnext.symm.trans hnext'
      rw [ih h']

/-- How many more nicks can be built after one. -/
def nicksLeft (server : IrcServerNicks) (nick : Str) : Nat := (9 - nick.length) + (100 - server.nickAlternateNumber).toNat

/-- A nick that is built has one `_` more, or the next number. -/
theorem buildNick_some (hbuild : 0 ≤ server.nickAlternateNumber)
    (h : ircServerBuildNick server nick = (some nick', server')) :
    0 ≤ server'.nickAlternateNumber ∧
      nicksLeft (ircServerSetNick server' (some nick')) (snprintf 64 nick') < nicksLeft server nick := by
  rw [ircServerBuildNick] at h
  split at h
  · rename_i hshort
    cases h
    refine ⟨hbuild, ?_⟩
    simp only [nicksLeft, ircServerSetNick, snprintf, List.length_take, List.length_append]
    change 9 - min 63 (nick.length + 1) + _ < _
    omega
  · rename_i hlong
    dsimp only at h
    split at h
    · cases h
    · rename_i hnumber
      split at h
      · cases h
      · rename_i hfits
        cases h
        have hmore : 0 ≤ server.nickAlternateNumber + 1 := by omega
        refine ⟨hmore, ?_⟩
        simp only [nicksLeft, ircServerSetNick, snprintf, List.length_take, List.length_append] at hnumber hfits ⊢
        omega

theorem rejected_built (hbuild : 0 ≤ server.nickAlternateNumber) :
    ircServerGetAlternateNick server = ircServerBuildNick server (snprintf 64 (server.nick.getD [])) := by
  rw [ircServerGetAlternateNick, if_neg (Int.not_lt.mpr hbuild)]

/-- The search ends with nicks that are built. -/
theorem exists_built {from' : IrcServerNicks} (hbuild : 0 ≤ server.nickAlternateNumber)
    (h : ircServerGetAlternateNick from' = ircServerBuildNick server nick) :
    ∃ built : List Str, NicksTried from' (built.map (·, true)) := by
  induction hleft : nicksLeft server nick using Nat.strong_induction_on generalizing from' server nick with
  | _ left ih =>
    rcases hresult : ircServerBuildNick server nick with ⟨_ | nick', server'⟩
    · exact ⟨[], .stop (by rw [ircServerNickRejected, h, hresult])⟩
    · obtain ⟨hbuild', hless⟩ := buildNick_some hbuild hresult
      obtain ⟨built, hbuilt⟩ := @ih _ (hleft ▸ hless) (ircServerSetNick server' (some nick')) _ _ hbuild'
        (rejected_built hbuild') rfl
      refine ⟨nick' :: built, ?_⟩
      have hnext : ircServerNickRejected from' = some (nick', ircServerSetNick server' (some nick')) := by
        rw [ircServerNickRejected, h, hresult]
      have htried := NicksTried.next hnext hbuilt
      rwa [show decide (0 ≤ (ircServerSetNick server' (some nick')).nickAlternateNumber) = true from
        decide_eq_true hbuild'] at htried

end

/-! ## Nicks of the list -/

/-- The index that is tried after a nick. -/
def nextNickIndex (nicks : List Str) (nick : Str) : Nat :=
  match nicks.idxOf? nick with
  | some i => (i + 1) % nicks.length
  | none => 0

/-- The nick that is tried for an index. -/
def nickAt (nicks : List Str) (i : Nat) : Str := nickBuffer (nicks.getD i [])

/-- The index that is tried after another one. -/
def indexAfter (nicks : List Str) (i : Nat) : Nat := nextNickIndex nicks (nickAt nicks i)

/-- The server while the nicks of the list are tried. -/
def listServer (nicks : List Str) (nicksAlternate : Bool) (first : Int) (nick : Str) : IrcServerNicks :=
  ⟨nicks, some nick, first, -1, nicksAlternate⟩

section

variable {nicks : List Str} {nicksAlternate : Bool} {first : Int} {nick : Str} {tried : List (Str × Bool)}

/-- The first index tried, once the end of the list is known. -/
def firstTried (nicks : List Str) (first : Int) (nick : Str) : Int :=
  if nick ∈ nicks ∧ nextNickIndex nicks nick = 0 ∧ first < 0 then 0 else first

theorem alternate_list :
    ircServerGetAlternateNick (listServer nicks nicksAlternate first nick) =
      if (nextNickIndex nicks nick : Int) ≠ firstTried nicks first nick then
        (some (nickAt nicks (nextNickIndex nicks nick)),
          listServer nicks nicksAlternate (firstTried nicks first nick) nick)
      else if nicksAlternate then
        ircServerBuildNick
          ⟨nicks, some nick, firstTried nicks first nick, 0, nicksAlternate⟩ (snprintf 64 (nicks.getD 0 []))
      else (none, listServer nicks nicksAlternate (firstTried nicks first nick) nick) := by
  have hlist : (listServer nicks nicksAlternate first nick).nickAlternateNumber < 0 := Int.negSucc_lt_zero 0
  rw [ircServerGetAlternateNick, if_pos hlist, ircServerGetNickIndex]
  cases hindex : nicks.idxOf? nick with
  | none =>
    have hnone : nick ∉ nicks := List.idxOf?_eq_none_iff.mp hindex
    simp only [listServer, Option.bind_some, hindex, nextNickIndex, firstTried, hnone, false_and, if_false, nickAt,
      nickBuffer, Int.reduceNeg, Int.reduceLT, if_true, Int.toNat_zero, Int.natCast_zero]
  | some i =>
    have hmem : nick ∈ nicks := by
      obtain ⟨hi, rfl, -⟩ := List.idxOf?_eq_some_iff.mp hindex
      exact List.getElem_mem hi
    have hmod : ((i : Int) + 1).tmod nicks.length = ((i + 1) % nicks.length : Nat) := by
      rw [Int.tmod_eq_emod_of_nonneg (by omega)]
      norm_cast
    simp only [listServer, Option.bind_some, hindex, nextNickIndex, firstTried, hmem, true_and, nickAt, nickBuffer,
      Int.not_lt.mpr (Int.natCast_nonneg i), if_false, hmod, Int.toNat_natCast, Int.natCast_eq_zero]
    split
    · rfl
    · rfl

/-- A nick of the list is tried. -/
theorem rejected_list (h : (nextNickIndex nicks nick : Int) ≠ firstTried nicks first nick) :
    ircServerNickRejected (listServer nicks nicksAlternate first nick) =
      some (nickAt nicks (nextNickIndex nicks nick),
        listServer nicks nicksAlternate (firstTried nicks first nick) (nickAt nicks (nextNickIndex nicks nick))) := by
  rw [ircServerNickRejected, alternate_list, if_pos h]
  rfl

/-- All nicks of the list are tried. -/
theorem rejected_end (h : (nextNickIndex nicks nick : Int) = firstTried nicks first nick) :
    ∃ built : List Str, NicksTried (listServer nicks nicksAlternate first nick) (built.map (·, true)) := by
  have heq := @alternate_list nicks nicksAlternate first nick
  rw [if_neg (not_not.mpr h)] at heq
  cases nicksAlternate with
  | true => exact exists_built (Int.le_refl 0) heq
  | false => exact ⟨[], .stop (by rw [ircServerNickRejected, heq]; rfl)⟩

/-- The search stops at the index `stop`: the first nick tried is there, or else it is not in the
list, and the end of the list is found. -/
def StopsAt (nicks : List Str) (first : Int) (stop : Nat) (nick : Str) : Prop :=
  first = stop ∨ (first < 0 ∧ stop = 0 ∧ (∀ other ∈ nicks, other.length < 64) ∧ nick ∈ nicks)

theorem nickBuffer_short (h : nick.length < 64) : nickBuffer nick = nick := List.take_of_length_le (Nat.le_of_lt_succ h)

theorem nickBuffer_length (nick : Str) : (nickBuffer nick).length < 64 := by
  rw [nickBuffer, snprintf, List.length_take]
  omega

theorem nextNickIndex_lt (hnicks : nicks ≠ []) (nick : Str) : nextNickIndex nicks nick < nicks.length := by
  have hpos := List.length_pos_of_ne_nil hnicks
  rw [nextNickIndex]
  split
  · exact Nat.mod_lt _ hpos
  · exact hpos

theorem getD_index {i : Nat} (hi : i < nicks.length) : nicks.getD i [] = nicks[i] := by
  rw [List.getD_eq_getElem?_getD, List.getElem?_eq_getElem hi, Option.getD_some]

theorem nickAt_mem (hshort : ∀ other ∈ nicks, other.length < 64) {i : Nat} (hi : i < nicks.length) :
    nickAt nicks i ∈ nicks := by
  have hmem := List.getElem_mem hi
  rw [nickAt, getD_index hi, nickBuffer_short (hshort _ hmem)]
  exact hmem

theorem StopsAt.iff {stop : Nat} (h : StopsAt nicks first stop nick) :
    (nextNickIndex nicks nick : Int) = firstTried nicks first nick ↔ nextNickIndex nicks nick = stop := by
  rw [firstTried]
  rcases h with rfl | ⟨hneg, rfl, -, hmem⟩
  · rw [if_neg fun h => Int.not_lt.mpr (Int.natCast_nonneg stop) h.2.2, Int.natCast_inj]
  · split
    · norm_cast
    · rename_i hne
      refine ⟨fun h => ?_, fun h => absurd ⟨hmem, h, hneg⟩ hne⟩
      omega

theorem StopsAt.next {stop : Nat} (h : StopsAt nicks first stop nick) (hnicks : nicks ≠ [])
    (hne : nextNickIndex nicks nick ≠ stop) :
    StopsAt nicks (firstTried nicks first nick) stop (nickAt nicks (nextNickIndex nicks nick)) := by
  rw [firstTried]
  rcases h with rfl | ⟨hneg, rfl, hshort, hmem⟩
  · rw [if_neg fun h => Int.not_lt.mpr (Int.natCast_nonneg stop) h.2.2]
    exact .inl rfl
  · rw [if_neg fun h => hne h.2.1]
    exact .inr ⟨hneg, rfl, hshort, nickAt_mem hshort (nextNickIndex_lt hnicks nick)⟩

/-- The nicks of the list are tried by a walk on the indices. -/
theorem tried_walk (hnicks : nicks ≠ []) {stop : Nat} (hstop : StopsAt nicks first stop nick)
    (h : NicksTried (listServer nicks nicksAlternate first nick) tried) :
    ∃ (indices : List Nat) (built : List Str), WalkTo (indexAfter nicks) stop (nextNickIndex nicks nick) indices ∧
      tried = (indices.map (nickAt nicks)).map (·, false) ++ built.map (·, true) := by
  generalize hserver : listServer nicks nicksAlternate first nick = server at h
  induction h generalizing first nick with
  | stop hnone =>
    subst hserver
    by_cases hend : nextNickIndex nicks nick = stop
    · exact ⟨[], [], hend ▸ .stop, rfl⟩
    · rw [rejected_list fun heq => hend (hstop.iff.mp heq)] at hnone
      cases hnone
  | next hnext htried ih =>
    subst hserver
    by_cases hend : nextNickIndex nicks nick = stop
    · obtain ⟨built, hbuilt⟩ := @rejected_end _ nicksAlternate _ _ (hstop.iff.mpr hend)
      exact ⟨[], built, hend ▸ .stop, (NicksTried.next hnext htried).unique hbuilt⟩
    · rw [rejected_list fun heq => hend (hstop.iff.mp heq)] at hnext
      cases hnext
      obtain ⟨indices, built, hwalk, rfl⟩ := ih (hstop.next hnicks hend) rfl
      exact ⟨nextNickIndex nicks nick :: indices, built, .step hend hwalk, rfl⟩

theorem walk_tried (hnicks : nicks ≠ []) {stop i : Nat} {indices : List Nat} (h : WalkTo (indexAfter nicks) stop i indices)
    (hstop : StopsAt nicks first stop nick) (hi : nextNickIndex nicks nick = i) :
    ∃ built : List Str, NicksTried (listServer nicks nicksAlternate first nick)
      ((indices.map (nickAt nicks)).map (·, false) ++ built.map (·, true)) := by
  induction h generalizing first nick with
  | stop => exact rejected_end (hstop.iff.mpr hi)
  | step hne _ ih =>
    subst hi
    obtain ⟨built, hbuilt⟩ := ih (hstop.next hnicks hne) rfl
    exact ⟨built, .next (rejected_list fun heq => hne (hstop.iff.mp heq)) hbuilt⟩

/-- The search is right if the walk ends after all the nicks of the list. -/
theorem right_iff_walk (hnicks : nicks ≠ []) {stop : Nat} (hstop : StopsAt nicks first stop nick) :
    NickSearchRight (listServer nicks nicksAlternate first nick) ↔
      ∃ indices, WalkTo (indexAfter nicks) stop (nextNickIndex nicks nick) indices ∧
        ∀ other ∈ nicks, nick = other ∨ other ∈ indices.map (nickAt nicks) := by
  constructor
  · rintro ⟨listed, built, htried, hall⟩
    obtain ⟨indices, built', hwalk, heq⟩ := tried_walk hnicks hstop htried
    have hlisted := congrArg (fun tried => (tried.filter fun x => !x.2).map Prod.fst) heq
    simp only [List.filter_append, List.filter_map, List.map_append, Function.comp_def, Bool.not_false, Bool.not_true,
      List.filter_true, List.filter_false, List.map_nil, List.append_nil, List.map_map, List.map_id'] at hlisted
    refine ⟨indices, hwalk, fun other hother => ?_⟩
    obtain heq | hmem := hall other hother
    · exact .inl (Option.some.inj heq)
    · rw [hlisted] at hmem
      exact .inr hmem
  · rintro ⟨indices, hwalk, hall⟩
    obtain ⟨built, htried⟩ := walk_tried hnicks hwalk hstop rfl
    exact ⟨indices.map (nickAt nicks), built, htried, fun other hother => (hall other hother).imp_left (congrArg some)⟩

/-- A first nick that is not in the list is followed by the nick at the beginning of the list. -/
theorem right_unknown (hnick : nick ∉ nicks) :
    NickSearchRight (listServer nicks nicksAlternate (-1) nick) ↔
      NickSearchRight (listServer nicks nicksAlternate (-1) (nickAt nicks 0)) := by
  have hindex : nextNickIndex nicks nick = 0 := by rw [nextNickIndex, List.idxOf?_eq_none_iff.mpr hnick]
  have hfirst : firstTried nicks (-1) nick = -1 := if_neg fun h => hnick h.1
  have hnext := @rejected_list nicks nicksAlternate (-1) nick
    (by rw [hindex, hfirst]; decide)
  rw [hindex, hfirst] at hnext
  have hother : ∀ other ∈ nicks, nick ≠ other := fun other hother heq => hnick (heq ▸ hother)
  constructor
  · rintro ⟨listed, built, htried, hall⟩
    cases listed with
    | nil =>
      cases built with
      | nil =>
        cases htried with
        | stop hnone => cases hnext.symm.trans hnone
      | cons =>
        generalize htrue : (List.map _ [] ++ List.map _ _ : List (Str × Bool)) = tried at htried
        cases htried with
        | stop => cases htrue
        | next h =>
          cases hnext.symm.trans h
          cases htrue
    | cons x listed =>
      generalize heq : (List.map _ (x :: listed) ++ List.map _ _ : List (Str × Bool)) = tried at htried
      cases htried with
      | stop => cases heq
      | next h htried =>
        cases hnext.symm.trans h
        cases heq
        refine ⟨listed, built, htried, fun other hmem => ?_⟩
        obtain heq | hlisted := hall other hmem
        · exact absurd (Option.some.inj heq) (hother other hmem)
        · exact (List.mem_cons.mp hlisted).imp_left fun heq => congrArg some heq.symm
  · rintro ⟨listed, built, htried, hall⟩
    refine ⟨nickAt nicks 0 :: listed, built, .next hnext htried, fun other hmem => .inr ?_⟩
    exact List.mem_cons.mpr ((hall other hmem).imp_left fun heq => (Option.some.inj heq).symm)

end

/-! ## Lists with repeated nicks -/

section

variable {nicks known rest : List Str} {first again : Str} {f : Nat}

theorem idxOf?_split {before after : List Str} {nick : Str} (h : nicks = before ++ nick :: after) (hnick : nick ∉ before) :
    nicks.idxOf? nick = some before.length := by
  subst h
  refine List.idxOf?_eq_some_iff.mpr ⟨?_, ?_, fun j hj => ?_⟩
  · rw [List.length_append, List.length_cons]
    omega
  · rw [List.getElem_append_right le_rfl]
    simp only [Nat.sub_self, List.getElem_cons_zero]
  · rw [List.getElem_append_left hj]
    exact fun heq => hnick (heq ▸ List.getElem_mem hj)

theorem idxOf?_nodup (hnodup : known.Nodup) {i : Nat} (hi : i < known.length) :
    (known ++ rest).idxOf? known[i] = some i := by
  have hsplit : known ++ rest = known.take i ++ known[i] :: (known.drop (i + 1) ++ rest) := by
    rw [← List.cons_append, List.getElem_cons_drop, ← List.append_assoc, List.take_append_drop]
  have hnot : known[i] ∉ known.take i := fun hmem => by
    obtain ⟨j, hj, heq⟩ := List.getElem_of_mem hmem
    rw [List.length_take] at hj
    rw [List.getElem_take, hnodup.getElem_inj_iff] at heq
    omega
  rw [idxOf?_split hsplit hnot, List.length_take_of_le hi.le]

/-- The first nick that is repeated. -/
theorem exists_repeated {before after : List Str} (hbefore : before.Nodup) (h : ¬ (before ++ after).Nodup) :
    ∃ known again rest, before ++ after = known ++ again :: rest ∧ known.Nodup ∧ again ∈ known := by
  induction after generalizing before with
  | nil => exact absurd (by rwa [List.append_nil]) h
  | cons x after ih =>
    by_cases hx : x ∈ before
    · exact ⟨before, x, after, rfl, hbefore, hx⟩
    · rw [List.append_cons] at h ⊢
      exact ih (List.nodup_append.mpr ⟨hbefore, List.nodup_singleton x, fun a ha b hb heq =>
        hx (List.mem_singleton.mp hb ▸ heq ▸ ha)⟩) h

/-- After a nick that is not repeated before. -/
theorem indexAfter_nodup (hnodup : known.Nodup) {i : Nat} (hi : i < known.length) (hshort : known[i].length < 64) :
    indexAfter (known ++ rest) i = (i + 1) % (known ++ rest).length := by
  have hlt : i < (known ++ rest).length := by
    rw [List.length_append]
    omega
  rw [indexAfter, nickAt, getD_index hlt, List.getElem_append_left hi, nickBuffer_short hshort, nextNickIndex,
    idxOf?_nodup hnodup hi]

theorem nickAt_known {i : Nat} (hi : i < known.length) (hshort : known[i].length < 64) :
    nickAt (known ++ rest) i = known[i] := by
  have hlt : i < (known ++ rest).length := by
    rw [List.length_append]
    omega
  rw [nickAt, getD_index hlt, List.getElem_append_left hi, nickBuffer_short hshort]

theorem nickAt_again : nickAt (known ++ again :: rest) known.length = nickBuffer again := by
  rw [nickAt, getD_index (by rw [List.length_append, List.length_cons]; omega), List.getElem_append_right le_rfl]
  simp only [Nat.sub_self, List.getElem_cons_zero]

/-- What the walk does to be right, where `f` is the index of the first nick. -/
def WalkRight (nicks : List Str) (first : Str) (f : Nat) : Prop :=
  ∃ indices, WalkTo (indexAfter nicks) f (nextNickIndex nicks first) indices ∧
    ∀ other ∈ nicks, first = other ∨ other ∈ indices.map (nickAt nicks)

/-- All nicks are different. -/
theorem walkRight_nodup (hnodup : nicks.Nodup) (hshort : ∀ nick ∈ nicks, nick ≠ first → nick.length < 64)
    (hf : nicks.idxOf? first = some f) : WalkRight nicks first f := by
  obtain ⟨hlt, hfirst, -⟩ := List.idxOf?_eq_some_iff.mp hf
  have hother : ∀ i (hi : i < nicks.length), i ≠ f → nicks[i].length < 64 := fun i hi hne =>
    hshort _ (List.getElem_mem hi) fun heq => hne (hnodup.getElem_inj_iff.mp (heq.trans hfirst.symm))
  have hafter : ∀ i, i < nicks.length → i ≠ f → indexAfter nicks i = (i + 1) % nicks.length := fun i hi hne => by
    have h := @indexAfter_nodup _ [] hnodup _ hi (hother i hi hne)
    rwa [List.append_nil] at h
  have hbegin : WalkTo (indexAfter nicks) f 0 (List.range' 0 (f - 0) ++ []) := by
    refine .range (Nat.zero_le _) (fun i _ hi => ?_) (.inr le_rfl) .stop
    rw [hafter i (by omega) (by omega), Nat.mod_eq_of_lt (by omega)]
  have hcover : ∀ indices : List Nat, (∀ i < nicks.length, i ≠ f → i ∈ indices) →
      ∀ other ∈ nicks, first = other ∨ other ∈ indices.map (nickAt nicks) := by
    intro indices hindices other hmem
    obtain ⟨i, hi, rfl⟩ := List.getElem_of_mem hmem
    by_cases heq : i = f
    · subst heq
      exact .inl hfirst.symm
    · have hat := @nickAt_known _ [] _ hi (hother i hi heq)
      rw [List.append_nil] at hat
      exact .inr (List.mem_map.mpr ⟨i, hindices i hi heq, hat⟩)
  have hnext : nextNickIndex nicks first = (f + 1) % nicks.length := by rw [nextNickIndex, hf]
  by_cases hlast : f + 1 = nicks.length
  · rw [hlast, Nat.mod_self] at hnext
    refine ⟨_, hnext ▸ hbegin, hcover _ fun i hi hne => ?_⟩
    simp only [List.append_nil, List.mem_range'_1]
    omega
  · rw [Nat.mod_eq_of_lt (by omega)] at hnext
    have hend : WalkTo (indexAfter nicks) f (nicks.length - 1) ((nicks.length - 1) :: (List.range' 0 (f - 0) ++ [])) := by
      refine .step (by omega) ?_
      rw [hafter _ (by omega) (by omega), Nat.sub_add_cancel (by omega), Nat.mod_self]
      exact hbegin
    have hwalk := hend.range (a := f + 1) (by omega) (fun i hi hi' => by
      rw [hafter i (by omega) (by omega), Nat.mod_eq_of_lt (by omega)]) (.inl (Nat.lt_succ_self f))
    rw [← hnext] at hwalk
    refine ⟨_, hwalk, hcover _ fun i hi hne => ?_⟩
    rw [hnext]
    simp only [List.append_nil, List.mem_append, List.mem_cons, List.mem_range'_1]
    omega

/-- Nicks are repeated at the end only. -/
theorem walkRight_repeated (h : RepeatedAtEnd nicks first known again rest)
    (hshort : ∀ nick ∈ nicks, nick ≠ first → nick.length < 64) (hf : nicks.idxOf? first = some f) :
    WalkRight nicks first f := by
  obtain ⟨rfl, hnodup, hfirst, hagain, hrest, hback⟩ := h
  obtain ⟨f', hf', rfl⟩ := List.getElem_of_mem hfirst
  obtain rfl : f' = f := Option.some.inj ((idxOf?_nodup hnodup hf').symm.trans hf)
  have hlength : (known ++ again :: rest).length = known.length + 1 + rest.length := by
    rw [List.length_append, List.length_cons]
    omega
  have hother : ∀ i (hi : i < known.length), i ≠ f' → known[i].length < 64 := fun i hi hne =>
    hshort _ (List.mem_append_left _ (List.getElem_mem hi)) fun heq => hne (hnodup.getElem_inj_iff.mp heq)
  have hafter : ∀ i, i < known.length → i ≠ f' → indexAfter (known ++ again :: rest) i = i + 1 := fun i hi hne => by
    rw [indexAfter_nodup hnodup hi (hother i hi hne), Nat.mod_eq_of_lt (by omega)]
  have hnext : nextNickIndex (known ++ again :: rest) known[f'] = f' + 1 := by
    rw [nextNickIndex, hf]
    exact Nat.mod_eq_of_lt (by omega)
  -- the search goes back to the beginning, or to the second nick if the first one is tried again
  obtain ⟨c, hc, hcf, hhead⟩ : ∃ c, indexAfter (known ++ again :: rest) known.length = c ∧ c ≤ f' ∧
      ∀ i (hi : i < known.length), i < c → known[i] = nickBuffer again := by
    rw [indexAfter, nickAt_again]
    rcases hback with ⟨hhead, hne⟩ | ⟨-, hnot⟩
    · have hpos : 0 < known.length := by omega
      rw [List.head?_eq_getElem?, List.getElem?_eq_getElem hpos, Option.some_inj] at hhead
      rw [List.head?_eq_getElem?, List.getElem?_eq_getElem hpos, ne_eq, Option.some_inj] at hne
      refine ⟨1, ?_, ?_, fun i hi hi' => ?_⟩
      · rw [nextNickIndex, ← hhead, idxOf?_nodup hnodup hpos]
        exact Nat.mod_eq_of_lt (by omega)
      · by_contra hlt
        obtain rfl : f' = 0 := by omega
        exact hne rfl
      · obtain rfl : i = 0 := by omega
        exact hhead
    · refine ⟨0, ?_, Nat.zero_le _, fun i _ hi => absurd hi (Nat.not_lt_zero _)⟩
      rw [nextNickIndex, List.idxOf?_eq_none_iff.mpr hnot]
  have hbegin : WalkTo (indexAfter (known ++ again :: rest)) f' c (List.range' c (f' - c) ++ []) :=
    .range hcf (fun i _ hi => hafter i (by omega) (by omega)) (.inr le_rfl) .stop
  have hwalk := (WalkTo.step (s := known.length) (by omega) (by rw [hc]; exact hbegin)).range (a := f' + 1) (by omega)
    (fun i hi hi' => hafter i hi' (by omega)) (.inl (Nat.lt_succ_self f'))
  rw [← hnext] at hwalk
  refine ⟨_, hwalk, fun other hmem => ?_⟩
  have hknown : other ∈ known := by
    rcases List.mem_append.mp hmem with hmem | hmem
    · exact hmem
    · exact (List.mem_cons.mp hmem).elim (fun heq => heq ▸ hagain) (hrest other)
  obtain ⟨i, hi, rfl⟩ := List.getElem_of_mem hknown
  by_cases heq : i = f'
  · subst heq
    exact .inl rfl
  · rw [hnext, List.mem_map]
    by_cases hic : i < c
    · refine .inr ⟨known.length, ?_, nickAt_again.trans (hhead i hi hic).symm⟩
      simp only [List.mem_append, List.mem_cons, true_or, or_true]
    · refine .inr ⟨i, ?_, nickAt_known hi (hother i hi heq)⟩
      simp only [List.append_nil, List.mem_append, List.mem_cons, List.mem_range'_1]
      omega

/-- A walk that goes through all the nicks comes to the nick after the first one of the list. -/
theorem WalkRight.second (h : WalkRight nicks first f) (hpos : 0 < nicks.length) (hne : first ≠ nicks[0]) :
    ∃ indices, WalkTo (indexAfter nicks) f (nextNickIndex nicks nicks[0]) indices := by
  obtain ⟨indices, hwalk, hall⟩ := h
  obtain ⟨i, hi, hat⟩ := List.mem_map.mp ((hall _ (List.getElem_mem hpos)).resolve_left hne)
  obtain ⟨indices', hwalk'⟩ := hwalk.of_mem hi
  rw [indexAfter, hat] at hwalk'
  exact ⟨indices', hwalk'⟩

/-- The first nick is before the first nick that is repeated. -/
theorem WalkRight.first_known (h : WalkRight (known ++ again :: rest) first f) (hnodup : known.Nodup)
    (hagain : again ∈ known) (hshort : ∀ nick ∈ known ++ again :: rest, nick ≠ first → nick.length < 64)
    (hf : (known ++ again :: rest).idxOf? first = some f) : first ∈ known := by
  by_contra hnot
  have hother : ∀ i (hi : i < known.length), known[i].length < 64 := fun i hi =>
    hshort _ (List.mem_append_left _ (List.getElem_mem hi)) fun heq => hnot (heq ▸ List.getElem_mem hi)
  have hlength : (known ++ again :: rest).length = known.length + 1 + rest.length := by
    rw [List.length_append, List.length_cons]
    omega
  obtain ⟨e, he, rfl⟩ := List.getElem_of_mem hagain
  -- the walk cannot leave the nicks up to the one that is repeated
  have hclosed : ∀ i, i ≤ known.length → indexAfter (known ++ known[e] :: rest) i ≤ known.length := by
    intro i hi
    rcases Nat.lt_or_eq_of_le hi with hi | rfl
    · rw [indexAfter_nodup hnodup hi (hother i hi), Nat.mod_eq_of_lt (by omega)]
      omega
    · rw [indexAfter, nickAt_again, nickBuffer_short (hother e he), nextNickIndex, idxOf?_nodup hnodup he]
      exact (Nat.mod_le _ _).trans (by omega)
  have hstop : ¬ f ≤ known.length := by
    obtain ⟨hlt, hfirst, -⟩ := List.idxOf?_eq_some_iff.mp hf
    intro hle
    rcases Nat.lt_or_eq_of_le hle with hle | rfl
    · rw [List.getElem_append_left hle] at hfirst
      exact hnot (hfirst ▸ List.getElem_mem hle)
    · rw [List.getElem_append_right le_rfl] at hfirst
      simp only [Nat.sub_self, List.getElem_cons_zero] at hfirst
      exact hnot (hfirst ▸ List.getElem_mem he)
  have hpos : 0 < known.length := by omega
  have hhead : (known ++ known[e] :: rest)[0] = known[0] := List.getElem_append_left hpos
  obtain ⟨indices, hwalk⟩ := h.second (by omega) fun heq => hnot (heq.trans hhead ▸ List.getElem_mem hpos)
  refine WalkTo.not_closed hclosed hstop ?_ hwalk
  rw [hhead, nextNickIndex, idxOf?_nodup hnodup hpos]
  exact (Nat.mod_le _ _).trans (by omega)

/-- The walk from the first nick up to the nick that is repeated, and what it does then: it goes on from an index
that is not after the first nick. -/
theorem WalkRight.back (hf : f < known.length) (h : WalkRight (known ++ again :: rest) known[f] f) (hnodup : known.Nodup)
    (hshort : ∀ nick ∈ known ++ again :: rest, nick ≠ known[f] → nick.length < 64) {c : Nat}
    (hc : indexAfter (known ++ again :: rest) known.length = c) (hle : c ≤ known.length) :
    c ≤ f ∧ ∀ other ∈ known ++ again :: rest, other = known[f] ∨ other = nickBuffer again ∨
      ∃ i, ∃ hi : i < known.length, c ≤ i ∧ other = known[i] := by
  have hlength : (known ++ again :: rest).length = known.length + 1 + rest.length := by
    rw [List.length_append, List.length_cons]
    omega
  have hother : ∀ i (hi : i < known.length), i ≠ f → known[i].length < 64 := fun i hi hne =>
    hshort _ (List.mem_append_left _ (List.getElem_mem hi)) fun heq => hne (hnodup.getElem_inj_iff.mp heq)
  have hafter : ∀ i, i < known.length → i ≠ f → indexAfter (known ++ again :: rest) i = i + 1 := fun i hi hne => by
    rw [indexAfter_nodup hnodup hi (hother i hi hne), Nat.mod_eq_of_lt (by omega)]
  have hnext : nextNickIndex (known ++ again :: rest) known[f] = f + 1 := by
    rw [nextNickIndex, idxOf?_nodup hnodup hf]
    exact Nat.mod_eq_of_lt (by omega)
  obtain ⟨indices, hwalk, hall⟩ := h
  rw [hnext] at hwalk
  have hcf : c ≤ f := by
    by_contra hlt
    -- the walk would not leave the nicks after the first one
    refine WalkTo.not_closed (P := fun i => f < i ∧ i ≤ known.length) (fun i hi => ?_) (fun h => Nat.lt_irrefl _ h.1)
      ⟨Nat.lt_succ_self f, hf⟩ hwalk
    rcases Nat.lt_or_eq_of_le hi.2 with hlt' | rfl
    · rw [hafter i hlt' (by omega)]
      omega
    · rw [hc]
      omega
  have hbegin : WalkTo (indexAfter (known ++ again :: rest)) f c (List.range' c (f - c) ++ []) :=
    .range hcf (fun i _ hi => hafter i (by omega) (by omega)) (.inr le_rfl) .stop
  have hwalk' := (WalkTo.step (s := known.length) (by omega) (by rw [hc]; exact hbegin)).range (a := f + 1) (by omega)
    (fun i hi hi' => hafter i hi' (by omega)) (.inl (Nat.lt_succ_self f))
  rw [hwalk.unique hwalk'] at hall
  refine ⟨hcf, fun otherNick hmem => ?_⟩
  obtain heq | hmem := hall otherNick hmem
  · exact .inl heq.symm
  · obtain ⟨i, hi, rfl⟩ := List.mem_map.mp hmem
    simp only [List.append_nil, List.mem_append, List.mem_cons, List.mem_range'_1] at hi
    by_cases heq : i = known.length
    · subst heq
      exact .inr (.inl nickAt_again)
    · exact .inr (.inr ⟨i, by omega, by omega, nickAt_known (by omega) (hother i (by omega) (by omega))⟩)

theorem walkRight_fits (h : WalkRight nicks first f) (hf : nicks.idxOf? first = some f) :
    NicksFit nicks first ∨ FirstNickCut nicks first := by
  have hshort : ∀ nick ∈ nicks, nick ≠ first → nick.length < 64 := by
    obtain ⟨indices, -, hall⟩ := h
    intro nick hnick hne
    obtain ⟨i, -, rfl⟩ := List.mem_map.mp ((hall nick hnick).resolve_left hne.symm)
    exact nickBuffer_length _
  by_cases hdifferent : nicks.Nodup
  · exact .inl ⟨hshort, .inl hdifferent⟩
  · obtain ⟨known, again, rest, hsplit, hnodup, hagain⟩ := exists_repeated List.nodup_nil hdifferent
    rw [List.nil_append] at hsplit
    subst hsplit
    have hfirst := h.first_known hnodup hagain hshort hf
    obtain ⟨f', hf', rfl⟩ := List.getElem_of_mem hfirst
    obtain rfl : f' = f := Option.some.inj ((idxOf?_nodup hnodup hf').symm.trans hf)
    have hlength : (known ++ again :: rest).length = known.length + 1 + rest.length := by
      rw [List.length_append, List.length_cons]
      omega
    by_cases hbuffer : nickBuffer again ∈ known
    · -- the text is found at an index of the nicks that are not repeated
      obtain ⟨e, he, heq⟩ := List.getElem_of_mem hbuffer
      have hc : indexAfter (known ++ again :: rest) known.length = e + 1 := by
        rw [indexAfter, nickAt_again, nextNickIndex, ← heq, idxOf?_nodup hnodup he]
        exact Nat.mod_eq_of_lt (by omega)
      obtain ⟨hle, hall⟩ := h.back hf' hnodup hshort hc he
      have hpos : 0 < known.length := by omega
      obtain rfl : e = 0 := by
        rcases hall _ (List.mem_append_left _ (List.getElem_mem hpos)) with h | h | ⟨i, hi, hle', h⟩
        · have := hnodup.getElem_inj_iff.mp h
          omega
        · exact (hnodup.getElem_inj_iff.mp (h.trans heq.symm)).symm
        · have := hnodup.getElem_inj_iff.mp h
          omega
      refine .inl ⟨hshort, .inr ⟨known, again, rest, rfl, hnodup, hfirst, hagain, fun nick hnick => ?_, .inl ?_⟩⟩
      · rcases hall nick (List.mem_append_right _ (List.mem_cons_of_mem _ hnick)) with rfl | rfl | ⟨i, hi, -, rfl⟩
        · exact hfirst
        · exact hbuffer
        · exact List.getElem_mem hi
      · rw [List.head?_eq_getElem?, List.getElem?_eq_getElem hpos]
        refine ⟨congrArg some heq, fun h => ?_⟩
        have := hnodup.getElem_inj_iff.mp (Option.some.inj h)
        omega
    · have hlong : 64 ≤ again.length := by
        by_contra hlt
        exact hbuffer (by rwa [nickBuffer_short (Nat.lt_of_not_le hlt)])
      have hsame : again = known[f'] := by
        by_contra hne
        have := hshort again (List.mem_append_left _ hagain) hne
        omega
      by_cases hmem : nickBuffer again ∈ known ++ again :: rest
      · refine .inr ⟨hsame ▸ hlong, ?_, hsame ▸ hmem⟩
        rw [← hsame, List.count_append, List.count_cons_self]
        have := List.one_le_count_iff.mpr hagain
        omega
      · have hc : indexAfter (known ++ again :: rest) known.length = 0 := by
          rw [indexAfter, nickAt_again, nextNickIndex, List.idxOf?_eq_none_iff.mpr hmem]
        obtain ⟨-, hall⟩ := h.back hf' hnodup hshort hc (Nat.zero_le _)
        refine .inl ⟨hshort, .inr ⟨known, again, rest, rfl, hnodup, hfirst, hagain, fun nick hnick => ?_,
          .inr ⟨hsame, hmem⟩⟩⟩
        have hnick := List.mem_append_right known (List.mem_cons_of_mem again hnick)
        rcases hall nick hnick with rfl | rfl | ⟨i, hi, -, rfl⟩
        · exact hfirst
        · exact absurd hnick hmem
        · exact List.getElem_mem hi

end

/-! ## The search from the login -/

section

variable {server server' : IrcServerNicks} {nick first : Str} {tried : List (Str × Bool)}

theorem buildNick_short (h : ircServerBuildNick server nick = (some first, server')) : first.length < 64 := by
  rw [ircServerBuildNick] at h
  split at h
  · rename_i hshort
    cases h
    rw [List.length_append]
    change nick.length + 1 < 64
    omega
  · dsimp only at h
    split at h
    · cases h
    · split at h
      · cases h
      · rename_i hfits
        cases h
        simp only [List.length_append, List.length_take] at hfits ⊢
        omega

/-- All nicks that are returned fit in the static buffer. -/
theorem alternate_short (h : ircServerGetAlternateNick server = (some first, server')) : first.length < 64 := by
  rw [ircServerGetAlternateNick] at h
  split at h
  · dsimp only at h
    generalize (if ircServerGetNickIndex server < 0 then _ else _ : Int × IrcServerNicks) = index at h
    split at h
    · cases h
      exact nickBuffer_length _
    · split at h
      · exact buildNick_short h
      · cases h
  · exact buildNick_short h

theorem NicksTried.short (h : NicksTried server tried) : ∀ nick ∈ tried, nick.1.length < 64 := by
  induction h with
  | stop => exact fun nick hnick => absurd hnick List.not_mem_nil
  | @next server _ _ _ hnext _ ih =>
    rw [ircServerNickRejected] at hnext
    rcases hresult : ircServerGetAlternateNick server with ⟨_ | nick', server'⟩
    · rw [hresult] at hnext
      cases hnext
    · rw [hresult] at hnext
      cases hnext
      exact List.forall_mem_cons.mpr ⟨alternate_short hresult, ih⟩

theorem login_eq (hnicks : server.nicksArray ≠ []) (hfirst : (ircServerLoginNick server).nick = some first) :
    ircServerLoginNick server = listServer server.nicksArray server.nicksAlternate
      (match server.nicksArray.idxOf? first with
        | some i => i
        | none => -1) first := by
  obtain ⟨nicks, nick, tried, number, nicksAlternate⟩ := server
  cases nick with
  | none =>
    obtain ⟨head, nicks, rfl⟩ := List.exists_cons_of_ne_nil hnicks
    cases hfirst
    have hindex : (head :: nicks).idxOf? head = some 0 := @idxOf?_split _ [] _ _ rfl List.not_mem_nil
    simp only [List.headD_cons, hindex]
    rfl
  | some nick =>
    cases hfirst
    rfl

/-- The search is right from the login on if the nicks are different and fit in the static
buffer, or else are repeated at the end only; these are the only lists but for those where the
first nick is cut. -/
theorem nickSearch_right (server : IrcServerNicks) (hnicks : server.nicksArray ≠ [])
    (hfirst : (ircServerLoginNick server).nick = some first) :
    (NicksFit server.nicksArray first → NickSearchRight (ircServerLoginNick server)) ∧
      (NickSearchRight (ircServerLoginNick server) →
        NicksFit server.nicksArray first ∨ FirstNickCut server.nicksArray first) := by
  rw [login_eq hnicks hfirst]
  obtain ⟨nicks, nick, tried, number, nicksAlternate⟩ := server
  dsimp only at hnicks ⊢
  cases hf : nicks.idxOf? first with
  | some f =>
    dsimp only
    rw [right_iff_walk hnicks (.inl rfl)]
    refine ⟨fun hfits => ?_, fun hright => walkRight_fits hright hf⟩
    obtain ⟨hshort, hnodup | ⟨known, again, rest, hrepeated⟩⟩ := hfits
    · exact walkRight_nodup hnodup hshort hf
    · exact walkRight_repeated hrepeated hshort hf
  | none =>
    have hfirst : first ∉ nicks := List.idxOf?_eq_none_iff.mp hf
    have hpos := List.length_pos_of_ne_nil hnicks
    obtain ⟨head, tail, rfl⟩ := List.exists_cons_of_ne_nil hnicks
    have hother : ∀ nick ∈ head :: tail, nick ≠ first := fun nick hnick heq => hfirst (heq ▸ hnick)
    have hindex : (head :: tail).idxOf? head = some 0 := @idxOf?_split _ [] _ _ rfl List.not_mem_nil
    dsimp only
    rw [right_unknown hfirst]
    -- the nick at the beginning of the list is then like the first one
    have hiff : (∀ nick ∈ head :: tail, nick.length < 64) →
        (NickSearchRight (listServer (head :: tail) nicksAlternate (-1) (nickAt (head :: tail) 0)) ↔
          WalkRight (head :: tail) head 0) := by
      intro hshort
      have hat : nickAt (head :: tail) 0 = head := nickBuffer_short (hshort head List.mem_cons_self)
      rw [hat]
      exact right_iff_walk hnicks (.inr ⟨Int.negSucc_lt_zero 0, rfl, hshort, List.mem_cons_self⟩)
    constructor
    · rintro ⟨hshort, hnodup | ⟨known, again, rest, hrepeated⟩⟩
      · exact (hiff fun nick hnick => hshort nick hnick (hother nick hnick)).mpr
          (walkRight_nodup hnodup (fun nick hnick _ => hshort nick hnick (hother nick hnick)) hindex)
      · exact absurd (hrepeated.split ▸ List.mem_append_left _ hrepeated.firstKnown) hfirst
    · intro hright
      have hshort : ∀ nick ∈ head :: tail, nick.length < 64 := by
        obtain ⟨listed, built, htried, hall⟩ := hright
        intro nick hnick
        obtain heq | hlisted := hall nick hnick
        · exact Option.some.inj heq ▸ nickBuffer_length head
        · exact htried.short (nick, false) (List.mem_append_left _ (List.mem_map.mpr ⟨nick, hlisted, rfl⟩))
      have hsame := nickBuffer_short (hshort head List.mem_cons_self)
      refine .inl ⟨fun nick hnick _ => hshort nick hnick, .inl ?_⟩
      obtain ⟨-, hnodup | ⟨known, again, rest, hrepeated⟩⟩ | ⟨hlong, -⟩ := walkRight_fits ((hiff hshort).mp hright) hindex
      · exact hnodup
      · obtain ⟨hback, hne⟩ | ⟨rfl, hnot⟩ := hrepeated.back
        · obtain ⟨x, known, rfl⟩ := List.exists_cons_of_ne_nil (List.ne_nil_of_mem hrepeated.firstKnown)
          obtain ⟨rfl, -⟩ := List.cons.inj hrepeated.split
          exact absurd rfl hne
        · exact absurd (hsame.symm ▸ List.mem_cons_self) hnot
      · exact absurd (hshort head List.mem_cons_self) (Nat.not_lt.mpr hlong)

end

/-- A server before its login. -/
def exampleNicks (nicks : List Str) : IrcServerNicks := ⟨nicks, none, 0, -1, true⟩

theorem nickSearch_right_two : NickSearchRight (ircServerLoginNick (exampleNicks [lit "abcde", lit "fghi"])) :=
  (nickSearch_right (exampleNicks [lit "abcde", lit "fghi"]) (List.cons_ne_nil _ _) rfl).1
    ⟨by decide, .inl (by decide)⟩

/-- After the nick that is repeated, the one after its first place is tried again, and so on. -/
theorem nickSearch_repeated :
    ¬ NickSearchRight (ircServerLoginNick (exampleNicks [lit "abcde", lit "fghi", lit "abcde", lit "jkl"])) := by
  intro hright
  obtain ⟨indices, hwalk, -⟩ := (@right_iff_walk _ _ 0 _ (List.cons_ne_nil _ _) 0 (.inl rfl)).mp hright
  have hone : indexAfter [lit "abcde", lit "fghi", lit "abcde", lit "jkl"] 1 = 2 := by decide
  have htwo : indexAfter [lit "abcde", lit "fghi", lit "abcde", lit "jkl"] 2 = 1 := by decide
  refine WalkTo.not_closed (P := fun i => i = 1 ∨ i = 2) (fun i hi => ?_) (by decide) (.inl (by decide)) hwalk
  rcases hi with rfl | rfl
  · exact .inr hone
  · exact .inl htwo

end Wirc

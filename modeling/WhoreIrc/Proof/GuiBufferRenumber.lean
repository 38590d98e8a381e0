import Mathlib.Data.Int.Interval
import WhoreIrc.Proof.CString
import WhoreIrc.Proof.GuiBuffer
import WhoreIrc.Spec.GuiBuffer

/-!
# Buffers are renumbered by groups (`renumber_right`)

The list is what is before the range, the range and what is after it
(`RangeSplit`), and the range begins with a group: the loop gives this group the
current number, and goes on with the rest of the range (`renumberLoop_right`).
-/

namespace Wirc

variable {Buffer : Type} {number : Buffer → Int} {list : List Buffer}

/-! ## Groups -/

theorem groupCount_congr {number' : Buffer → Int} (h : ∀ x ∈ list, number' x = number x) :
    groupCount number' list = groupCount number list := by
  rw [groupCount, groupCount, List.map_congr_left h]

/-- A group is before the others. -/
theorem groupCount_append {group rest : List Buffer} {n : Int} (hne : group ≠ []) (hgroup : ∀ x ∈ group, number x = n)
    (hrest : ∀ x ∈ rest, n < number x) : groupCount number (group ++ rest) = groupCount number rest + 1 := by
  have hset : ((group ++ rest).map number).toFinset = insert n (rest.map number).toFinset := by
    ext k
    simp only [List.mem_toFinset, Finset.mem_insert, List.mem_map, List.mem_append]
    constructor
    · rintro ⟨x, hx | hx, rfl⟩
      · exact .inl (hgroup x hx)
      · exact .inr ⟨x, hx, rfl⟩
    · rintro (rfl | ⟨x, hx, rfl⟩)
      · obtain ⟨x, hx⟩ := List.exists_mem_of_ne_nil group hne
        exact ⟨x, .inl hx, hgroup x hx⟩
      · exact ⟨x, .inr hx, rfl⟩
  have hnot : n ∉ (rest.map number).toFinset := by
    rw [List.mem_toFinset, List.mem_map]
    rintro ⟨x, hx, rfl⟩
    exact Int.lt_irrefl _ (hrest x hx)
  rw [groupCount, hset, Finset.card_insert_of_notMem hnot, groupCount]

/-- The least of consecutive numbers is the first one. -/
theorem Consecutive.least {start n : Int} {count : Nat} {numbers : List Int} (h : Consecutive start count numbers)
    (hmem : n ∈ numbers) (hleast : ∀ k ∈ numbers, n ≤ k) : n = start := by
  obtain ⟨hle, hlt⟩ := (h n).mp hmem
  have hstart : start ∈ numbers := (h start).mpr ⟨Int.le_refl _, by omega⟩
  exact Int.le_antisymm (hleast start hstart) hle

/-- The others after the least one. -/
theorem consecutive_append {start : Int} {count : Nat} {group rest : List Int} (hne : group ≠ [])
    (hgroup : ∀ k ∈ group, k = start) (hrest : ∀ k ∈ rest, start < k) :
    Consecutive start (count + 1) (group ++ rest) ↔ Consecutive (start + 1) count rest := by
  constructor
  · intro h n
    constructor
    · intro hmem
      obtain ⟨-, hlt⟩ := (h n).mp (List.mem_append_right _ hmem)
      have hgt := hrest n hmem
      omega
    · rintro ⟨hle, hlt⟩
      rcases List.mem_append.mp ((h n).mpr ⟨by omega, by omega⟩) with hmem | hmem
      · have heq := hgroup n hmem
        omega
      · exact hmem
  · intro h n
    rw [List.mem_append, h n]
    constructor
    · rintro (hmem | ⟨hle, hlt⟩)
      · have heq := hgroup n hmem
        omega
      · omega
    · rintro ⟨hle, hlt⟩
      rcases Int.lt_or_eq_of_le hle with hgt | rfl
      · exact .inr (by omega)
      · obtain ⟨k, hmem⟩ := List.exists_mem_of_ne_nil group hne
        exact .inl (hgroup k hmem ▸ hmem)

/-! ## What the loop does -/

/-- What the loop does to the numbers of a range. -/
structure LoopRight (number : Buffer → Int) (currentNumber : Int) (range : List Buffer) (number' : Buffer → Int) : Prop where
  outside : ∀ x ∉ range, number' x = number x
  consecutive : Consecutive currentNumber (groupCount number range) (range.map number')
  increasing : ∀ x ∈ range, ∀ y ∈ range, number x < number y ↔ number' x < number' y
  same : Consecutive currentNumber (groupCount number range) (range.map number) → ∀ x ∈ range, number' x = number x

/-- The first group of the range gets the current number, and the rest the next ones. -/
theorem LoopRight.append {currentNumber n : Int} {group rest : List Buffer} {number1 number' : Buffer → Int}
    (hne : group ≠ []) (hgroup : ∀ x ∈ group, number x = n) (hrest : ∀ x ∈ rest, n < number x)
    (hnodup : (group ++ rest).Nodup)
    (hin : ∀ x ∈ group, number1 x = currentNumber) (hout : ∀ x ∉ group, number1 x = number x)
    (h : LoopRight number1 (currentNumber + 1) rest number') : LoopRight number currentNumber (group ++ rest) number' := by
  have hother : ∀ x ∈ rest, number1 x = number x := fun x hx =>
    hout x fun hx' => (List.nodup_append.mp hnodup).2.2 x hx' x hx rfl
  have hfirst : ∀ x ∈ group, number' x = currentNumber := fun x hx => by
    rw [h.outside x fun hx' => (List.nodup_append.mp hnodup).2.2 x hx x hx' rfl, hin x hx]
  have hcount := groupCount_append hne hgroup hrest
  have hcount1 := groupCount_congr hother
  have hconsecutive := h.consecutive
  have hnext : ∀ x ∈ rest, currentNumber < number' x := fun x hx => by
    have := ((hconsecutive (number' x)).mp (List.mem_map_of_mem hx)).1
    omega
  have hincreasing := h.increasing
  refine ⟨fun x hx => ?_, ?_, fun x hx y hy => ?_, fun hold => ?_⟩
  · rw [List.mem_append, not_or] at hx
    rw [h.outside x hx.2, hout x hx.1]
  · rw [hcount, List.map_append, consecutive_append]
    · rw [hcount1] at hconsecutive
      exact hconsecutive
    · simpa using hne
    · simpa using hfirst
    · simpa using hnext
  · rcases List.mem_append.mp hx with hx | hx
    · rcases List.mem_append.mp hy with hy | hy
      · rw [hgroup x hx, hgroup y hy, hfirst x hx, hfirst y hy]
        exact iff_of_false (Int.lt_irrefl _) (Int.lt_irrefl _)
      · rw [hgroup x hx, hfirst x hx]
        exact iff_of_true (hrest y hy) (hnext y hy)
    · rcases List.mem_append.mp hy with hy | hy
      · rw [hgroup y hy, hfirst y hy]
        exact iff_of_false (Int.not_lt.mpr (Int.le_of_lt (hrest x hx))) (Int.not_lt.mpr (Int.le_of_lt (hnext x hx)))
      · rw [← hincreasing x hx y hy, hother x hx, hother y hy]
  · -- the old numbers are consecutive: the first group has the least one
    have hn : n = currentNumber := by
      obtain ⟨x, hx⟩ := List.exists_mem_of_ne_nil group hne
      refine hold.least (List.mem_map.mpr ⟨x, List.mem_append_left _ hx, hgroup x hx⟩) ?_
      intro k hk
      obtain ⟨y, hy, rfl⟩ := List.mem_map.mp hk
      rcases List.mem_append.mp hy with hy | hy
      · exact Int.le_of_eq (hgroup y hy).symm
      · exact Int.le_of_lt (hrest y hy)
    rw [hcount, List.map_append, consecutive_append] at hold
    · intro x hx
      rcases List.mem_append.mp hx with hx | hx
      · rw [hfirst x hx, hgroup x hx, hn]
      · rw [← hother x hx]
        refine h.same ?_ x hx
        rw [hcount1, List.map_congr_left hother]
        exact hold
    · simpa using hne
    · simpa [hn] using hgroup
    · simpa [hn] using hrest

/-- An empty range. -/
theorem loopRight_nil (number : Buffer → Int) (currentNumber : Int) : LoopRight number currentNumber [] number where
  outside _ _ := rfl
  consecutive n := by
    rw [List.map_nil]
    refine iff_of_false List.not_mem_nil ?_
    rw [groupCount, List.map_nil, List.toFinset_nil, Finset.card_empty]
    omega
  increasing x hx := absurd hx List.not_mem_nil
  same _ x hx := absurd hx List.not_mem_nil

/-- The buffers of a sorted list are up to a number, and then above it. -/
theorem sorted_split (hsorted : list.Pairwise fun x y => number x ≤ number y) (n : Int) :
    ∃ low high, list = low ++ high ∧ (∀ x ∈ low, number x ≤ n) ∧ ∀ x ∈ high, n < number x := by
  refine ⟨list.takeWhile fun x => number x ≤ n, list.dropWhile fun x => number x ≤ n,
    List.takeWhile_append_dropWhile.symm, fun x hx => by simpa using List.mem_takeWhile_imp hx, ?_⟩
  induction list with
  | nil => exact List.forall_mem_nil _
  | cons x list ih =>
    obtain ⟨hx, hsorted⟩ := List.pairwise_cons.mp hsorted
    by_cases hle : number x ≤ n
    · rw [List.dropWhile_cons_of_pos (p := fun x => number x ≤ n) (decide_eq_true hle)]
      exact ih hsorted
    · rw [List.dropWhile_cons_of_neg (p := fun x => number x ≤ n) (by simpa using hle)]
      have hlt := Int.lt_of_not_ge hle
      exact List.forall_mem_cons.mpr ⟨hlt, fun y hy => Int.lt_of_lt_of_le hlt (hx y hy)⟩

/-! ## The loop -/

section

variable [DecidableEq Buffer]

/-- The buffers of the group get the number, up to one that has another number. -/
theorem guiBufferRenumberGroup_eq {n currentNumber : Int} {ptrBuffer2 : Buffer} {group rest : List Buffer}
    (hgroup : ∀ x ∈ group, number x = n) (hrest : ∀ x ∈ rest, number x ≠ n) (hnodup : (group ++ rest).Nodup) :
    guiBufferRenumberGroup n currentNumber number ptrBuffer2 (group ++ rest) =
      (fun x => if x ∈ group then currentNumber else number x, group.getLast?.getD ptrBuffer2, rest) := by
  induction group generalizing number ptrBuffer2 with
  | nil =>
    cases rest with
    | nil => rfl
    | cons y rest =>
      rw [List.nil_append, guiBufferRenumberGroup, if_neg (hrest y (List.mem_cons_self ..))]
      rfl
  | cons x group ih =>
    rw [List.cons_append, List.nodup_cons, List.mem_append, not_or] at hnodup
    obtain ⟨hx, hnodup⟩ := hnodup
    have hother : ∀ y, y ≠ x → Function.update number x currentNumber y = number y := fun y hy =>
      Function.update_of_ne hy ..
    rw [List.cons_append, guiBufferRenumberGroup, if_pos (hgroup x (List.mem_cons_self ..)), ih]
    · refine Prod.ext (funext fun y => ?_) (Prod.ext ?_ rfl)
      · by_cases hy : y = x
        · rw [hy]
          dsimp only
          rw [if_neg hx.1, Function.update_self, if_pos (List.mem_cons_self ..)]
        · dsimp only
          rw [hother y hy]
          exact if_congr (by rw [List.mem_cons, or_iff_right hy]) rfl rfl
      · dsimp only
        rw [List.getLast?_cons]
        rfl
    · intro y hy
      rw [hother y (ne_of_mem_of_not_mem hy hx.1)]
      exact hgroup y (List.mem_cons_of_mem _ hy)
    · intro y hy
      rw [hother y (ne_of_mem_of_not_mem hy hx.2)]
      exact hrest y hy
    · exact hnodup

theorem renumberLoop_right {currentNumber : Int} {range after : List Buffer} {lastBuffer : Buffer} (moved : List Buffer)
    (hlast : range.getLast? = some lastBuffer) (hnodup : (range ++ after).Nodup)
    (hsorted : range.Pairwise fun x y => number x ≤ number y) (hafter : ∀ x ∈ range, ∀ y ∈ after, number x < number y)
    (hpositive : 1 ≤ currentNumber) (hhigh : currentNumber + groupCount number range - 1 ≤ 2147483647) :
    LoopRight number currentNumber range
      (guiBufferRenumberLoop lastBuffer number currentNumber moved (range ++ after)).1 := by
  induction hn : range.length using Nat.strong_induction_on generalizing range number currentNumber moved with
  | _ n ih =>
    cases range with
    | nil => cases hlast
    | cons x rest =>
      obtain ⟨hfirst, hsortedRest⟩ := List.pairwise_cons.mp hsorted
      obtain ⟨same, others, rfl, hlow, hothers⟩ := sorted_split hsortedRest (number x)
      have hsame : ∀ y ∈ same, number y = number x := fun y hy =>
        Int.le_antisymm (hlow y hy) (hfirst y (List.mem_append_left _ hy))
      rw [List.cons_append, List.append_assoc, List.nodup_cons] at hnodup
      obtain ⟨hx, hnodup⟩ := hnodup
      have hxsame : x ∉ same := fun hmem => hx (List.mem_append_left _ hmem)
      have hxothers : x ∉ others := fun hmem => hx (List.mem_append_right _ (List.mem_append_left _ hmem))
      have hother : ∀ y, y ≠ x → Function.update number x currentNumber y = number y := fun y hy =>
        Function.update_of_ne hy ..
      have hgroup : guiBufferRenumberGroup (number x) currentNumber (Function.update number x currentNumber) x
          (same ++ (others ++ after)) =
          (fun y => if y ∈ same then currentNumber else Function.update number x currentNumber y,
            same.getLast?.getD x, others ++ after) := by
        refine guiBufferRenumberGroup_eq (fun y hy => ?_) (fun y hy => ?_) hnodup
        · rw [hother y (ne_of_mem_of_not_mem hy hxsame), hsame y hy]
        · rw [hother y fun heq => hx (heq ▸ List.mem_append_right _ hy)]
          rcases List.mem_append.mp hy with hy | hy
          · exact Int.ne_of_gt (hothers y hy)
          · exact Int.ne_of_gt (hafter x (List.mem_cons_self ..) y hy)
      have hin : ∀ y ∈ x :: same,
          (if y ∈ same then currentNumber else Function.update number x currentNumber y) = currentNumber := by
        intro y hy
        rcases List.mem_cons.mp hy with rfl | hy
        · rw [if_neg hxsame, Function.update_self]
        · exact if_pos hy
      have hout : ∀ y ∉ x :: same,
          (if y ∈ same then currentNumber else Function.update number x currentNumber y) = number y := by
        intro y hy
        rw [List.mem_cons, not_or] at hy
        rw [if_neg hy.2, hother y hy.1]
      have hsame' : ∀ y ∈ x :: same, number y = number x := List.forall_mem_cons.mpr ⟨rfl, hsame⟩
      have hnodup' : (x :: same ++ others).Nodup :=
        List.nodup_cons.mpr ⟨fun hmem => hx (List.append_assoc .. ▸ List.mem_append_left _ hmem),
          (List.append_assoc .. ▸ hnodup : (same ++ others ++ after).Nodup).sublist (List.sublist_append_left ..)⟩
      have hlastSame : same.getLast?.getD x ∈ x :: same := List.mem_of_getLast? List.getLast?_cons
      rw [List.cons_append, List.append_assoc, guiBufferRenumberLoop, hgroup]
      dsimp only
      cases others with
      | nil =>
        rw [List.append_nil, List.getLast?_cons, Option.some.injEq] at hlast
        rw [if_pos hlast]
        exact LoopRight.append (List.cons_ne_nil x same) hsame' hothers hnodup' hin hout (loopRight_nil _ _)
      | cons y others =>
        have hlast' : (y :: others).getLast? = some lastBuffer := by
          rw [← hlast, ← List.cons_append, List.getLast?_append_of_ne_nil _ (List.cons_ne_nil y others)]
        have hne : same.getLast?.getD x ≠ lastBuffer :=
          (List.nodup_append.mp hnodup').2.2 _ hlastSame _ (List.mem_of_getLast? hlast')
        have hcount : groupCount number (x :: (same ++ y :: others)) = groupCount number (y :: others) + 1 :=
          groupCount_append (List.cons_ne_nil x same) hsame' hothers
        have hpos : 0 < groupCount number (y :: others) := by
          rw [groupCount, Finset.card_pos]
          exact ⟨number y, List.mem_toFinset.mpr (List.mem_map_of_mem (List.mem_cons_self ..))⟩
        rw [hcount, Nat.cast_succ] at hhigh
        rw [if_neg hne, toInt_of_range (by omega) (by omega)]
        refine LoopRight.append (List.cons_ne_nil x same) hsame' hothers hnodup' hin hout ?_
        have hkept : ∀ z ∈ y :: others,
            (if z ∈ same then currentNumber else Function.update number x currentNumber z) = number z := fun z hz =>
          hout z fun hz' => (List.nodup_append.mp hnodup').2.2 z hz' z hz rfl
        have hrest : (y :: others).Pairwise fun x y => number x ≤ number y :=
          hsorted.sublist ((List.sublist_append_right same _).cons x)
        refine ih _ ?_ _ hlast' (hnodup.sublist (List.sublist_append_right same _)) ?_ ?_ ?_ ?_ rfl
        · rw [← hn]
          exact Nat.lt_succ_of_le (List.length_append .. ▸ Nat.le_add_left ..)
        · refine hrest.imp_of_mem fun {z w} hz hw hle => ?_
          rw [hkept z hz, hkept w hw]
          exact hle
        · intro z hz w hw
          have hw' : w ∉ x :: same := fun hmem =>
            Int.ne_of_gt (hafter x (List.mem_cons_self ..) w hw) (hsame' w hmem)
          rw [hkept z hz, hout w hw']
          exact hafter z (List.mem_cons_of_mem _ (List.mem_append_right _ hz)) w hw
        · omega
        · rw [groupCount_congr hkept]
          omega

end

/-! ## The range -/

/-- The list is what is before the range, the range and what is after it. -/
structure RangeSplit (number : Buffer → Int) (number1 number2 : Int) (list before range after : List Buffer) : Prop where
  split : list = before ++ range ++ after
  before : ∀ x ∈ before, number x < number1
  range : ∀ x ∈ range, number1 ≤ number x ∧ number x ≤ number2
  after : ∀ x ∈ after, number2 < number x

theorem exists_rangeSplit (hsorted : list.Pairwise fun x y => number x ≤ number y) (number1 number2 : Int) :
    ∃ before range after, RangeSplit number number1 number2 list before range after := by
  obtain ⟨before, rest, rfl, hbefore, hrest⟩ := sorted_split hsorted (number1 - 1)
  obtain ⟨range, after, rfl, hrange, hafter⟩ := sorted_split (List.pairwise_append.mp hsorted).2.1 number2
  refine ⟨before, range, after, (List.append_assoc ..).symm, fun x hx => ?_, fun x hx => ⟨?_, hrange x hx⟩, hafter⟩
  · have := hbefore x hx
    omega
  · have := hrest x (List.mem_append_left _ hx)
    omega

/-- The buffers before the range are passed. -/
theorem searchRangeLoop_before {number1 number2 prevNumber : Int} {before : List Buffer} (rest : List Buffer)
    (lastBuffer : Option Buffer) (hle : number1 ≤ number2) (hprev : prevNumber < number1) (hbefore : ∀ x ∈ before, number x < number1) :
    ∃ lastBuffer' prevNumber', prevNumber' < number1 ∧
      guiBufferSearchRangeLoop number number1 number2 (before ++ rest) ⟨none, lastBuffer, 0⟩ prevNumber =
        guiBufferSearchRangeLoop number number1 number2 rest ⟨none, lastBuffer', 0⟩ prevNumber' := by
  induction before generalizing lastBuffer prevNumber with
  | nil => exact ⟨lastBuffer, prevNumber, hprev, rfl⟩
  | cons x before ih =>
    obtain ⟨hx, hbefore⟩ := List.forall_mem_cons.mp hbefore
    obtain ⟨lastBuffer', prevNumber', hprev', hloop⟩ := ih (some x) hx hbefore
    refine ⟨lastBuffer', prevNumber', hprev', hloop ▸ ?_⟩
    rw [List.cons_append, guiBufferSearchRangeLoop, if_pos (by omega), if_neg fun h => Int.not_le.mpr hx h.2]
    rfl

/-- The buffers of the range are counted by groups. -/
theorem searchRangeLoop_range {number2 prevNumber : Int} {range : List Buffer} (number1 differentNumbers : Int)
    (rest : List Buffer) (firstBuffer lastBuffer : Buffer) (hrange : ∀ x ∈ range, number x ≤ number2) (hprev : ∀ x ∈ range, prevNumber ≤ number x)
    (hsorted : range.Pairwise fun x y => number x ≤ number y) :
    ∃ prevNumber', guiBufferSearchRangeLoop number number1 number2 (range ++ rest)
        ⟨some firstBuffer, some lastBuffer, differentNumbers⟩ prevNumber =
      guiBufferSearchRangeLoop number number1 number2 rest
        ⟨some firstBuffer, some (range.getLast?.getD lastBuffer),
          differentNumbers + ((insert prevNumber (range.map number).toFinset).card - 1)⟩ prevNumber' := by
  induction range generalizing lastBuffer prevNumber differentNumbers with
  | nil =>
    refine ⟨prevNumber, ?_⟩
    simp
  | cons x range ih =>
    obtain ⟨hx, hrange⟩ := List.forall_mem_cons.mp hrange
    obtain ⟨hxprev, hprev⟩ := List.forall_mem_cons.mp hprev
    obtain ⟨hxle, hsorted⟩ := List.pairwise_cons.mp hsorted
    obtain ⟨prevNumber', hloop⟩ := ih
      (if number x ≠ prevNumber then differentNumbers + 1 else differentNumbers) x hrange hxle hsorted
    refine ⟨prevNumber', ?_⟩
    have hcount : (if number x ≠ prevNumber then differentNumbers + 1 else differentNumbers) +
        ((insert (number x) (range.map number).toFinset).card - 1) =
        differentNumbers + ((insert prevNumber ((x :: range).map number).toFinset).card - 1) := by
      rw [List.map_cons, List.toFinset_cons]
      split
      · rename_i hne
        have hnot : prevNumber ∉ insert (number x) (range.map number).toFinset := by
          rw [Finset.mem_insert, List.mem_toFinset, List.mem_map, not_or]
          refine ⟨Ne.symm hne, ?_⟩
          rintro ⟨y, hy, heq⟩
          have := hxle y hy
          omega
        rw [Finset.card_insert_of_notMem hnot]
        push_cast
        omega
      · rename_i heq
        rw [not_not.mp heq, Finset.insert_idem]
    rw [List.cons_append, guiBufferSearchRangeLoop, if_pos hx, List.getLast?_cons, Option.getD_some, ← hcount, ← hloop]
    simp only [Option.isNone_some, Bool.false_eq_true, false_and, if_false, Option.isSome_some, true_and]

/-- What is after the range is not looked at. -/
theorem searchRangeLoop_after {number1 number2 prevNumber : Int} {range : GuiBufferRange Buffer} {after : List Buffer}
    (hafter : ∀ x ∈ after, number2 < number x) :
    guiBufferSearchRangeLoop number number1 number2 after range prevNumber = range := by
  cases after with
  | nil => rfl
  | cons x after =>
    rw [guiBufferSearchRangeLoop, if_neg (Int.not_le.mpr (hafter x (List.mem_cons_self ..)))]

/-- `gui_buffer_search_range` finds the range. -/
theorem guiBufferSearchRange_eq {buffers : GuiBuffers Buffer} {number1 number2 : Int} {before range after : List Buffer}
    (h1 : 1 ≤ number1) (hle : number1 ≤ number2)
    (hsorted : buffers.guiBuffers.Pairwise fun x y => buffers.number x ≤ buffers.number y)
    (hsplit : RangeSplit buffers.number number1 number2 buffers.guiBuffers before range after) :
    (guiBufferSearchRange buffers number1 number2).firstBuffer = range.head? ∧
      (range ≠ [] → (guiBufferSearchRange buffers number1 number2).lastBuffer = range.getLast? ∧
        (guiBufferSearchRange buffers number1 number2).differentNumbers = groupCount buffers.number range) := by
  have hprev : (-1 : Int) < number1 := by omega
  obtain ⟨lastBuffer', prevNumber', hprev', hbefore⟩ := searchRangeLoop_before (range ++ after) none hle
    hprev hsplit.before
  rw [guiBufferSearchRange, if_neg (by omega), hsplit.split, List.append_assoc, hbefore]
  cases range with
  | nil =>
    rw [List.nil_append, searchRangeLoop_after hsplit.after]
    exact ⟨rfl, fun h => absurd rfl h⟩
  | cons x range =>
    obtain ⟨hx, hrange⟩ := List.forall_mem_cons.mp hsplit.range
    rw [hsplit.split, List.append_assoc] at hsorted
    have hsortedRange := (List.pairwise_append.mp (List.pairwise_append.mp hsorted).2.1).1
    obtain ⟨hxle, hsortedRest⟩ := List.pairwise_cons.mp hsortedRange
    obtain ⟨prevNumber'', hloop⟩ := searchRangeLoop_range number1 1 after x x (fun y hy => (hrange y hy).2) hxle hsortedRest
    have hfirst : guiBufferSearchRangeLoop buffers.number number1 number2 (x :: range ++ after) ⟨none, lastBuffer', 0⟩
        prevNumber' =
        guiBufferSearchRangeLoop buffers.number number1 number2 (range ++ after) ⟨some x, some x, 1⟩ (buffers.number x) := by
      have hnew : buffers.number x ≠ prevNumber' := by omega
      rw [List.cons_append, guiBufferSearchRangeLoop, if_pos hx.2, if_pos ⟨rfl, hx.1⟩]
      dsimp only
      rw [if_pos ⟨rfl, hnew⟩]
      rfl
    rw [hfirst, hloop, searchRangeLoop_after hsplit.after]
    refine ⟨rfl, fun _ => ⟨List.getLast?_cons.symm, ?_⟩⟩
    rw [groupCount, List.map_cons, List.toFinset_cons]
    dsimp only
    omega

/-! ## The whole list -/

section

variable {buffers : GuiBuffers Buffer} {number1 number2 start : Int} {before range after : List Buffer}

/-- The first number that is looked for. -/
theorem exists_number1 (h : BuffersNumbered buffers) (number1 : Int) :
    ∃ n, (if number1 < 1 then buffers.guiBuffers.head?.map buffers.number else some number1) = some n ∧ 1 ≤ n ∧
      ∀ x ∈ buffers.guiBuffers, buffers.number x < n ↔ BeforeRange number1 (buffers.number x) := by
  split
  · rename_i hlow
    obtain ⟨x, rest, hlist⟩ := List.exists_cons_of_ne_nil h.nonempty
    have hsorted := h.sorted
    have hbounds := h.bounds
    rw [hlist] at hsorted hbounds ⊢
    refine ⟨buffers.number x, rfl, (hbounds x (List.mem_cons_self ..)).1, fun y hy => ?_⟩
    have hle : buffers.number x ≤ buffers.number y := by
      rcases List.mem_cons.mp hy with rfl | hy
      · exact Int.le_refl _
      · exact (List.pairwise_cons.mp hsorted).1 y hy
    exact iff_of_false (Int.not_lt.mpr hle) fun hbefore => Int.not_lt.mpr hbefore.1 hlow
  · rename_i hlow
    exact ⟨number1, rfl, Int.not_lt.mp hlow, fun x _ => (and_iff_right (Int.not_lt.mp hlow)).symm⟩

/-- The last number that is looked for. -/
theorem exists_number2 (h : BuffersNumbered buffers) (number2 : Int) :
    ∃ n, (if number2 < 1 then buffers.guiBuffers.getLast?.map buffers.number else some number2) = some n ∧ 1 ≤ n ∧
      ∀ x ∈ buffers.guiBuffers, n < buffers.number x ↔ AfterRange number2 (buffers.number x) := by
  split
  · rename_i hlow
    obtain ⟨rest, x, hlist⟩ := (List.eq_nil_or_concat buffers.guiBuffers).resolve_left h.nonempty
    have hsorted := h.sorted
    have hbounds := h.bounds
    rw [hlist, List.concat_eq_append] at hsorted hbounds ⊢
    rw [List.getLast?_concat]
    refine ⟨buffers.number x, rfl, (hbounds x (List.mem_append_right _ (List.mem_singleton.mpr rfl))).1, fun y hy => ?_⟩
    have hle : buffers.number y ≤ buffers.number x := by
      rcases List.mem_append.mp hy with hy | hy
      · exact (List.pairwise_append.mp hsorted).2.2 y hy x (List.mem_singleton.mpr rfl)
      · rw [List.mem_singleton.mp hy]
    exact iff_of_false (Int.not_lt.mpr hle) fun hafter => Int.not_lt.mpr hafter.1 hlow
  · rename_i hlow
    exact ⟨number2, rfl, Int.not_lt.mp hlow, fun x _ => (and_iff_right (Int.not_lt.mp hlow)).symm⟩

/-- The list, split at the range that is asked for. -/
structure ListSplit (buffers : GuiBuffers Buffer) (number1 number2 : Int) (before range after : List Buffer) : Prop where
  split : buffers.guiBuffers = before ++ range ++ after
  inRange : buffersInRange buffers number1 number2 = range
  isBefore : ∀ x ∈ before, BeforeRange number1 (buffers.number x)
  notBefore : ∀ x ∈ range, ∀ y ∈ before, buffers.number y < buffers.number x
  isAfter : ∀ x ∈ after, AfterRange number2 (buffers.number x)
  notAfter : ∀ x ∈ range, ∀ y ∈ after, buffers.number x < buffers.number y

theorem listSplit_of_rangeSplit {n1 n2 : Int}
    (hn1 : ∀ x ∈ buffers.guiBuffers, buffers.number x < n1 ↔ BeforeRange number1 (buffers.number x))
    (hn2 : ∀ x ∈ buffers.guiBuffers, n2 < buffers.number x ↔ AfterRange number2 (buffers.number x))
    (h : RangeSplit buffers.number n1 n2 buffers.guiBuffers before range after) :
    ListSplit buffers number1 number2 before range after := by
  have hmem : ∀ x, x ∈ buffers.guiBuffers ↔ x ∈ before ∨ x ∈ range ∨ x ∈ after := fun x => by
    rw [h.split, List.mem_append, List.mem_append, or_assoc]
  have hbefore : ∀ x ∈ before, BeforeRange number1 (buffers.number x) := fun x hx =>
    (hn1 x ((hmem x).mpr (.inl hx))).mp (h.before x hx)
  have hafter : ∀ x ∈ after, AfterRange number2 (buffers.number x) := fun x hx =>
    (hn2 x ((hmem x).mpr (.inr (.inr hx)))).mp (h.after x hx)
  refine ⟨h.split, ?_, hbefore, fun x hx y hy => ?_, hafter, fun x hx y hy => ?_⟩
  · have hnone : ∀ x ∈ before, ¬ decide (InRange number1 number2 (buffers.number x)) = true := fun x hx => by
      rw [decide_eq_true_eq]
      exact fun hin => hin.1 (hbefore x hx)
    have hall : ∀ x ∈ range, decide (InRange number1 number2 (buffers.number x)) = true := fun x hx => by
      rw [decide_eq_true_eq]
      have hrange := h.range x hx
      exact ⟨fun hx' => Int.not_lt.mpr hrange.1 ((hn1 x ((hmem x).mpr (.inr (.inl hx)))).mpr hx'),
        fun hx' => Int.not_lt.mpr hrange.2 ((hn2 x ((hmem x).mpr (.inr (.inl hx)))).mpr hx')⟩
    have hnone' : ∀ x ∈ after, ¬ decide (InRange number1 number2 (buffers.number x)) = true := fun x hx => by
      rw [decide_eq_true_eq]
      exact fun hin => hin.2 (hafter x hx)
    rw [buffersInRange, h.split, List.filter_append, List.filter_append, List.filter_eq_nil_iff.mpr hnone,
      List.filter_eq_self.mpr hall, List.filter_eq_nil_iff.mpr hnone', List.nil_append, List.append_nil]
  · have := h.before y hy
    have := (h.range x hx).1
    omega
  · have := h.after y hy
    have := (h.range x hx).2
    omega

namespace ListSplit

variable (h : ListSplit buffers number1 number2 before range after)
include h

theorem mem_iff {x : Buffer} : x ∈ buffers.guiBuffers ↔ x ∈ before ∨ x ∈ range ∨ x ∈ after := by
  rw [h.split, List.mem_append, List.mem_append, or_assoc]

theorem mem_range {x : Buffer} (hx : x ∈ range) : InRange number1 number2 (buffers.number x) := by
  rw [← h.inRange] at hx
  simpa using (List.mem_filter.mp hx).2

theorem mem_before (hne : range ≠ []) {x : Buffer} (hx : x ∈ buffers.guiBuffers)
    (hbefore : BeforeRange number1 (buffers.number x)) : x ∈ before := by
  rcases h.mem_iff.mp hx with hx | hx | hx
  · exact hx
  · exact absurd hbefore (h.mem_range hx).1
  · obtain ⟨z, hz⟩ := List.exists_mem_of_ne_nil range hne
    have hlt := h.notAfter z hz x hx
    exact absurd ⟨hbefore.1, Int.lt_trans hlt hbefore.2⟩ (h.mem_range hz).1

theorem mem_after (hne : range ≠ []) {x : Buffer} (hx : x ∈ buffers.guiBuffers)
    (hafter : AfterRange number2 (buffers.number x)) : x ∈ after := by
  rcases h.mem_iff.mp hx with hx | hx | hx
  · obtain ⟨z, hz⟩ := List.exists_mem_of_ne_nil range hne
    have hlt := h.notBefore z hz x hx
    exact absurd ⟨hafter.1, Int.lt_trans hafter.2 hlt⟩ (h.mem_range hz).2
  · exact absurd hafter (h.mem_range hx).2
  · exact hx

end ListSplit

/-- Nothing is changed where nothing is to be changed. -/
theorem renumberRight_keeps (h : KeepsNumbers buffers number1 number2 start) :
    RenumberRight buffers number1 number2 start buffers.number :=
  ⟨.inl fun _ _ => rfl, iff_of_true (fun _ _ => rfl) h⟩

/-- The range is renumbered between what is before it and what is after it. -/
theorem renumberRight_loop {number' : Buffer → Int} (h : ListSplit buffers number1 number2 before range after)
    (hnodup : buffers.guiBuffers.Nodup) (hne : range ≠ [])
    (hbefore : ∀ x ∈ before, buffers.number x < start)
    (hafter : ∀ x ∈ after, start + groupCount buffers.number range - 1 < buffers.number x)
    (hloop : LoopRight buffers.number start range number') :
    RenumberRight buffers number1 number2 start number' := by
  rw [h.split, List.append_assoc] at hnodup
  obtain ⟨-, hrest, hdisjoint⟩ := List.nodup_append.mp hnodup
  have hkept : ∀ x ∉ range, number' x = buffers.number x := hloop.outside
  have hkeptBefore : ∀ x ∈ before, number' x = buffers.number x := fun x hx =>
    hkept x fun hx' => hdisjoint x hx x (List.mem_append_left _ hx') rfl
  have hkeptAfter : ∀ x ∈ after, number' x = buffers.number x := fun x hx =>
    hkept x fun hx' => (List.nodup_append.mp hrest).2.2 x hx' x hx rfl
  have hnew : ∀ x ∈ range, start ≤ number' x ∧ number' x < start + groupCount buffers.number range := fun x hx =>
    (hloop.consecutive (number' x)).mp (List.mem_map_of_mem hx)
  refine ⟨.inr ⟨?_, fun x hx hout => ?_, fun x hx y hy => ?_⟩, ?_⟩
  · rw [h.inRange]
    exact hloop.consecutive
  · exact hkept x fun hx' => hout (h.mem_range hx')
  · -- before the range, in it or after it
    rcases h.mem_iff.mp hx with hx | hx | hx <;> rcases h.mem_iff.mp hy with hy | hy | hy
    · rw [hkeptBefore x hx, hkeptBefore y hy]
    · rw [hkeptBefore x hx]
      exact iff_of_true (h.notBefore y hy x hx) (Int.lt_of_lt_of_le (hbefore x hx) (hnew y hy).1)
    · rw [hkeptBefore x hx, hkeptAfter y hy]
    · rw [hkeptBefore y hy]
      have := h.notBefore x hx y hy
      have := hbefore y hy
      have := hnew x hx
      omega
    · exact hloop.increasing x hx y hy
    · rw [hkeptAfter y hy]
      have := h.notAfter x hx y hy
      have := hafter y hy
      have := hnew x hx
      omega
    · rw [hkeptAfter x hx, hkeptBefore y hy]
    · rw [hkeptAfter x hx]
      have := h.notAfter y hy x hx
      have := hafter x hx
      have := hnew y hy
      omega
    · rw [hkeptAfter x hx, hkeptAfter y hy]
  · constructor
    · intro hsame
      have hmap : range.map buffers.number = range.map number' :=
        List.map_congr_left fun x hx => (hsame x (h.mem_iff.mpr (.inr (.inl hx)))).symm
      refine .inr (.inr (.inr ?_))
      rw [h.inRange, hmap]
      exact hloop.consecutive
    · rintro (hnil | ⟨x, hx, hbeforeRange, hle⟩ | ⟨x, hx, hafterRange, hle⟩ | hold)
      · exact absurd (h.inRange.symm.trans hnil) hne
      · have := hbefore x (h.mem_before hne hx hbeforeRange)
        omega
      · have := hafter x (h.mem_after hne hx hafterRange)
        rw [h.inRange] at hle
        omega
      · rw [h.inRange] at hold
        intro x hx
        by_cases hx' : x ∈ range
        · exact hloop.same hold x hx'
        · exact hkept x hx'

/-- What is checked of the buffer before the range. -/
theorem prevBuffer_any (hsorted : before.Pairwise fun x y => buffers.number x ≤ buffers.number y) :
    (before.getLast?.any fun prevBuffer => start ≤ buffers.number prevBuffer) = true ↔
      ∃ x ∈ before, start ≤ buffers.number x := by
  rcases List.eq_nil_or_concat before with rfl | ⟨others, prevBuffer, rfl⟩
  · simp
  · rw [List.concat_eq_append] at hsorted ⊢
    rw [List.getLast?_concat, Option.any_some, decide_eq_true_eq]
    constructor
    · intro hle
      exact ⟨prevBuffer, List.mem_append_right _ (List.mem_singleton.mpr rfl), hle⟩
    · rintro ⟨x, hx, hle⟩
      rcases List.mem_append.mp hx with hx | hx
      · exact Int.le_trans hle ((List.pairwise_append.mp hsorted).2.2 x hx prevBuffer (List.mem_singleton.mpr rfl))
      · rwa [List.mem_singleton.mp hx] at hle

/-- What is checked of the buffer after the range. -/
theorem nextBuffer_any {last : Int} (hsorted : after.Pairwise fun x y => buffers.number x ≤ buffers.number y) :
    (after.head?.any fun nextBuffer => last ≥ buffers.number nextBuffer) = true ↔
      ∃ x ∈ after, buffers.number x ≤ last := by
  cases after with
  | nil => simp
  | cons nextBuffer others =>
    rw [List.head?_cons, Option.any_some, decide_eq_true_eq]
    constructor
    · intro hle
      exact ⟨nextBuffer, List.mem_cons_self .., hle⟩
    · rintro ⟨x, hx, hle⟩
      rcases List.mem_cons.mp hx with rfl | hx
      · exact hle
      · exact Int.le_trans ((List.pairwise_cons.mp hsorted).1 x hx) hle

/-- The groups of a range have as many numbers at most as there are from the first to the last. -/
theorem groupCount_le {low high : Int} (hrange : ∀ x ∈ range, low ≤ buffers.number x ∧ buffers.number x ≤ high)
    (hne : range ≠ []) : low + groupCount buffers.number range - 1 ≤ high := by
  have hsub : (range.map buffers.number).toFinset ⊆ Finset.Icc low high := fun n hn => by
    obtain ⟨x, hx, rfl⟩ := List.mem_map.mp (List.mem_toFinset.mp hn)
    exact Finset.mem_Icc.mpr (hrange x hx)
  have hcard := Finset.card_le_card hsub
  rw [Int.card_Icc] at hcard
  obtain ⟨x, hx⟩ := List.exists_mem_of_ne_nil range hne
  have hle := hrange x hx
  rw [groupCount]
  omega

theorem toInt_sub_one {x : Int} (hlow : 1 ≤ x) (hhigh : x ≤ 2147483648) : toInt (toInt x - 1) = x - 1 := by
  rw [toInt, toInt, Int.bmod_sub_bmod]
  exact toInt_of_range (by omega) (by omega)

end

/-- The start number, brought down to the greatest one, is that of the code. -/
theorem startOf_eq {buffers : GuiBuffers Buffer} {number1 number2 : Int} {firstBuffer : Buffer} {rest : List Buffer}
    (hrange : buffersInRange buffers number1 number2 = firstBuffer :: rest) (startNumber : Int) :
    (if startNumber < 1 then buffers.number firstBuffer
      else if startNumber > guiBufferNumberMax then guiBufferNumberMax else startNumber) =
      startOf buffers number1 number2 (min startNumber guiBufferNumberMax) := by
  have hmax : 1 ≤ guiBufferNumberMax := by decide
  rw [startOf, hrange]
  by_cases hlow : startNumber < 1
  · rw [if_pos hlow, if_pos (Int.lt_of_le_of_lt (Int.min_le_left ..) hlow)]
    rfl
  · rw [if_neg hlow, if_neg (Int.not_lt.mpr (Int.le_min.mpr ⟨Int.not_lt.mp hlow, hmax⟩))]
    by_cases hgt : startNumber > guiBufferNumberMax
    · rw [if_pos hgt, Int.min_eq_right (Int.le_of_lt hgt)]
    · rw [if_neg hgt, Int.min_eq_left (Int.not_lt.mp hgt)]

/-- The new numbers are positive integers. -/
theorem startOf_bounds {buffers : GuiBuffers Buffer} {number1 number2 startNumber : Int} {before rest after : List Buffer}
    {firstBuffer : Buffer} (h : BuffersNumbered buffers)
    (hlist : ListSplit buffers number1 number2 before (firstBuffer :: rest) after)
    (hsorted : (firstBuffer :: rest).Pairwise fun x y => buffers.number x ≤ buffers.number y)
    (hfit : 1 ≤ startNumber → min startNumber guiBufferNumberMax +
      groupCount buffers.number (buffersInRange buffers number1 number2) ≤ 2147483647) :
    1 ≤ startOf buffers number1 number2 (min startNumber guiBufferNumberMax) ∧
      startOf buffers number1 number2 (min startNumber guiBufferNumberMax) +
        groupCount buffers.number (firstBuffer :: rest) - 1 ≤ 2147483647 := by
  rw [← startOf_eq hlist.inRange]
  have hbounds : ∀ x ∈ firstBuffer :: rest, 1 ≤ buffers.number x ∧ buffers.number x ≤ 2147483647 := fun x hx =>
    h.bounds x (hlist.mem_iff.mpr (.inr (.inl hx)))
  by_cases hlow : startNumber < 1
  · rw [if_pos hlow]
    refine ⟨(hbounds firstBuffer (List.mem_cons_self ..)).1, groupCount_le (fun x hx => ⟨?_, (hbounds x hx).2⟩)
      (List.cons_ne_nil _ _)⟩
    rcases List.mem_cons.mp hx with rfl | hx
    · exact Int.le_refl _
    · exact (List.pairwise_cons.mp hsorted).1 x hx
  · have hfit := hfit (Int.not_lt.mp hlow)
    rw [hlist.inRange] at hfit
    have hmax : 1 ≤ guiBufferNumberMax := by decide
    rw [if_neg hlow]
    by_cases hgt : startNumber > guiBufferNumberMax
    · rw [Int.min_eq_right (Int.le_of_lt hgt)] at hfit
      rw [if_pos hgt]
      exact ⟨hmax, by omega⟩
    · rw [Int.min_eq_left (Int.not_lt.mp hgt)] at hfit
      rw [if_neg hgt]
      exact ⟨Int.not_lt.mp hlow, by omega⟩

theorem renumberRange_right [DecidableEq Buffer] {buffers : GuiBuffers Buffer} (h : BuffersNumbered buffers)
    {number1 number2 startNumber n1 n2 : Int} (hpos1 : 1 ≤ n1)
    (hn1 : ∀ x ∈ buffers.guiBuffers, buffers.number x < n1 ↔ BeforeRange number1 (buffers.number x))
    (hn2 : ∀ x ∈ buffers.guiBuffers, n2 < buffers.number x ↔ AfterRange number2 (buffers.number x))
    (hfit : 1 ≤ startNumber → min startNumber guiBufferNumberMax +
      groupCount buffers.number (buffersInRange buffers number1 number2) ≤ 2147483647) :
    ∃ number moved, guiBufferRenumberRange buffers n1 n2 startNumber = ({ buffers with number }, moved) ∧
      RenumberRight buffers number1 number2 (startOf buffers number1 number2 (min startNumber guiBufferNumberMax)) number := by
  rw [guiBufferRenumberRange]
  by_cases hle : n1 ≤ n2
  · obtain ⟨before, range, after, hsplit⟩ := exists_rangeSplit h.sorted n1 n2
    have hlist := listSplit_of_rangeSplit hn1 hn2 hsplit
    obtain ⟨hfirst, hsearch⟩ := guiBufferSearchRange_eq hpos1 hle h.sorted hsplit
    generalize guiBufferSearchRange buffers n1 n2 = found at hfirst hsearch ⊢
    obtain ⟨first, last, differentNumbers⟩ := found
    cases range with
    | nil =>
      obtain rfl : first = none := hfirst
      exact ⟨buffers.number, [], rfl, renumberRight_keeps (.inl hlist.inRange)⟩
    | cons firstBuffer rest =>
      obtain rfl : first = some firstBuffer := hfirst
      obtain ⟨hlast, hcount⟩ := hsearch (List.cons_ne_nil _ _)
      obtain ⟨others, lastBuffer, hconcat⟩ := (List.eq_nil_or_concat (firstBuffer :: rest)).resolve_left (List.cons_ne_nil _ _)
      rw [List.concat_eq_append] at hconcat
      have hlastBuffer : (firstBuffer :: rest).getLast? = some lastBuffer := by rw [hconcat, List.getLast?_concat]
      obtain rfl : last = some lastBuffer := hlast.trans hlastBuffer
      obtain rfl : differentNumbers = groupCount buffers.number (firstBuffer :: rest) := hcount
      have haroundFirst : guiBuffersAround buffers firstBuffer = (before, rest ++ after) :=
        around_eq h.nodup (by rw [hlist.split, List.append_assoc]; rfl)
      have haroundLast : guiBuffersAround buffers lastBuffer = (before ++ others, after) :=
        around_eq h.nodup (by rw [hlist.split, hconcat, List.append_assoc, List.append_assoc, List.append_assoc]; rfl)
      have hsorted := h.sorted
      rw [hlist.split] at hsorted
      obtain ⟨hsortedRange, hsortedAfter, -⟩ := List.pairwise_append.mp hsorted
      obtain ⟨hsortedBefore, hsortedRange, -⟩ := List.pairwise_append.mp hsortedRange
      dsimp only
      rw [haroundFirst, haroundLast, startOf_eq hlist.inRange]
      obtain ⟨hstart, hbound⟩ := startOf_bounds h hlist hsortedRange hfit
      generalize startOf buffers number1 number2 (min startNumber guiBufferNumberMax) = start at hstart hbound ⊢
      rw [toInt_sub_one (by omega) (by omega)]
      by_cases hprev : ∃ x ∈ before, start ≤ buffers.number x
      · rw [if_pos ((prevBuffer_any hsortedBefore).mpr hprev)]
        obtain ⟨x, hx, hle⟩ := hprev
        refine ⟨buffers.number, [], rfl, renumberRight_keeps (.inr (.inl ⟨x, ?_, hlist.isBefore x hx, hle⟩))⟩
        exact hlist.mem_iff.mpr (.inl hx)
      rw [if_neg (mt (prevBuffer_any hsortedBefore).mp hprev)]
      by_cases hnext : ∃ x ∈ after, buffers.number x ≤ start + groupCount buffers.number (firstBuffer :: rest) - 1
      · rw [if_pos ((nextBuffer_any hsortedAfter).mpr hnext)]
        obtain ⟨x, hx, hle⟩ := hnext
        rw [← hlist.inRange] at hle
        refine ⟨buffers.number, [], rfl, renumberRight_keeps (.inr (.inr (.inl ⟨x, ?_, hlist.isAfter x hx, hle⟩)))⟩
        exact hlist.mem_iff.mpr (.inr (.inr hx))
      rw [if_neg (mt (nextBuffer_any hsortedAfter).mp hnext)]
      have hnodup := h.nodup
      rw [hlist.split, List.append_assoc] at hnodup
      have hloop := renumberLoop_right [] hlastBuffer (List.nodup_append.mp hnodup).2.1 hsortedRange
        hlist.notAfter hstart hbound
      refine ⟨_, _, rfl, renumberRight_loop hlist h.nodup (List.cons_ne_nil _ _) (fun x hx => ?_) (fun x hx => ?_) hloop⟩
      · exact Int.not_le.mp fun hle => hprev ⟨x, hx, hle⟩
      · exact Int.not_le.mp fun hle => hnext ⟨x, hx, hle⟩
  · rw [guiBufferSearchRange, if_pos (by omega)]
    refine ⟨buffers.number, [], rfl, renumberRight_keeps (.inl (List.filter_eq_nil_iff.mpr fun x hx => ?_))⟩
    rw [decide_eq_true_eq]
    rintro ⟨hbefore, hafter⟩
    have hlow := Int.not_lt.mp (mt (hn1 x hx).mp hbefore)
    have hhigh := Int.not_lt.mp (mt (hn2 x hx).mp hafter)
    omega

/-- `gui_buffer_renumber` follows its contract, from the start number brought down to the greatest
one, if no number is more than an int. -/
theorem renumber_right [DecidableEq Buffer] (buffers : GuiBuffers Buffer) (h : BuffersNumbered buffers)
    (number1 number2 startNumber : Int)
    (hfit : 1 ≤ startNumber → min startNumber guiBufferNumberMax +
      groupCount buffers.number (buffersInRange buffers number1 number2) ≤ 2147483647) :
    ∃ number moved, guiBufferRenumber buffers number1 number2 startNumber = some ({ buffers with number }, moved) ∧
      RenumberRight buffers number1 number2 (startOf buffers number1 number2 (min startNumber guiBufferNumberMax)) number := by
  rw [guiBufferRenumber]
  by_cases hinvalid : 1 ≤ number1 ∧ 1 ≤ number2 ∧ number1 > number2
  · rw [if_pos hinvalid]
    refine ⟨buffers.number, [], rfl, renumberRight_keeps (.inl (List.filter_eq_nil_iff.mpr fun x _ => ?_))⟩
    rw [decide_eq_true_eq]
    rintro ⟨hbefore, hafter⟩
    have hlow := Int.not_lt.mp fun hlt => hbefore ⟨hinvalid.1, hlt⟩
    have hhigh := Int.not_lt.mp fun hlt => hafter ⟨hinvalid.2.1, hlt⟩
    omega
  obtain ⟨n1, hnumber1, hpos1, hn1⟩ := exists_number1 h number1
  obtain ⟨n2, hnumber2, -, hn2⟩ := exists_number2 h number2
  rw [if_neg hinvalid, hnumber1, hnumber2, Option.bind_some, Option.map_some]
  obtain ⟨number, moved, heq, hright⟩ := renumberRange_right h hpos1 hn1 hn2 hfit
  exact ⟨number, moved, congrArg some heq, hright⟩

/-- Two buffers, and what is visited does not matter. -/
def twoBuffers : GuiBuffers Bool where
  guiBuffers := [false, true]
  number buffer := if buffer then 5 else 2
  guiBuffersVisited := []
  guiBuffersVisitedIndex := -1

theorem twoBuffers_numbered : BuffersNumbered twoBuffers where
  nonempty := List.cons_ne_nil _ _
  nodup := by decide
  sorted := by decide
  bounds := by decide

theorem renumber_right_two :
    ∃ number moved, guiBufferRenumber twoBuffers 3 (-1) 9 = some ({ twoBuffers with number }, moved) ∧
      RenumberRight twoBuffers 3 (-1) (startOf twoBuffers 3 (-1) (min 9 guiBufferNumberMax)) number :=
  renumber_right twoBuffers twoBuffers_numbered 3 (-1) 9 fun _ => by decide

/-- A start number above the greatest one is brought down. -/
theorem renumber_fails :
    ¬ ∀ (buffers : GuiBuffers Bool), BuffersNumbered buffers → ∀ number1 number2 startNumber : Int,
      (1 ≤ startNumber → startNumber + groupCount buffers.number (buffersInRange buffers number1 number2) ≤ 2147483647) →
      ∃ number moved, guiBufferRenumber buffers number1 number2 startNumber = some ({ buffers with number }, moved) ∧
        RenumberRight buffers number1 number2 (startOf buffers number1 number2 startNumber) number := by
  intro h
  obtain ⟨number, moved, heq, hright⟩ := h twoBuffers twoBuffers_numbered 3 (-1) (guiBufferNumberMax + 1) fun _ => by decide
  have hnumber : (guiBufferRenumber twoBuffers 3 (-1) (guiBufferNumberMax + 1)).map (fun result => result.1.number true) =
      some guiBufferNumberMax := by decide +kernel
  rw [heq, Option.map_some, Option.some.injEq] at hnumber
  change number true = guiBufferNumberMax at hnumber
  have hrange : buffersInRange twoBuffers 3 (-1) = [true] := by decide
  rcases hright.renumbered with hold | hnew
  · have hfive : number true = 5 := hold true (by decide)
    rw [hnumber] at hfive
    exact absurd hfive (by decide)
  · have hconsecutive := hnew.consecutive
    rw [hrange] at hconsecutive
    have hmem : number true ∈ [true].map number := List.mem_singleton.mpr rfl
    have hle := ((hconsecutive (number true)).mp hmem).1
    rw [hnumber] at hle
    exact absurd hle (by decide)

end Wirc

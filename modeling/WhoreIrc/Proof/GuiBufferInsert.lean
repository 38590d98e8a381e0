import WhoreIrc.Proof.GuiBuffer
import WhoreIrc.Proof.GuiBufferRenumber
import WhoreIrc.Spec.GuiBuffer

/-!
# Numbers of buffers are integers

Each function keeps the list sorted by number. Numbers that are shifted stay below a
free one (`shiftNumbers_bounds`), and a number that is brought down to
`GUI_BUFFER_NUMBER_MAX` has a free one after it, as there are not more buffers than
numbers above it (`numberFree_of_le`).
-/

namespace Wirc

open Framework

variable {Buffer : Type} [DecidableEq Buffer] {buffers : GuiBuffers Buffer} {buffer : Buffer}

/-! ## Free numbers -/

/-- One of some numbers from `n` on is not taken. -/
theorem exists_freeNumber (numbers : List Int) (n : Int) : ∃ m, n ≤ m ∧ m ≤ n + numbers.length ∧ m ∉ numbers := by
  have hcard : numbers.toFinset.card < (Finset.Icc n (n + numbers.length)).card := by
    have := List.toFinset_card_le numbers
    rw [Int.card_Icc]
    omega
  obtain ⟨m, hm, hfree⟩ := Finset.exists_mem_notMem_of_card_lt_card hcard
  obtain ⟨hle, hge⟩ := Finset.mem_Icc.mp hm
  exact ⟨m, hle, hge, fun hmem => hfree (List.mem_toFinset.mpr hmem)⟩

omit [DecidableEq Buffer] in
theorem numberFree_of_le {list : List Buffer} (numbers : Buffer → Int) (hcount : list.length ≤ guiBuffersMax) {n : Int}
    (hn : n ≤ guiBufferNumberMax) : ∃ m, n ≤ m ∧ m ≤ 2147483647 ∧ ∀ x ∈ list, numbers x ≠ m := by
  obtain ⟨m, hle, hge, hfree⟩ := exists_freeNumber (list.map numbers) n
  rw [List.length_map] at hge
  rw [guiBuffersMax] at hcount
  rw [guiBufferNumberMax] at hn
  exact ⟨m, hle, by omega, fun x hx heq => hfree (heq ▸ List.mem_map_of_mem hx)⟩

/-! ## Numbers that are shifted -/

/-- Numbers that are shifted grow, at most up to a free one. -/
theorem shiftNumbers_bounds {m : Int} (rest : List Buffer) (number : Buffer → Int) (prev : Buffer) (hnodup : rest.Nodup)
    (hfree : ∀ x ∈ rest, number x ≠ m) (hprev : number prev ≤ m) (x : Buffer) :
    number x ≤ guiBufferShiftNumbers number prev rest x ∧
      (guiBufferShiftNumbers number prev rest x ≤ m ∨ guiBufferShiftNumbers number prev rest x = number x) := by
  induction rest generalizing number prev with
  | nil => exact ⟨Int.le_refl _, .inr rfl⟩
  | cons y rest ih =>
    obtain ⟨hy, hnodup⟩ := List.nodup_cons.mp hnodup
    rw [guiBufferShiftNumbers]
    split
    · exact ⟨Int.le_refl _, .inr rfl⟩
    · have hother : ∀ z ∈ rest, Function.update number y (number y + 1) z = number z := fun z hz =>
        Function.update_of_ne (ne_of_mem_of_not_mem hz hy) ..
      -- the number of `y` is not the free one, so that it is below it
      have hle : number y + 1 ≤ m := by
        have := hfree y List.mem_cons_self
        omega
      obtain ⟨hge, hbound⟩ := ih (Function.update number y (number y + 1)) y hnodup
        (fun z hz => by rw [hother z hz]; exact hfree z (List.mem_cons_of_mem _ hz))
        (by rwa [Function.update_self])
      by_cases heq : x = y
      · subst heq
        rw [Function.update_self] at hge hbound
        exact ⟨by omega, .inl (by omega)⟩
      · rw [Function.update_of_ne heq] at hge hbound
        exact ⟨hge, hbound⟩

theorem shiftNext_bounds {m : Int} {next : List Buffer} {number : Buffer → Int} (hnodup : next.Nodup)
    (hfree : ∀ x ∈ next, number x ≠ m) (hbuffer : number buffer ≤ m) (x : Buffer) :
    number x ≤ guiBufferShiftNext number buffer next x ∧
      (guiBufferShiftNext number buffer next x ≤ m ∨ guiBufferShiftNext number buffer next x = number x) := by
  rw [guiBufferShiftNext]
  split
  · exact shiftNumbers_bounds next number buffer hnodup hfree hbuffer x
  · exact ⟨Int.le_refl _, .inr rfl⟩

/-! ## A group of buffers in the list -/

omit [DecidableEq Buffer] in
theorem dropWhile_ge {numbers : Buffer → Int} {list : List Buffer} (hsorted : list.Pairwise fun x y => numbers x ≤ numbers y)
    (n : Int) : ∀ x ∈ list.dropWhile fun x => decide (numbers x < n), n ≤ numbers x := by
  induction list with
  | nil => exact fun x hx => absurd hx List.not_mem_nil
  | cons y list ih =>
    obtain ⟨hy, hsorted⟩ := List.pairwise_cons.mp hsorted
    by_cases hlt : numbers y < n
    · rw [List.dropWhile_cons_of_pos (by simpa using hlt)]
      exact ih hsorted
    · rw [List.dropWhile_cons_of_neg (by simpa using hlt)]
      intro x hx
      rcases List.mem_cons.mp hx with rfl | hx
      · omega
      · have := hy x hx
        omega

/-- Some numbers of a list are sorted and integers. -/
structure NumbersRight (numbers : Buffer → Int) (list : List Buffer) : Prop where
  sorted : list.Pairwise fun x y => numbers x ≤ numbers y
  bounds : ∀ x ∈ list, 1 ≤ numbers x ∧ numbers x ≤ 2147483647

omit [DecidableEq Buffer] in
theorem NumbersRight.congr {numbers numbers' : Buffer → Int} {list : List Buffer} (h : NumbersRight numbers list)
    (heq : ∀ x ∈ list, numbers' x = numbers x) : NumbersRight numbers' list where
  sorted := h.sorted.imp_of_mem fun hx hy hxy => by rwa [heq _ hx, heq _ hy]
  bounds x hx := by
    rw [heq x hx]
    exact h.bounds x hx

omit [DecidableEq Buffer] in
theorem NumbersRight.sublist {numbers : Buffer → Int} {list list' : List Buffer} (h : NumbersRight numbers list)
    (hsub : list'.Sublist list) : NumbersRight numbers list' :=
  ⟨h.sorted.sublist hsub, fun x hx => h.bounds x (hsub.subset hx)⟩

omit [DecidableEq Buffer] in
theorem BuffersFit.right (h : BuffersFit buffers) : NumbersRight buffers.number buffers.guiBuffers :=
  ⟨h.sorted, fun x hx => ⟨h.positive x hx, h.fits x hx⟩⟩

omit [DecidableEq Buffer] in
/-- A group of buffers with the number `n`, between lower and higher ones. -/
theorem numbersRight_group {numbers : Buffer → Int} {before group after : List Buffer} {n : Int}
    (h : NumbersRight numbers (before ++ after)) (hgroup : ∀ x ∈ group, numbers x = n) (hn : 1 ≤ n ∧ n ≤ 2147483647)
    (hbefore : ∀ x ∈ before, numbers x ≤ n) (hafter : ∀ x ∈ after, n ≤ numbers x) :
    NumbersRight numbers (before ++ (group ++ after)) where
  sorted := by
    obtain ⟨hbeforeSorted, hafterSorted, hle⟩ := List.pairwise_append.mp h.sorted
    refine List.pairwise_append.mpr ⟨hbeforeSorted, List.pairwise_append.mpr ⟨?_, hafterSorted, fun x hx y hy => ?_⟩,
      fun x hx y hy => ?_⟩
    · refine List.pairwise_of_forall_mem_list fun x hx y hy => ?_
      rw [hgroup x hx, hgroup y hy]
    · rw [hgroup x hx]
      exact hafter y hy
    · rcases List.mem_append.mp hy with hy | hy
      · rw [hgroup y hy]
        exact hbefore x hx
      · exact hle x hx y hy
  bounds x hx := by
    rw [List.mem_append, List.mem_append] at hx
    rcases hx with hx | hx | hx
    · exact h.bounds x (List.mem_append_left _ hx)
    · rw [hgroup x hx]
      exact hn
    · exact h.bounds x (List.mem_append_right _ hx)

/-- A group of buffers that gets the number `n`, with a free number from it on; then those after it are shifted. -/
theorem numbersRight_shift {numbers : Buffer → Int} {before group after : List Buffer} {n m : Int} {last : Buffer}
    (hnodup : (before ++ (group ++ after)).Nodup) (h : NumbersRight numbers (before ++ after))
    (hgroup : ∀ x ∈ group, numbers x = n) (hlast : last ∈ group) (hn : 1 ≤ n)
    (hbefore : ∀ x ∈ before, numbers x ≤ n) (hafter : ∀ x ∈ after, n ≤ numbers x)
    (hle : n ≤ m) (hm : m ≤ 2147483647) (hfree : ∀ x ∈ after, numbers x ≠ m) :
    NumbersRight (guiBufferShiftNext numbers last after) (before ++ (group ++ after)) := by
  obtain ⟨-, hgroupAfter, hdisjoint⟩ := List.nodup_append.mp hnodup
  obtain ⟨-, hafterNodup, hdisjoint'⟩ := List.nodup_append.mp hgroupAfter
  have hnotMem : last ∉ after := fun hmem => hdisjoint' last hlast last hmem rfl
  have hnumber := hgroup last hlast
  obtain ⟨numbers', heq, hframe, hsorted, hgt⟩ := @unmergeNumbers_ok _ _ last numbers after
    (List.nodup_cons.mpr ⟨hnotMem, hafterNodup⟩) (List.pairwise_append.mp h.sorted).2.1
    (fun x hx => by rw [hnumber]; exact hafter x hx)
  have hshift : guiBufferShiftNext numbers last after = numbers' := heq
  have hbounds := shiftNext_bounds hafterNodup hfree (hnumber.trans_le hle)
  rw [hshift] at hbounds ⊢
  have hother : ∀ x ∈ before, numbers' x = numbers x := fun x hx =>
    hframe x fun hmem => hdisjoint x hx x (List.mem_append_right _ hmem) rfl
  refine numbersRight_group ⟨?_, fun x hx => ?_⟩ (n := n) (fun x hx => ?_) ⟨hn, hle.trans hm⟩ (fun x hx => ?_)
    (fun x hx => ?_)
  · refine List.pairwise_append.mpr ⟨?_, hsorted, fun x hx y hy => ?_⟩
    · exact (List.pairwise_append.mp h.sorted).1.imp_of_mem fun hx hy hxy => by rwa [hother _ hx, hother _ hy]
    · rw [hother x hx]
      exact (hbefore x hx).trans (hnumber ▸ (hgt y hy).le)
  · have hx' := h.bounds x hx
    obtain ⟨hge, hbound⟩ := hbounds x
    exact ⟨by omega, by omega⟩
  · rw [hframe x fun hmem => hdisjoint' x hx x hmem rfl]
    exact hgroup x hx
  · rw [hother x hx]
    exact hbefore x hx
  · exact hnumber ▸ (hgt x hx).le

omit [DecidableEq Buffer] in
/-- The buffers in another order, or with one more. -/
theorem BuffersFit.of_list (h : BuffersFit buffers) {list : List Buffer} {numbers : Buffer → Int} (hnodup : list.Nodup)
    (hsub : ∀ x ∈ buffers.guiBuffers, x ∈ list) (hcount : list.length ≤ guiBuffersMax) (hright : NumbersRight numbers list) :
    BuffersFit { buffers with guiBuffers := list, number := numbers } where
  nodup := hnodup
  sorted := hright.sorted
  visitedNodup := h.visitedNodup
  visitedOpen x hx := hsub x (h.visitedOpen x hx)
  positive x hx := (hright.bounds x hx).1
  fits x hx := (hright.bounds x hx).2
  count := hcount

omit [DecidableEq Buffer] in
theorem BuffersFit.of_perm (h : BuffersFit buffers) {list : List Buffer} {numbers : Buffer → Int}
    (hperm : list.Perm buffers.guiBuffers) (hright : NumbersRight numbers list) :
    BuffersFit { buffers with guiBuffers := list, number := numbers } :=
  h.of_list (hperm.nodup_iff.mpr h.nodup) (fun _ hx => hperm.mem_iff.mpr hx) (hperm.length_eq ▸ h.count) hright

/-! ## Groups of merged buffers -/

/-- The buffers with a number are those of a segment. -/
structure GroupAt (buffers : GuiBuffers Buffer) (number : Int) (segment : GuiBufferSegment Buffer)
    (firstBuffer lastBuffer : Buffer) : Prop where
  split : buffers.guiBuffers = segment.before ++ (segment.group ++ segment.after)
  segment_eq : guiBufferSegment buffers.guiBuffers firstBuffer lastBuffer = segment
  mem : lastBuffer ∈ segment.group
  before : ∀ x ∈ segment.before, buffers.number x < number
  group : ∀ x ∈ segment.group, buffers.number x = number
  after : ∀ x ∈ segment.after, number < buffers.number x

/-- A segment of a list is found from its first and its last buffer. -/
theorem guiBufferSegment_eq {before group after : List Buffer} {firstBuffer lastBuffer : Buffer}
    (hnodup : (before ++ (group ++ after)).Nodup) (hfirst : group.head? = some firstBuffer)
    (hlast : group.getLast? = some lastBuffer) :
    guiBufferSegment (before ++ (group ++ after)) firstBuffer lastBuffer = ⟨before, group, after⟩ := by
  obtain ⟨rest, rfl⟩ : ∃ rest, group = firstBuffer :: rest := List.head?_eq_some_iff.mp hfirst
  obtain ⟨others, hothers⟩ := List.getLast?_eq_some_iff.mp hlast
  have hbefore : ∀ x ∈ before, decide (x ≠ firstBuffer) = true := fun x hx =>
    decide_eq_true (fun heq => (List.nodup_append.mp hnodup).2.2 x hx firstBuffer List.mem_cons_self heq)
  have hgroup := (List.nodup_append.mp (List.nodup_append.mp hnodup).2.1).1
  rw [hothers] at hgroup
  have hothers' : ∀ x ∈ others, decide (x ≠ lastBuffer) = true := fun x hx =>
    decide_eq_true ((List.nodup_append.mp hgroup).2.2 x hx lastBuffer (List.mem_singleton.mpr rfl))
  have hdrop : (before ++ (firstBuffer :: rest ++ after)).dropWhile (fun x => decide (x ≠ firstBuffer)) =
      firstBuffer :: rest ++ after := by
    rw [List.dropWhile_append_of_pos hbefore, List.cons_append,
      List.dropWhile_cons_of_neg (by simp)]
  have htake : (before ++ (firstBuffer :: rest ++ after)).takeWhile (fun x => decide (x ≠ firstBuffer)) = before := by
    rw [List.takeWhile_append_of_pos hbefore, List.cons_append,
      List.takeWhile_cons_of_neg (by simp), List.append_nil]
  rw [guiBufferSegment, hdrop, htake, hothers, List.append_assoc, List.takeWhile_append_of_pos hothers', List.dropWhile_append_of_pos hothers',
    List.singleton_append, List.takeWhile_cons_of_neg (by simp),
    List.dropWhile_cons_of_neg (by simp), List.append_nil, List.tail_cons]

/-- What `gui_buffer_search_range` finds of a number: the group of buffers that have it. -/
theorem searchRange_group (h : BuffersOk buffers) (number : Int) {firstBuffer lastBuffer : Buffer}
    (hfirst : (guiBufferSearchRange buffers number number).firstBuffer = some firstBuffer)
    (hlast : (guiBufferSearchRange buffers number number).lastBuffer = some lastBuffer) :
    ∃ segment, GroupAt buffers number segment firstBuffer lastBuffer := by
  have hpositive : 1 ≤ number := by
    rw [guiBufferSearchRange] at hfirst
    split at hfirst
    · cases hfirst
    · omega
  obtain ⟨before, group, after, hsplit⟩ := exists_rangeSplit h.sorted number number
  obtain ⟨hhead, hsearch⟩ := guiBufferSearchRange_eq hpositive (Int.le_refl _) h.sorted hsplit
  rw [hfirst] at hhead
  have hne : group ≠ [] := fun hnil => by
    rw [hnil] at hhead
    cases hhead
  rw [hlast] at hsearch
  have hgetLast := (hsearch hne).1
  have hlist := hsplit.split.trans (List.append_assoc ..)
  refine ⟨⟨before, group, after⟩, hlist, ?_, List.mem_of_getLast? hgetLast.symm, hsplit.before, fun x hx => ?_,
    hsplit.after⟩
  · rw [hlist]
    exact guiBufferSegment_eq (hlist ▸ h.nodup) hhead.symm hgetLast.symm
  · have := hsplit.range x hx
    omega

theorem GroupAt.setNumbers {number : Int} {segment : GuiBufferSegment Buffer} {firstBuffer lastBuffer : Buffer}
    (h : GroupAt buffers number segment firstBuffer lastBuffer) (number' : Int) :
    (∀ x ∈ segment.group, guiBufferSetNumbers buffers.number segment.group number' x = number') ∧
      ∀ x ∈ segment.before ++ segment.after, guiBufferSetNumbers buffers.number segment.group number' x = buffers.number x := by
  refine ⟨fun x hx => if_pos hx, fun x hx => if_neg fun hmem => ?_⟩
  have heq := h.group x hmem
  rcases List.mem_append.mp hx with hx | hx
  · exact Int.ne_of_lt (h.before x hx) heq
  · exact Int.ne_of_gt (h.after x hx) heq

/-- The buffers without a group, and the group at another place. -/
theorem GroupAt.perm {number : Int} {segment : GuiBufferSegment Buffer} {firstBuffer lastBuffer : Buffer}
    (h : GroupAt buffers number segment firstBuffer lastBuffer) {before after : List Buffer}
    (heq : segment.before ++ segment.after = before ++ after) :
    (before ++ (segment.group ++ after)).Perm buffers.guiBuffers := by
  rw [h.split]
  refine (List.perm_append_comm_assoc ..).trans (.trans ?_ (List.perm_append_comm_assoc ..).symm)
  rw [heq]

theorem GroupAt.others (hfit : BuffersFit buffers) {number : Int} {segment : GuiBufferSegment Buffer}
    {firstBuffer lastBuffer : Buffer} (h : GroupAt buffers number segment firstBuffer lastBuffer) :
    NumbersRight buffers.number (segment.before ++ segment.after) := by
  refine hfit.right.sublist ?_
  rw [h.split]
  exact List.Sublist.append_left (List.sublist_append_right ..) _

/-! ## Merged buffers -/

/-- Merged buffers get the number of others. -/
theorem merge_fit (hfit : BuffersFit buffers) (formatted : Buffer → Bool) (targetBuffer : Buffer) :
    BuffersFit (guiBufferMerge false formatted buffers buffer targetBuffer) := by
  rw [guiBufferMerge]
  split
  · exact hfit
  rename_i hnone
  split
  · exact hfit
  dsimp only
  split
  · rename_i firstBuffer lastBuffer firstTarget lastTarget hfirst hlast hfirstTarget hlastTarget
    obtain ⟨segment, hgroup⟩ := searchRange_group hfit.toBuffersOk _ hfirst hlast
    obtain ⟨target, htarget⟩ := searchRange_group hfit.toBuffersOk _ hfirstTarget hlastTarget
    have hnumber := htarget.group lastTarget htarget.mem
    have hmem : lastTarget ∈ segment.before ++ segment.after := by
      have hopen : lastTarget ∈ buffers.guiBuffers := by
        rw [htarget.split]
        exact List.mem_append_right _ (List.mem_append_left _ htarget.mem)
      rw [hgroup.split, List.mem_append, List.mem_append] at hopen
      rcases hopen with hopen | hopen | hopen
      · exact List.mem_append_left _ hopen
      · have heq := hgroup.group lastTarget hopen
        omega
      · exact List.mem_append_right _ hopen
    obtain ⟨before, after, hsplit⟩ := List.append_of_mem hmem
    have hothers := hgroup.others hfit
    have hnodup : (segment.before ++ segment.after).Nodup := by
      have hnodup := hfit.nodup
      rw [hgroup.split] at hnodup
      exact hnodup.sublist (List.Sublist.append_left (List.sublist_append_right ..) _)
    have haround : guiBuffersAround { buffers with guiBuffers := segment.before ++ segment.after } lastTarget =
        (before, after) := around_eq hnodup hsplit
    simp only [hgroup.segment_eq, haround, Bool.false_eq_true, false_and, if_false]
    rw [hsplit, List.append_cons] at hothers
    have heq : before ++ lastTarget :: (segment.group ++ after) = (before ++ [lastTarget]) ++ (segment.group ++ after) :=
      List.append_cons ..
    obtain ⟨hset, hset'⟩ := hgroup.setNumbers (buffers.number targetBuffer)
    rw [hsplit, List.append_cons] at hset'
    rw [heq]
    refine hfit.of_perm (hgroup.perm (hsplit.trans (List.append_cons ..))) ?_
    have hsorted := hothers.sorted
    rw [List.append_assoc, List.singleton_append] at hsorted
    obtain ⟨-, hafter, hbefore⟩ := List.pairwise_append.mp hsorted
    refine numbersRight_group (hothers.congr hset') hset ?_ (fun x hx => ?_) (fun x hx => ?_)
    · rw [← hnumber]
      exact hothers.bounds lastTarget (List.mem_append_left _ (List.mem_append_right _ (List.mem_singleton.mpr rfl)))
    · rw [hset' x (List.mem_append_left _ hx), ← hnumber]
      rcases List.mem_append.mp hx with hx | hx
      · exact hbefore x hx lastTarget List.mem_cons_self
      · rw [List.mem_singleton.mp hx]
    · rw [hset' x (List.mem_append_right _ hx), ← hnumber]
      exact (List.pairwise_cons.mp hafter).1 x hx
  · exact hfit

/-! ## Buffers that are unmerged -/

/-- The numbers when a buffer gets `n` and those after it are shifted. -/
theorem shiftUpdate_bounds {numbers : Buffer → Int} {before after : List Buffer} {n m : Int}
    (hnodup : (before ++ buffer :: after).Nodup)
    (hbounds : ∀ x ∈ before ++ after, 1 ≤ numbers x ∧ numbers x ≤ 2147483647) (hn : 1 ≤ n) (hle : n ≤ m)
    (hm : m ≤ 2147483647) (hfree : ∀ x ∈ after, numbers x ≠ m) {x : Buffer} (hx : x ∈ before ++ buffer :: after) :
    1 ≤ guiBufferShiftNext (Function.update numbers buffer n) buffer after x ∧
      guiBufferShiftNext (Function.update numbers buffer n) buffer after x ≤ 2147483647 := by
  obtain ⟨hnotBefore, hnotAfter⟩ := notMem_of_nodup hnodup
  have hother : ∀ {y}, y ≠ buffer → Function.update numbers buffer n y = numbers y := fun hy =>
    Function.update_of_ne hy ..
  have hself : Function.update numbers buffer n buffer = n := Function.update_self ..
  obtain ⟨hge, hbound⟩ := @shiftNext_bounds _ _ buffer m after (Function.update numbers buffer n)
    (List.nodup_cons.mp (List.nodup_append.mp hnodup).2.1).2
    (fun y hy => by rw [hother (ne_of_mem_of_not_mem hy hnotAfter)]; exact hfree y hy) (hself.trans_le hle) x
  by_cases heq : x = buffer
  · subst heq
    rw [hself] at hge hbound
    exact ⟨by omega, by omega⟩
  · rw [hother heq] at hge hbound
    have hx' : x ∈ before ++ after := by simpa [heq] using hx
    have := hbounds x hx'
    exact ⟨by omega, by omega⟩

theorem unmergeNumber_pos {bufferNumber lastNumber number : Int} (hpositive : 1 ≤ bufferNumber) :
    1 ≤ guiBufferUnmergeNumber false bufferNumber lastNumber number := by
  rw [guiBufferUnmergeNumber]
  split
  · omega
  · simp only [Bool.false_eq_true, false_and, if_false]
    omega

/-- A buffer is unmerged to a number, when one from it on is free. -/
theorem unmerge_fit (hfit : BuffersFit buffers) (hmem : buffer ∈ buffers.guiBuffers) (number : Int)
    (hfree : 1 < guiBufferCountMergedBuffers buffers (buffers.number buffer) → ∀ lastNumber,
      ∃ m, guiBufferUnmergeNumber false (buffers.number buffer) lastNumber number ≤ m ∧ m ≤ 2147483647 ∧
        ∀ x ∈ buffers.guiBuffers, x ≠ buffer → buffers.number x ≠ m) :
    BuffersFit (guiBufferUnmerge false buffers buffer number) := by
  by_cases hnone : buffers.guiBuffers.length < 2 ∨ guiBufferCountMergedBuffers buffers (buffers.number buffer) < 2
  · rw [guiBufferUnmerge, if_pos hnone]
    exact hfit
  have hcount : 1 < guiBufferCountMergedBuffers buffers (buffers.number buffer) := by omega
  obtain ⟨hok, hperm, -⟩ := unmerge_ok hfit.toBuffersOk hmem hcount false number
  have hbounds : ∀ x ∈ buffers.guiBuffers, 1 ≤ (guiBufferUnmerge false buffers buffer number).number x ∧
      (guiBufferUnmerge false buffers buffer number).number x ≤ 2147483647 := by
    rw [guiBufferUnmerge, if_neg hnone]
    cases hlast : buffers.guiBuffers.getLast? with
    | none => exact absurd hmem (List.getLast?_eq_none_iff.mp hlast ▸ List.not_mem_nil)
    | some lastGuiBuffer =>
      dsimp only
      obtain ⟨m, hle, hm, hfree⟩ := hfree hcount (buffers.number lastGuiBuffer)
      have hpositive := @unmergeNumber_pos _ (buffers.number lastGuiBuffer) number
        (hfit.positive buffer hmem)
      generalize guiBufferUnmergeNumber false (buffers.number buffer) (buffers.number lastGuiBuffer) number = number'
        at hle hpositive ⊢
      obtain ⟨pre, post, hrest, hinsert, -, -⟩ := insertBefore_split
        (fun x => decide (buffers.number x ≥ number')) buffer (buffers.guiBuffers.erase buffer)
      have hperm : (pre ++ buffer :: post).Perm buffers.guiBuffers := by
        rw [← hinsert]
        exact (insertBefore_perm ..).trans (List.perm_cons_erase hmem).symm
      have hnodup := hperm.nodup_iff.mpr hfit.nodup
      have hopen : ∀ x ∈ pre ++ post, x ∈ buffers.guiBuffers ∧ x ≠ buffer := fun x hx => by
        rw [← hrest] at hx
        exact ⟨List.mem_of_mem_erase hx, fun heq => hfit.nodup.not_mem_erase (heq ▸ hx)⟩
      rw [hinsert, around_eq hnodup rfl]
      intro x hx
      have hshift := shiftUpdate_bounds hnodup (fun y hy => hfit.right.bounds y (hopen y hy).1) hpositive hle hm
        (fun y hy => hfree y (hopen y (List.mem_append_right _ hy)).1 (hopen y (List.mem_append_right _ hy)).2)
        (hperm.mem_iff.mpr hx)
      rw [guiBufferShiftNext, Function.update_self] at hshift
      exact hshift
  refine ⟨hok, fun x hx => (hbounds x (hperm.mem_iff.mp hx)).1, fun x hx => (hbounds x (hperm.mem_iff.mp hx)).2, ?_⟩
  rw [hperm.length_eq]
  exact hfit.count

/-- `gui_buffer_unmerge`: a number that is asked for is brought down, the default one is not. -/
theorem unmerge_fit_of_free (hfit : BuffersFit buffers) (hmem : buffer ∈ buffers.guiBuffers) (number : Int)
    (hfree : 1 < guiBufferCountMergedBuffers buffers (buffers.number buffer) →
      number < 1 ∨ min number guiBufferNumberMax = buffers.number buffer → NumberFree buffers (buffers.number buffer + 1)) :
    BuffersFit (guiBufferUnmerge false buffers buffer number) := by
  refine unmerge_fit hfit hmem number fun hcount lastNumber => ?_
  rw [guiBufferUnmergeNumber]
  have hmax : 1 ≤ guiBufferNumberMax := by decide
  split
  · rename_i hdefault
    obtain ⟨m, hle, hm, hfree⟩ := hfree hcount (hdefault.imp_left fun hlt => by omega)
    exact ⟨m, hle, hm, fun x hx _ => hfree x hx⟩
  · simp only [Bool.false_eq_true, false_and, if_false]
    obtain ⟨m, hle, hm, hfree⟩ := numberFree_of_le buffers.number hfit.count (min_le_right number guiBufferNumberMax)
    exact ⟨m, hle, hm, fun x hx _ => hfree x hx⟩

/-! ## Buffers that are closed -/

/-- The buffer and another one have their number, so that two less are above it. -/
theorem numberFree_merged (hfit : BuffersFit buffers) (hmem : buffer ∈ buffers.guiBuffers)
    (hle : buffers.number buffer ≤ guiBufferNumberMax) :
    ∃ m, buffers.number buffer + 1 ≤ m ∧ m ≤ 2147483647 ∧ ∀ x ∈ buffers.guiBuffers, x ≠ buffer → buffers.number x ≠ m := by
  obtain ⟨m, hm, hbound, hfree⟩ := exists_freeNumber ((buffers.guiBuffers.erase buffer).map buffers.number)
    (buffers.number buffer + 1)
  have hlength := List.length_erase_of_mem hmem
  have hpos := List.length_pos_of_mem hmem
  have hcount := hfit.count
  rw [List.length_map, hlength] at hbound
  rw [guiBuffersMax] at hcount
  rw [guiBufferNumberMax] at hle
  refine ⟨m, hm, by omega, fun x hx hne heq => hfree (heq ▸ List.mem_map_of_mem ((List.mem_erase_of_ne hne).mpr hx))⟩

/-- The number after the last one is brought down. -/
theorem unmergeEnd_fit (hfit : BuffersFit buffers) (hmem : buffer ∈ buffers.guiBuffers) {number : Int} (hnumber : 0 ≤ number) :
    BuffersFit (guiBufferUnmerge false buffers buffer (number + 1)) := by
  refine unmerge_fit hfit hmem _ fun _ lastNumber => ?_
  rw [guiBufferUnmergeNumber]
  have hmax : 1 ≤ guiBufferNumberMax := by decide
  have hle := min_le_right (number + 1) guiBufferNumberMax
  split
  · exact numberFree_merged hfit hmem (by omega)
  · simp only [Bool.false_eq_true, false_and, if_false]
    obtain ⟨m, hle, hm, hfree⟩ := numberFree_of_le buffers.number hfit.count hle
    exact ⟨m, hle, hm, fun x hx _ => hfree x hx⟩

/-- A buffer is removed from the list. -/
theorem remove_fit (hfit : BuffersFit buffers) : BuffersFit (guiBufferRemoveBuffer false buffers buffer) where
  nodup := hfit.nodup.erase buffer
  sorted := hfit.sorted.sublist List.erase_sublist
  visitedNodup := hfit.visitedNodup.erase buffer
  visitedOpen x hx := (List.mem_erase_of_ne fun heq => hfit.visitedNodup.not_mem_erase (heq ▸ hx)).mpr
    (hfit.visitedOpen x (List.mem_of_mem_erase hx))
  positive x hx := hfit.positive x (List.mem_of_mem_erase hx)
  fits x hx := hfit.fits x (List.mem_of_mem_erase hx)
  count := (List.erase_sublist.length_le).trans hfit.count

theorem close_fit (hfit : BuffersFit buffers) (hmem : buffer ∈ buffers.guiBuffers) :
    BuffersFit (guiBufferCloseBuffers false buffers buffer) := by
  have hnumber : 0 ≤ (buffers.guiBuffers.getLast?.map buffers.number).getD 0 := by
    cases hlast : buffers.guiBuffers.getLast? with
    | none => exact Int.le_refl _
    | some lastGuiBuffer =>
      have := hfit.positive lastGuiBuffer (List.mem_of_getLast? hlast)
      rw [Option.map_some, Option.getD_some]
      omega
  rw [guiBufferCloseBuffers]
  split
  · exact remove_fit (unmergeEnd_fit hfit hmem hnumber)
  · exact remove_fit hfit

/-! What the windows display is changed, not the list of buffers nor the numbers. -/

theorem visitedAdd_same (maxVisitedBuffers : Nat) (buffers : GuiBuffers Buffer) (buffer : Buffer) :
    SameBuffers buffers (guiBufferVisitedAdd maxVisitedBuffers buffers buffer) := ⟨rfl, rfl⟩

omit [DecidableEq Buffer] in
theorem SameBuffers.trans {buffers' buffers'' : GuiBuffers Buffer} (h : SameBuffers buffers buffers')
    (h' : SameBuffers buffers' buffers'') : SameBuffers buffers buffers'' :=
  ⟨h'.guiBuffers.trans h.guiBuffers, h'.number.trans h.number⟩

omit [DecidableEq Buffer] in
theorem setFirstPos_buffers {screen screen' : GuiScreen Buffer} {window : Nat} {f : GuiWindowScrollPos → GuiWindowScrollPos}
    (h : guiScreenSetFirstPos screen window f = some screen') : screen'.buffers = screen.buffers := by
  rw [guiScreenSetFirstPos] at h
  split at h
  · cases h
  · obtain ⟨scrolls, -, rfl⟩ := Option.map_eq_some_iff.mp h
    rfl

theorem switchScroll_sameBuffers {env : GuiBufferEnv Buffer} {screen screen' : GuiScreen Buffer} {window : Nat}
    {oldBuffer buffer : Buffer} (h : guiWindowSwitchScroll env screen window oldBuffer buffer = some screen') :
    SameBuffers screen.buffers screen'.buffers := by
  rw [guiWindowSwitchScroll] at h
  obtain ⟨scrolls, -, h⟩ := Option.bind_eq_some_iff.mp h
  have hsame : SameBuffers screen.buffers (if env.guiBuffersVisitedFrozen then screen.buffers
      else guiBufferVisitedAdd env.maxVisitedBuffers (guiBufferVisitedAdd env.maxVisitedBuffers screen.buffers oldBuffer)
        buffer) := by
    split
    · exact ⟨rfl, rfl⟩
    · exact (visitedAdd_same ..).trans (visitedAdd_same ..)
  dsimp only at h
  split at h
  · rw [setFirstPos_buffers h]
    exact hsame
  · cases h
    exact hsame

theorem switchToBuffer_sameBuffers {env : GuiBufferEnv Buffer} {screen screen' : GuiScreen Buffer} {window : Nat} {buffer : Buffer}
    (h : guiWindowSwitchToBuffer env screen window buffer = some screen') : SameBuffers screen.buffers screen'.buffers := by
  rw [guiWindowSwitchToBuffer] at h
  obtain ⟨window', -, h⟩ := Option.bind_eq_some_iff.mp h
  obtain ⟨oldBuffer, -, h⟩ := Option.bind_eq_some_iff.mp h
  have hfinish : ∀ {displayed : GuiScreen Buffer} {f : GuiWindowScrollPos → GuiWindowScrollPos},
      (if env.typeFree buffer then guiScreenSetFirstPos displayed window f else some displayed) = some screen' →
      screen'.buffers = displayed.buffers := by
    intro displayed f h
    split at h
    · exact setFirstPos_buffers h
    · cases h
      rfl
  dsimp only at h
  split at h
  · obtain ⟨switched, hswitched, h⟩ := Option.bind_eq_some_iff.mp h
    obtain ⟨windows, -, h⟩ := Option.bind_eq_some_iff.mp h
    have hsame := switchScroll_sameBuffers hswitched
    rw [hfinish h]
    exact hsame
  · obtain ⟨switched, hswitched, h⟩ := Option.bind_eq_some_iff.mp h
    obtain ⟨windows, -, h⟩ := Option.bind_eq_some_iff.mp h
    cases hswitched
    rw [hfinish h]
    exact ⟨rfl, rfl⟩

theorem closeWindow_sameBuffers {env : GuiBufferEnv Buffer} {backToBuffer visitedBuffer : Option Buffer} {buffer : Buffer}
    {screen screen' : GuiScreen Buffer} {window : Nat}
    (h : guiBufferCloseWindow env backToBuffer visitedBuffer buffer screen window = some screen') :
    SameBuffers screen.buffers screen'.buffers := by
  rw [guiBufferCloseWindow] at h
  obtain ⟨window', -, h⟩ := Option.bind_eq_some_iff.mp h
  split at h
  · obtain ⟨ptrBuffer, -, h⟩ := Option.bind_eq_some_iff.mp h
    obtain ⟨switched, hswitched, h⟩ := Option.bind_eq_some_iff.mp h
    obtain ⟨scrolls, -, h⟩ := Option.bind_eq_some_iff.mp h
    have hsame := switchToBuffer_sameBuffers hswitched
    cases h
    exact hsame
  · cases h
    exact ⟨rfl, rfl⟩

theorem closeWindows_sameBuffers {env : GuiBufferEnv Buffer} {backToBuffer visitedBuffer : Option Buffer} {buffer : Buffer}
    {windows : List Nat} {screen screen' : GuiScreen Buffer}
    (h : windows.foldlM (guiBufferCloseWindow env backToBuffer visitedBuffer buffer) screen = some screen') :
    SameBuffers screen.buffers screen'.buffers := by
  induction windows generalizing screen with
  | nil =>
    cases h
    exact ⟨rfl, rfl⟩
  | cons window windows ih =>
    rw [List.foldlM_cons] at h
    obtain ⟨next, hnext, h⟩ := Option.bind_eq_some_iff.mp h
    exact (closeWindow_sameBuffers hnext).trans (ih h)

theorem remove_same {env : GuiBufferEnv Buffer} {unmerged : GuiBuffers Buffer} {displayed : GuiScreen Buffer}
    {buffer : Buffer} (hsame : SameBuffers unmerged displayed.buffers) :
    SameBuffers (guiBufferRemoveBuffer env.bufferAutoRenumber unmerged buffer) (guiBufferRemove env displayed buffer).buffers := by
  obtain ⟨guiBuffers, number, visited, visitedIndex⟩ := unmerged
  obtain ⟨windows, scrolls, guiBuffers', number', visited', visitedIndex'⟩ := displayed
  obtain ⟨rfl, rfl⟩ := hsame
  exact ⟨rfl, rfl⟩

/-- The buffers that are left, and their numbers, are those of `gui_buffer_close` with windows. -/
theorem bufferClose_same {env : GuiBufferEnv Buffer} {screen screen' : GuiScreen Buffer} {buffer : Buffer}
    (h : guiBufferClose env screen buffer = some screen') :
    SameBuffers (guiBufferCloseBuffers env.bufferAutoRenumber screen.buffers buffer) screen'.buffers := by
  rw [guiBufferClose] at h
  rw [guiBufferCloseBuffers]
  dsimp only at h ⊢
  split at h
  · cases h
    exact remove_same ⟨rfl, rfl⟩
  · obtain ⟨displayed, hdisplayed, h⟩ := Option.bind_eq_some_iff.mp h
    have hsame := closeWindows_sameBuffers hdisplayed
    cases h
    exact remove_same hsame

/-! ## Buffers that are moved and renumbered -/

theorem moveSegment_fit (hfit : BuffersFit buffers) {bufferNumber number : Int} {segment : GuiBufferSegment Buffer}
    {firstBuffer lastBuffer : Buffer} (hgroup : GroupAt buffers bufferNumber segment firstBuffer lastBuffer)
    (hpositive : 1 ≤ number) (hmax : number ≤ guiBufferNumberMax) :
    BuffersFit (guiBufferMoveSegment false buffers number firstBuffer lastBuffer) := by
  obtain ⟨hset, hset'⟩ := hgroup.setNumbers number
  have hothers := hgroup.others hfit
  have hsplit := (List.takeWhile_append_dropWhile (p := fun x => decide (buffers.number x < number))
    (l := segment.before ++ segment.after)).symm
  have hbefore : ∀ x ∈ (segment.before ++ segment.after).takeWhile fun x => decide (buffers.number x < number),
      buffers.number x < number := fun x hx => by simpa using List.mem_takeWhile_imp hx
  have hafter := dropWhile_ge hothers.sorted number
  rw [guiBufferMoveSegment]
  simp only [hgroup.segment_eq, Bool.false_eq_true, false_and, if_false, Bool.and_false]
  generalize (segment.before ++ segment.after).takeWhile (fun x => decide (buffers.number x < number)) = before
    at hsplit hbefore ⊢
  generalize (segment.before ++ segment.after).dropWhile (fun x => decide (buffers.number x < number)) = after
    at hsplit hafter ⊢
  rw [hsplit] at hothers hset'
  have hperm := hgroup.perm hsplit
  have hlength : after.length ≤ guiBuffersMax := by
    have := hperm.length_eq
    rw [List.length_append, List.length_append] at this
    have := hfit.count
    omega
  obtain ⟨m, hle, hm, hfree⟩ := numberFree_of_le buffers.number hlength hmax
  refine hfit.of_perm hperm (numbersRight_shift (hperm.nodup_iff.mpr hfit.nodup) (hothers.congr hset') hset hgroup.mem
    hpositive (fun x hx => ?_) (fun x hx => ?_) hle hm fun x hx => ?_)
  · rw [hset' x (List.mem_append_left _ hx)]
    exact (hbefore x hx).le
  · rw [hset' x (List.mem_append_right _ hx)]
    exact hafter x hx
  · rw [hset' x (List.mem_append_right _ hx)]
    exact hfree x hx

/-- A number that is asked for is brought down to the greatest one. -/
theorem move_fit (hfit : BuffersFit buffers) (number : Int) :
    BuffersFit (guiBufferMoveToNumber false buffers buffer number) := by
  have hmax : 1 ≤ guiBufferNumberMax := by decide
  rw [guiBufferMoveToNumber]
  simp only [Bool.false_eq_true, false_and, if_false]
  split
  · exact hfit
  split
  · rename_i firstBuffer lastBuffer hfirst hlast
    obtain ⟨segment, hgroup⟩ := searchRange_group hfit.toBuffersOk _ hfirst hlast
    exact moveSegment_fit hfit hgroup (by omega) (by omega)
  · exact hfit

omit [DecidableEq Buffer] in
/-- What `gui_buffer_renumber` makes of the numbers of some buffers. -/
theorem renumbered_fit (hfit : BuffersFit buffers) {number1 number2 start : Int} {number : Buffer → Int}
    (hstart : 1 ≤ start) (hhigh : start + groupCount buffers.number (buffersInRange buffers number1 number2) - 1 ≤ 2147483647)
    (h : Renumbered buffers number1 number2 start number) : NumbersRight number buffers.guiBuffers where
  sorted := hfit.sorted.imp_of_mem fun {x y} hx hy hxy =>
    Int.not_lt.mp fun hlt => Int.not_lt.mpr hxy ((h.increasing y hy x hx).mpr hlt)
  bounds x hx := by
    by_cases hin : InRange number1 number2 (buffers.number x)
    · have hmem : number x ∈ (buffersInRange buffers number1 number2).map number :=
        List.mem_map_of_mem (List.mem_filter.mpr ⟨hx, decide_eq_true hin⟩)
      obtain ⟨hle, hlt⟩ := (h.consecutive (number x)).mp hmem
      omega
    · rw [h.outside x hx hin]
      exact hfit.right.bounds x hx

omit [DecidableEq Buffer] in
theorem groupCount_le_count (hfit : BuffersFit buffers) (number1 number2 : Int) :
    groupCount buffers.number (buffersInRange buffers number1 number2) ≤ guiBuffersMax := by
  have hcard := List.toFinset_card_le ((buffersInRange buffers number1 number2).map buffers.number)
  rw [List.length_map] at hcard
  exact hcard.trans ((List.length_filter_le ..).trans hfit.count)

omit [DecidableEq Buffer] in
theorem BuffersFit.numbered (hfit : BuffersFit buffers) (hne : buffers.guiBuffers ≠ []) : BuffersNumbered buffers :=
  ⟨hne, hfit.nodup, hfit.sorted, hfit.right.bounds⟩

omit [DecidableEq Buffer] in
/-- The start number is at most the greatest one, or it is that of the first buffer. -/
theorem start_bounds (hfit : BuffersFit buffers) {number1 number2 startNumber : Int}
    (hne : buffersInRange buffers number1 number2 ≠ []) :
    1 ≤ startOf buffers number1 number2 (min startNumber guiBufferNumberMax) ∧
      startOf buffers number1 number2 (min startNumber guiBufferNumberMax) +
        groupCount buffers.number (buffersInRange buffers number1 number2) - 1 ≤ 2147483647 := by
  obtain ⟨firstBuffer, rest, hrange⟩ := List.exists_cons_of_ne_nil hne
  have hsub : (buffersInRange buffers number1 number2).Sublist buffers.guiBuffers := List.filter_sublist
  have hright := hfit.right.sublist hsub
  have hcount := groupCount_le_count hfit number1 number2
  have hmax : 1 ≤ guiBufferNumberMax := by decide
  rw [guiBuffersMax] at hcount
  rw [startOf]
  split
  · rw [hrange] at hright ⊢
    rw [List.head?_cons, Option.map_some, Option.getD_some]
    refine ⟨(hright.bounds firstBuffer List.mem_cons_self).1, groupCount_le (fun x hx => ⟨?_, (hright.bounds x hx).2⟩)
      (List.cons_ne_nil _ _)⟩
    rcases List.mem_cons.mp hx with rfl | hx
    · exact Int.le_refl _
    · exact (List.pairwise_cons.mp hright.sorted).1 x hx
  · have hle := min_le_right startNumber guiBufferNumberMax
    rw [show guiBufferNumberMax = 2147483647 - 10000 from rfl] at hle ⊢
    omega

omit [DecidableEq Buffer] in
/-- The numbers of `gui_buffer_renumber` are those from the greatest one on at most. -/
theorem renumberRight_fit (hfit : BuffersFit buffers) {number1 number2 startNumber : Int} {number : Buffer → Int}
    (h : RenumberRight buffers number1 number2 (startOf buffers number1 number2 (min startNumber guiBufferNumberMax)) number) :
    BuffersFit { buffers with number } := by
  refine hfit.of_perm (List.Perm.refl _) ?_
  rcases h.renumbered with hsame | hrenumbered
  · exact hfit.right.congr hsame
  · by_cases hne : buffersInRange buffers number1 number2 = []
    · refine hfit.right.congr fun x hx => hrenumbered.outside x hx fun hin => ?_
      have hmem : x ∈ buffersInRange buffers number1 number2 := List.mem_filter.mpr ⟨hx, decide_eq_true hin⟩
      rw [hne] at hmem
      exact List.not_mem_nil hmem
    · obtain ⟨hstart, hhigh⟩ := @start_bounds _ _ hfit _ _ startNumber hne
      exact renumbered_fit hfit hstart hhigh hrenumbered

/-- There is nothing to renumber without buffers. -/
theorem renumberRange_nil (hnil : buffers.guiBuffers = []) (number1 number2 startNumber : Int) :
    guiBufferRenumberRange buffers number1 number2 startNumber = (buffers, []) := by
  have hfirst : (guiBufferSearchRange buffers number1 number2).firstBuffer = none := by
    rw [guiBufferSearchRange, hnil]
    split <;> rfl
  rw [guiBufferRenumberRange, hfirst]

theorem renumber_fit (hfit : BuffersFit buffers) {number1 number2 startNumber : Int}
    {renumbered : GuiBuffers Buffer × List Buffer}
    (h : guiBufferRenumber buffers number1 number2 startNumber = some renumbered) : BuffersFit renumbered.1 := by
  rw [guiBufferRenumber] at h
  split at h
  · cases h
    exact hfit
  by_cases hne : buffers.guiBuffers = []
  · obtain ⟨n1, -, h⟩ := Option.bind_eq_some_iff.mp h
    obtain ⟨n2, -, rfl⟩ := Option.map_eq_some_iff.mp h
    rw [renumberRange_nil hne]
    exact hfit
  · have hnumbered := hfit.numbered hne
    obtain ⟨n1, hnumber1, hpos1, hn1⟩ := exists_number1 hnumbered number1
    obtain ⟨n2, hnumber2, -, hn2⟩ := exists_number2 hnumbered number2
    rw [hnumber1, hnumber2, Option.bind_some, Option.map_some] at h
    have hcount := groupCount_le_count hfit number1 number2
    rw [guiBuffersMax] at hcount
    obtain ⟨number, moved, heq, hright⟩ := @renumberRange_right _ _ _ hnumbered _ _ startNumber _ _ hpos1 hn1 hn2
      fun _ => by
        have hle := min_le_right startNumber guiBufferNumberMax
        rw [show guiBufferNumberMax = 2147483647 - 10000 from rfl] at hle ⊢
        omega
    rw [heq] at h
    cases h
    exact renumberRight_fit hfit hright

/-! ## Buffers that are created -/

section

variable {place : GuiLayoutPlace}

omit [DecidableEq Buffer] in
/-- A buffer more, with a number that fits. -/
theorem BuffersFit.of_cons (h : BuffersFit buffers) (hnew : buffer ∉ buffers.guiBuffers)
    (hcount : buffers.guiBuffers.length < guiBuffersMax) {list : List Buffer} {numbers : Buffer → Int}
    (hperm : list.Perm (buffer :: buffers.guiBuffers)) (hright : NumbersRight numbers list) :
    BuffersFit { buffers with guiBuffers := list, number := numbers } :=
  h.of_list (hperm.nodup_iff.mpr (List.nodup_cons.mpr ⟨hnew, h.nodup⟩))
    (fun _ hx => hperm.mem_iff.mpr (List.mem_cons_of_mem _ hx)) (hperm.length_eq ▸ hcount) hright

theorem update_right (hfit : BuffersFit buffers) (hnew : buffer ∉ buffers.guiBuffers) (n : Int) :
    NumbersRight (Function.update buffers.number buffer n) buffers.guiBuffers :=
  hfit.right.congr fun _ hx => Function.update_of_ne (ne_of_mem_of_not_mem hx hnew) ..

/-- The number of a buffer that is added to the end. -/
theorem insertEnd_number (hfit : BuffersFit buffers) (hend : EndFits buffers) :
    ∃ n, guiBufferInsertEnd false buffers buffer place =
        { buffers with
          guiBuffers := buffers.guiBuffers ++ [buffer]
          number := Function.update buffers.number buffer n } ∧
      (1 ≤ n ∧ n ≤ 2147483647) ∧ ∀ x ∈ buffers.guiBuffers, buffers.number x ≤ n := by
  have hplace := place.layoutNumber_le
  refine ⟨_, rfl, ?_⟩
  cases hlast : buffers.guiBuffers.getLast? with
  | none =>
    rw [List.getLast?_eq_none_iff.mp hlast]
    refine ⟨?_, fun x hx => absurd hx List.not_mem_nil⟩
    split
    · omega
    · exact ⟨Int.le_refl _, (by decide : (1 : Int) ≤ 2147483647)⟩
  | some lastGuiBuffer =>
    obtain ⟨others, hothers⟩ := List.getLast?_eq_some_iff.mp hlast
    have hsorted := hfit.sorted
    have hle : ∀ x ∈ buffers.guiBuffers, buffers.number x ≤ buffers.number lastGuiBuffer := by
      intro x hx
      rw [hothers] at hsorted hx
      rcases List.mem_append.mp hx with hx | hx
      · exact (List.pairwise_append.mp hsorted).2.2 x hx lastGuiBuffer (List.mem_singleton.mpr rfl)
      · rw [List.mem_singleton.mp hx]
    have hlt := hend lastGuiBuffer hlast
    have hpositive := hfit.positive lastGuiBuffer (List.mem_of_getLast? hlast)
    split
    · rename_i hlayout
      have hgt : buffers.number lastGuiBuffer < place.layoutNumber := by simpa using hlayout.2.2
      exact ⟨by omega, fun x hx => by have := hle x hx; omega⟩
    · rw [Option.elim_some]
      exact ⟨by omega, fun x hx => by have := hle x hx; omega⟩

theorem insertEnd_fit (hfit : BuffersFit buffers) (hnew : buffer ∉ buffers.guiBuffers)
    (hcount : buffers.guiBuffers.length < guiBuffersMax) (hend : EndFits buffers) :
    BuffersFit (guiBufferInsertEnd false buffers buffer place) := by
  obtain ⟨n, heq, hn, hle⟩ := @insertEnd_number _ _ _ buffer place hfit hend
  have hright := update_right hfit hnew n
  rw [heq]
  refine hfit.of_cons hnew hcount (List.perm_append_singleton ..) ?_
  rw [← List.append_nil buffers.guiBuffers] at hright
  refine @numbersRight_group _ _ _ [buffer] [] n hright (fun x hx => ?_) hn (fun x hx => ?_)
    (fun x hx => absurd hx List.not_mem_nil)
  · rw [List.mem_singleton.mp hx, Function.update_self]
  · rw [Function.update_of_ne (ne_of_mem_of_not_mem hx hnew)]
    exact hle x hx

/-- A buffer gets a number before another one; the others are shifted up to a free number. -/
theorem insertBefore_fit (hfit : BuffersFit buffers) (hnew : buffer ∉ buffers.guiBuffers)
    (hcount : buffers.guiBuffers.length < guiBuffersMax) {posBuffer : Buffer} {forceNumber : Option Int}
    {before after : List Buffer} (hsplit : buffers.guiBuffers = before ++ posBuffer :: after) {n : Int}
    (hnumber : guiBufferInsertNumber false buffers place posBuffer forceNumber = n) (hn : 1 ≤ n)
    (hbefore : ∀ x ∈ before, buffers.number x ≤ n) (hle : n ≤ buffers.number posBuffer) (hfree : NumberFree buffers n) :
    BuffersFit (guiBufferInsertBefore false buffers buffer place posBuffer forceNumber) := by
  obtain ⟨m, hnm, hm, hfree⟩ := hfree
  have hright := update_right hfit hnew n
  have hperm : (before ++ ([buffer] ++ posBuffer :: after)).Perm (buffer :: buffers.guiBuffers) := by
    rw [hsplit, List.singleton_append]
    exact List.perm_middle
  have hopen : ∀ x ∈ posBuffer :: after, x ∈ buffers.guiBuffers := fun x hx =>
    hsplit ▸ List.mem_append_right _ hx
  have hother : ∀ x ∈ buffers.guiBuffers, Function.update buffers.number buffer n x = buffers.number x := fun x hx =>
    Function.update_of_ne (ne_of_mem_of_not_mem hx hnew) ..
  have hsorted := hfit.sorted
  rw [hsplit] at hsorted hright
  rw [guiBufferInsertBefore, around_eq hfit.nodup hsplit, hnumber]
  refine hfit.of_cons hnew hcount hperm (@numbersRight_shift _ _ _ _ [buffer] _ n _ _ ?_ hright (fun x hx => ?_)
    (List.mem_singleton.mpr rfl) hn (fun x hx => ?_) (fun x hx => ?_) hnm hm fun x hx => ?_)
  · exact hperm.nodup_iff.mpr (List.nodup_cons.mpr ⟨hnew, hfit.nodup⟩)
  · rw [List.mem_singleton.mp hx, Function.update_self]
  · rw [hother x (hsplit ▸ List.mem_append_left _ hx)]
    exact hbefore x hx
  · rw [hother x (hopen x hx)]
    rcases List.mem_cons.mp hx with rfl | hx
    · exact hle
    · exact hle.trans ((List.pairwise_cons.mp (List.pairwise_append.mp hsorted).2.1).1 x hx)
  · rw [hother x (hopen x hx)]
    exact hfree x (hopen x hx)

omit [DecidableEq Buffer] in
theorem numberFree_between (hfit : BuffersFit buffers) {before after : List Buffer} {posBuffer : Buffer}
    (hsplit : buffers.guiBuffers = before ++ posBuffer :: after) {n : Int} (hbefore : ∀ x ∈ before, buffers.number x < n)
    (hlt : n < buffers.number posBuffer) : NumberFree buffers n := by
  have hsorted := hfit.sorted
  rw [hsplit] at hsorted
  have hpos : posBuffer ∈ buffers.guiBuffers := hsplit ▸ List.mem_append_right _ List.mem_cons_self
  refine ⟨n, Int.le_refl _, hlt.le.trans (hfit.fits posBuffer hpos), fun x hx => ?_⟩
  rw [hsplit, List.mem_append, List.mem_cons] at hx
  rcases hx with hx | rfl | hx
  · exact (hbefore x hx).ne
  · exact hlt.ne'
  · exact (hlt.trans_le ((List.pairwise_cons.mp (List.pairwise_append.mp hsorted).2.1).1 x hx)).ne'

omit [DecidableEq Buffer] in
/-- The first available number is after those of the buffers before it. -/
theorem findGap_eq {number : Buffer → Int} {list : List Buffer} {prevNumber forceNumber : Int} {posBuffer : Buffer}
    (hsorted : list.Pairwise fun x y => number x ≤ number y) (hprev : ∀ x ∈ list, prevNumber ≤ number x)
    (h : guiBufferFindGap number prevNumber list = some (posBuffer, forceNumber)) :
    ∃ before after, list = before ++ posBuffer :: after ∧ prevNumber < forceNumber ∧
      (∀ x ∈ before, number x < forceNumber) ∧ forceNumber < number posBuffer := by
  induction list generalizing prevNumber with
  | nil => cases h
  | cons x list ih =>
    obtain ⟨hx, hsorted⟩ := List.pairwise_cons.mp hsorted
    rw [guiBufferFindGap] at h
    split at h
    · cases h
      exact ⟨[], list, rfl, by omega, fun y hy => absurd hy List.not_mem_nil, ‹_›⟩
    · obtain ⟨before, after, rfl, hlt, hbefore, hgt⟩ := ih hsorted hx h
      have := hprev x List.mem_cons_self
      refine ⟨x :: before, after, rfl, by omega, fun y hy => ?_, hgt⟩
      rcases List.mem_cons.mp hy with rfl | hy
      · exact hlt
      · exact hbefore y hy

omit [DecidableEq Buffer] in
theorem findPosLoop_mem {list : GuiBufferList Buffer} {rest : List Buffer} {prevBuffer : Option Buffer} {posBuffer : Buffer}
    (h : guiBufferFindPosLoop list place prevBuffer rest = some posBuffer) : posBuffer ∈ rest := by
  induction rest generalizing prevBuffer with
  | nil => cases h
  | cons x rest ih =>
    rw [guiBufferFindPosLoop] at h
    split at h
    · cases h
      exact List.mem_cons_self
    · exact List.mem_cons_of_mem _ (ih h)

omit [DecidableEq Buffer] in
theorem findPos_mem {list : GuiBufferList Buffer} {posBuffer : Buffer} (h : guiBufferFindPos list place = some posBuffer) :
    1 ≤ place.layoutNumber ∧ posBuffer ∈ list.buffers.guiBuffers := by
  rw [guiBufferFindPos] at h
  split at h
  · cases h
  · exact ⟨by omega, findPosLoop_mem h⟩

/-- Before the first buffer after a gap. -/
theorem insertGap_fit (hfit : BuffersFit buffers) (hnew : buffer ∉ buffers.guiBuffers)
    (hcount : buffers.guiBuffers.length < guiBuffersMax) {posBuffer : Buffer} {forceNumber : Int}
    (hgap : guiBufferFindGap buffers.number 0 buffers.guiBuffers = some (posBuffer, forceNumber)) :
    BuffersFit (guiBufferInsertBefore false buffers buffer place posBuffer (some forceNumber)) := by
  obtain ⟨before, after, hsplit, hpositive, hbefore, hlt⟩ := findGap_eq hfit.sorted
    (fun x hx => by have := hfit.positive x hx; omega) hgap
  exact insertBefore_fit hfit hnew hcount hsplit rfl hpositive (fun x hx => (hbefore x hx).le) hlt.le
    (numberFree_between hfit hsplit hbefore hlt)

/-- Before the buffer at the position in the layout. -/
theorem insertPos_fit (hfit : BuffersFit buffers) (hnew : buffer ∉ buffers.guiBuffers)
    (hcount : buffers.guiBuffers.length < guiBuffersMax) {posBuffer : Buffer} (hmem : posBuffer ∈ buffers.guiBuffers)
    (hplace : 1 ≤ place.layoutNumber) (hfits : BeforeFits buffers place posBuffer) :
    BuffersFit (guiBufferInsertBefore false buffers buffer place posBuffer none) := by
  obtain ⟨before, after, hsplit⟩ := List.append_of_mem hmem
  have haround : guiBuffersAround buffers posBuffer = (before, after) := around_eq hfit.nodup hsplit
  have hsorted := hfit.sorted
  rw [hsplit] at hsorted
  obtain ⟨hbeforeSorted, -, hbefore⟩ := List.pairwise_append.mp hsorted
  rw [BeforeFits, haround] at hfits
  by_cases hlayout : place.layoutNumber < buffers.number posBuffer ∧
      ∀ prevBuffer ∈ before.getLast?, buffers.number prevBuffer < place.layoutNumber
  · have hnumber : guiBufferInsertNumber false buffers place posBuffer none = place.layoutNumber := by
      refine if_pos ⟨rfl, by omega, hlayout.1, ?_⟩
      rw [haround]
      cases hlast : before.getLast? with
      | none => rfl
      | some prevBuffer => exact decide_eq_true (hlayout.2 prevBuffer hlast)
    have hlt : ∀ x ∈ before, buffers.number x < place.layoutNumber := by
      rcases List.eq_nil_or_concat before with rfl | ⟨others, prevBuffer, rfl⟩
      · exact fun x hx => absurd hx List.not_mem_nil
      · rw [List.concat_eq_append] at hbeforeSorted hlayout ⊢
        have hprev := hlayout.2 prevBuffer List.getLast?_concat
        intro x hx
        rcases List.mem_append.mp hx with hx | hx
        · exact ((List.pairwise_append.mp hbeforeSorted).2.2 x hx prevBuffer (List.mem_singleton.mpr rfl)).trans_lt hprev
        · rwa [List.mem_singleton.mp hx]
    exact insertBefore_fit hfit hnew hcount hsplit hnumber hplace (fun x hx => (hlt x hx).le) hlayout.1.le
      (numberFree_between hfit hsplit hlt hlayout.1)
  · have hnumber : guiBufferInsertNumber false buffers place posBuffer none = buffers.number posBuffer := by
      refine if_neg fun h => hlayout ⟨h.2.2.1, fun prevBuffer hprev => ?_⟩
      have hall := h.2.2.2
      rw [haround, Option.mem_def.mp hprev, Option.all_some] at hall
      exact of_decide_eq_true hall
    exact insertBefore_fit hfit hnew hcount hsplit hnumber (hfit.positive posBuffer hmem)
      (fun x hx => hbefore x hx posBuffer List.mem_cons_self) (Int.le_refl _) (hfits.resolve_left hlayout)

/-- `gui_buffer_insert`. -/
theorem insert_fit {list : GuiBufferList Buffer} (hfit : BuffersFit list.buffers) (hnew : buffer ∉ list.buffers.guiBuffers)
    (hcount : list.buffers.guiBuffers.length < guiBuffersMax) {firstGap : Bool} (formatted : Buffer → Bool)
    (hfits : NewFits firstGap list place) : BuffersFit (guiBufferInsert false firstGap formatted list buffer place).buffers := by
  have hinserted : BuffersFit (guiBufferInsertAt false list.buffers buffer place
      ((guiBufferInsertPos firstGap list place).filter fun _ =>
        ((guiBufferInsertPos firstGap list place).bind fun pos => guiBufferInsertMergeBuffer list place pos.1).isNone)) := by
    rw [NewFits] at hfits
    rw [guiBufferInsertPos] at hfits ⊢
    cases hpos : guiBufferFindPos list place with
    | some posBuffer =>
      obtain ⟨hplace, hmem⟩ := findPos_mem hpos
      rw [hpos] at hfits
      dsimp only at hfits
      rw [Option.bind_some]
      cases hmerge : guiBufferInsertMergeBuffer list place posBuffer with
      | some mergeBuffer =>
        rw [hmerge] at hfits
        exact insertEnd_fit hfit hnew hcount hfits
      | none =>
        rw [hmerge] at hfits
        exact insertPos_fit hfit hnew hcount hmem hplace hfits
    | none =>
      rw [hpos] at hfits
      dsimp only at hfits ⊢
      by_cases hlayout : place.layoutNumber = 0 ∧ firstGap = true
      · rw [if_pos hlayout] at hfits ⊢
        cases hgap : guiBufferFindGap list.buffers.number 0 list.buffers.guiBuffers with
        | none =>
          rw [hgap] at hfits
          exact insertEnd_fit hfit hnew hcount hfits
        | some gap =>
          have hmerge : guiBufferInsertMergeBuffer list place gap.1 = none := if_neg (by omega)
          rw [Option.map_some, Option.bind_some, hmerge]
          exact insertGap_fit hfit hnew hcount hgap
      · rw [if_neg hlayout] at hfits ⊢
        exact insertEnd_fit hfit hnew hcount hfits
  rw [guiBufferInsert]
  dsimp only
  generalize guiBufferInsertAt false list.buffers buffer place _ = inserted at hinserted ⊢
  generalize Option.or _ _ = merged
  cases merged with
  | none => exact hinserted
  | some merged => exact merge_fit hinserted formatted merged.2

/-- `gui_buffer_new`. -/
theorem new_fit {list : GuiBufferList Buffer} (hfit : BuffersFit list.buffers) (hnew : buffer ∉ list.buffers.guiBuffers)
    {firstGap : Bool} (formatted : Buffer → Bool)
    (hfits : list.buffers.guiBuffers.length < guiBuffersMax → NewFits firstGap list place) :
    BuffersFit (guiBufferNew false firstGap formatted list buffer place).buffers := by
  rw [guiBufferNew]
  split
  · exact hfit
  · exact insert_fit hfit hnew (Nat.lt_of_not_le ‹_›) formatted (hfits (Nat.lt_of_not_le ‹_›))

end

/-! ## Runs -/

theorem bufferStep_fit {list list' : GuiBufferList Buffer} {op : GuiBufferOp Buffer} (hfit : BuffersFit list.buffers)
    (hfits : StepFits list op) (h : guiBufferStep false list op = some list') : BuffersFit list'.buffers := by
  cases op with
  | new buffer place firstGap formatted =>
    rw [guiBufferStep] at h
    split at h
    · cases h
    · cases h
      exact new_fit hfit ‹_› formatted hfits
  | close buffer =>
    rw [guiBufferStep] at h
    split at h
    · cases h
      exact close_fit hfit ‹_›
    · cases h
  | moveToNumber buffer number =>
    rw [guiBufferStep] at h
    split at h
    · cases h
      exact move_fit hfit number
    · cases h
  | unmerge buffer number =>
    rw [guiBufferStep] at h
    split at h
    · cases h
      exact unmerge_fit_of_free hfit ‹_› number hfits
    · cases h
  | renumber number1 number2 startNumber =>
    obtain ⟨renumbered, hrenumbered, rfl⟩ := Option.map_eq_some_iff.mp h
    exact renumber_fit hfit hrenumbered

omit [DecidableEq Buffer] in
theorem empty_fit : BuffersFit (guiBufferListEmpty : GuiBufferList Buffer).buffers where
  nodup := List.nodup_nil
  sorted := List.Pairwise.nil
  visitedNodup := List.nodup_nil
  visitedOpen _ hx := absurd hx List.not_mem_nil
  positive _ hx := absurd hx List.not_mem_nil
  fits _ hx := absurd hx List.not_mem_nil
  count := Nat.zero_le _

/-- Buffer numbers do not overflow as long as each step finds the numbers that it needs. -/
theorem buffer_numbers_fit (ops before after : List (GuiBufferOp Buffer)) (hops : ops = before ++ after)
    (h : AlongM (guiBufferStep false) StepFits guiBufferListEmpty ops) (list : GuiBufferList Buffer)
    (hlist : before.foldlM (guiBufferStep false) guiBufferListEmpty = some list) : NumbersFit list.buffers :=
  (alongM_invariant (I := fun list => BuffersFit list.buffers) (fun _ _ _ => bufferStep_fit) empty_fit h hops hlist).fits

/-- A buffer that is not in the layout, created at the end. -/
def newAtEnd (buffer : Nat) : GuiBufferOp Nat := .new buffer .outside false fun _ => true

theorem buffer_numbers_fit_two : ∃ list, [newAtEnd 0, newAtEnd 1, .moveToNumber 1 5].foldlM (guiBufferStep false)
    guiBufferListEmpty = some list ∧ NumbersFit list.buffers := by
  refine ⟨_, rfl, buffer_numbers_fit _ [newAtEnd 0, newAtEnd 1, .moveToNumber 1 5] [] rfl ⟨fun _ => ?_, ?_⟩ _ rfl⟩
  · exact fun x hx => by cases hx
  · intro list hlist
    cases hlist
    refine ⟨fun _ x hx => ?_, fun list hlist => ?_⟩
    · cases hx
      decide
    · cases hlist
      exact ⟨trivial, fun _ _ => trivial⟩

/-- The buffer 0 and one with the number `n`, both out of the layout. -/
structure TwoOpen (n : Int) (k : Nat) (list : GuiBufferList Nat) : Prop where
  guiBuffers : list.buffers.guiBuffers = [0, k]
  first : list.buffers.number 0 = 1
  last : list.buffers.number k = n
  layout : list.layout = fun _ => .outside

/-- A buffer out of the layout is added to the end. -/
theorem new_at_end {list : GuiBufferList Nat} {buffer : Nat} (hnew : buffer ∉ list.buffers.guiBuffers)
    (hcount : list.buffers.guiBuffers.length < guiBuffersMax) :
    guiBufferStep false list (newAtEnd buffer) =
      some ⟨guiBufferInsertEnd false list.buffers buffer .outside, Function.update list.layout buffer .outside⟩ := by
  have hmerged : ∀ buffers, guiBufferInsertMerged ⟨buffers, Function.update list.layout buffer .outside⟩ buffer = none := by
    intro buffers
    refine if_neg ?_
    dsimp only
    rw [Function.update_self]
    decide
  rw [newAtEnd, guiBufferStep, if_neg hnew, guiBufferNew, if_neg (Nat.not_le.mpr hcount), guiBufferInsert, show guiBufferInsertPos false list .outside = none from rfl, Option.bind_none, Option.filter_none, hmerged]
  rfl

/-- A buffer is created, then the last one is closed: the number of the last one grows. -/
theorem twoOpen_next {n : Int} {k : Nat} {list : GuiBufferList Nat} (h : TwoOpen n (k + 1) list) (hn : 2 ≤ n) :
    ∃ list', [newAtEnd (k + 2), .close (k + 1)].foldlM (guiBufferStep false) list = some list' ∧
      TwoOpen (n + 1) (k + 2) list' := by
  obtain ⟨⟨guiBuffers, number, visited, visitedIndex⟩, layout⟩ := list
  obtain ⟨rfl, hfirst, hlast, rfl⟩ := h
  dsimp only at hfirst hlast
  have hend : guiBufferInsertEnd false ⟨[0, k + 1], number, visited, visitedIndex⟩ (k + 2) .outside =
      ⟨[0, k + 1, k + 2], Function.update number (k + 2) (number (k + 1) + 1), visited, visitedIndex⟩ := rfl
  have hzero : Function.update number (k + 2) (n + 1) 0 = 1 := by
    rw [Function.update_of_ne (Nat.zero_ne_add_one _)]
    exact hfirst
  have hself : Function.update number (k + 2) (n + 1) (k + 1) = n := by
    rw [Function.update_of_ne (Nat.ne_of_lt (Nat.lt_succ_self _))]
    exact hlast
  have hnext : Function.update number (k + 2) (n + 1) (k + 2) = n + 1 := Function.update_self ..
  have hone : guiBufferCountMergedBuffers
      ⟨[0, k + 1, k + 2], Function.update number (k + 2) (n + 1), visited, visitedIndex⟩ n = 1 := by
    simp only [guiBufferCountMergedBuffers, List.countP_cons, List.countP_nil, hzero, hself, hnext]
    simp
    omega
  rw [List.foldlM_cons, new_at_end (by simp) (by simp [guiBuffersMax]), hend, hlast, Option.bind_eq_bind, Option.bind_some,
    List.foldlM_cons, guiBufferStep, if_pos (by simp), Option.bind_eq_bind, Option.bind_some]
  refine ⟨_, rfl, ?_⟩
  dsimp only
  rw [guiBufferCloseBuffers]
  simp only [hself, hone, gt_iff_lt, Nat.lt_irrefl, if_false]
  refine ⟨?_, hzero, hnext, ?_⟩
  · simp [guiBufferRemoveBuffer]
  · exact Function.update_eq_self ..

/-- After any number of rounds. -/
theorem twoOpen_rounds (rounds : Nat) {n : Int} {list : GuiBufferList Nat} (h : TwoOpen n 1 list) (hn : 2 ≤ n) :
    ∃ (ops : List (GuiBufferOp Nat)) (list' : GuiBufferList Nat), ops.foldlM (guiBufferStep false) list = some list' ∧
      TwoOpen (n + rounds) (rounds + 1) list' := by
  induction rounds with
  | zero => exact ⟨[], list, rfl, by rwa [Int.natCast_zero, Int.add_zero]⟩
  | succ rounds ih =>
    obtain ⟨ops, list', hops, hopen⟩ := ih
    obtain ⟨list'', hnext, hopen⟩ := twoOpen_next hopen (by omega)
    refine ⟨ops ++ [newAtEnd (rounds + 2), .close (rounds + 1)], list'', ?_, ?_⟩
    · rw [List.foldlM_append, hops]
      exact hnext
    · rwa [Int.natCast_add, Int.natCast_one, ← Int.add_assoc]

/-- Two buffers, of which one is moved to the greatest number that can be asked for. -/
theorem twoOpen_start : ∃ list, [newAtEnd 0, newAtEnd 1, .moveToNumber 1 guiBufferNumberMax].foldlM (guiBufferStep false)
    guiBufferListEmpty = some list ∧ TwoOpen guiBufferNumberMax 1 list := by
  refine ⟨_, rfl, by decide, by decide, by decide, ?_⟩
  change Function.update (Function.update (fun _ => .outside) 0 .outside) 1 .outside = fun _ => GuiLayoutPlace.outside
  funext buffer
  rw [Function.update_apply, Function.update_apply, ite_self, ite_self]

/-- A buffer is created after the last one, which is closed, again and again. -/
theorem buffer_numbers_overflow : ¬ ∀ (ops : List (GuiBufferOp Nat)) (list : GuiBufferList Nat),
    ops.foldlM (guiBufferStep false) guiBufferListEmpty = some list → NumbersFit list.buffers := by
  intro h
  obtain ⟨start, hstart, hopen⟩ := twoOpen_start
  obtain ⟨ops, list, hops, hopen⟩ := twoOpen_rounds 10001 hopen (by decide)
  have hfits := h ([newAtEnd 0, newAtEnd 1, .moveToNumber 1 guiBufferNumberMax] ++ ops) list (by
    rw [List.foldlM_append, hstart]
    exact hops)
  have hle := hfits (10001 + 1) (hopen.guiBuffers ▸ List.mem_cons_of_mem _ List.mem_cons_self)
  rw [hopen.last] at hle
  exact absurd hle (by decide)

end Wirc

import Mathlib.Data.List.Nodup
import WhoreIrc.Spec.GuiScreen

/-!
# Numbers of buffers when one is closed

A buffer that is closed has a number of its own then (`AloneAt`): it is not
merged, or `gui_buffer_unmerge` gives it one (`unmerge_ok`).
-/

namespace Wirc

open Framework

variable {Buffer : Type} [DecidableEq Buffer] {buffers : GuiBuffers Buffer} {buffer : Buffer}

/-- The buffer is between `before` and `after`, with a number between theirs. -/
structure AloneAt (buffers : GuiBuffers Buffer) (buffer : Buffer) (before after : List Buffer) : Prop where
  split : buffers.guiBuffers = before ++ buffer :: after
  before : ∀ x ∈ before, buffers.number x < buffers.number buffer
  after : ∀ x ∈ after, buffers.number buffer < buffers.number x

omit [DecidableEq Buffer] in
theorem notMem_of_nodup {before after : List Buffer} (hnodup : (before ++ buffer :: after).Nodup) :
    buffer ∉ before ∧ buffer ∉ after := by
  rw [List.nodup_middle, List.nodup_cons, List.mem_append, not_or] at hnodup
  exact hnodup.1

theorem around_eq (hnodup : buffers.guiBuffers.Nodup) {before after : List Buffer}
    (hsplit : buffers.guiBuffers = before ++ buffer :: after) : guiBuffersAround buffers buffer = (before, after) := by
  rw [hsplit] at hnodup
  have hbefore : ∀ x ∈ before, decide (x ≠ buffer) = true := fun x hx =>
    decide_eq_true (ne_of_mem_of_not_mem hx (notMem_of_nodup hnodup).1)
  rw [guiBuffersAround, hsplit, List.takeWhile_append_of_pos hbefore, List.dropWhile_append_of_pos hbefore,
    List.takeWhile_cons_of_neg (by simp), List.dropWhile_cons_of_neg (by simp), List.append_nil]
  rfl

theorem erase_eq {before after : List Buffer} (hnodup : (before ++ buffer :: after).Nodup) :
    (before ++ buffer :: after).erase buffer = before ++ after := by
  rw [List.erase_append_right _ (notMem_of_nodup hnodup).1, List.erase_cons_head]

omit [DecidableEq Buffer] in
/-- A buffer that is not merged has a number of its own. -/
theorem alone_of_count (hok : BuffersOk buffers) (hmem : buffer ∈ buffers.guiBuffers)
    (hcount : guiBufferCountMergedBuffers buffers (buffers.number buffer) ≤ 1) :
    ∃ before after, AloneAt buffers buffer before after := by
  obtain ⟨before, after, hsplit⟩ := List.append_of_mem hmem
  have hsorted := hok.sorted
  rw [hsplit, List.pairwise_append, List.pairwise_cons] at hsorted
  rw [guiBufferCountMergedBuffers, hsplit, List.countP_append, List.countP_cons_of_pos (by simp)] at hcount
  have hzero : ∀ l : List Buffer, l.countP (fun x => buffers.number x = buffers.number buffer) = 0 →
      ∀ x ∈ l, buffers.number x ≠ buffers.number buffer := fun l hl x hx => by
    simpa using List.countP_eq_zero.mp hl x hx
  refine ⟨before, after, hsplit, fun x hx => ?_, fun x hx => ?_⟩
  · have hle := hsorted.2.2 x hx buffer List.mem_cons_self
    have hne := hzero before (by omega) x hx
    omega
  · have hle := hsorted.2.1.1 x hx
    have hne := hzero after (by omega) x hx
    omega

/-! ## Numbers that are shifted -/

theorem shiftNumbers_ok (rest : List Buffer) (number : Buffer → Int) (prev : Buffer) (hnodup : rest.Nodup)
    (hsorted : rest.Pairwise fun x y => number x ≤ number y) (hle : ∀ x ∈ rest, number prev ≤ number x + 1) :
    (∀ x, x ∉ rest → guiBufferShiftNumbers number prev rest x = number x) ∧
      rest.Pairwise (fun x y => guiBufferShiftNumbers number prev rest x ≤ guiBufferShiftNumbers number prev rest y) ∧
      ∀ x ∈ rest, number prev ≤ guiBufferShiftNumbers number prev rest x := by
  induction rest generalizing number prev with
  | nil => exact ⟨fun _ _ => rfl, List.Pairwise.nil, fun x hx => absurd hx List.not_mem_nil⟩
  | cons x rest ih =>
    obtain ⟨hx, hnodup'⟩ := List.nodup_cons.mp hnodup
    obtain ⟨hxle, hsorted'⟩ := List.pairwise_cons.mp hsorted
    rw [guiBufferShiftNumbers]
    split
    · rename_i hgt
      refine ⟨fun _ _ => rfl, hsorted, fun y hy => ?_⟩
      rcases List.mem_cons.mp hy with rfl | hy
      · omega
      · have := hxle y hy
        omega
    · have hother : ∀ y ∈ rest, Function.update number x (number x + 1) y = number y := fun y hy =>
        Function.update_of_ne (ne_of_mem_of_not_mem hy hx) ..
      obtain ⟨hframe, hpairwise, hge⟩ := ih (Function.update number x (number x + 1)) x hnodup'
        (hsorted'.imp_of_mem fun {y z} hy hz hyz => by rw [hother y hy, hother z hz]; exact hyz)
        (fun y hy => by
          have := hxle y hy
          rw [hother y hy, Function.update_self]
          omega)
      rw [Function.update_self] at hge
      have hself := hframe x hx
      rw [Function.update_self] at hself
      have hlex := hle x List.mem_cons_self
      refine ⟨fun y hy => ?_, List.pairwise_cons.mpr ⟨fun y hy => ?_, hpairwise⟩, fun y hy => ?_⟩
      · rw [List.mem_cons, not_or] at hy
        rw [hframe y hy.2, Function.update_of_ne hy.1]
      · rw [hself]
        exact hge y hy
      · rcases List.mem_cons.mp hy with rfl | hy
        · rw [hself]
          exact hlex
        · have := hge y hy
          omega

/-- Numbers that are shifted from that of `prev` on are greater than it. -/
theorem shiftNumbers_gt {rest : List Buffer} {number : Buffer → Int} {prev : Buffer} (hnodup : rest.Nodup)
    (hsorted : rest.Pairwise fun x y => number x ≤ number y) (hle : ∀ x ∈ rest, number prev ≤ number x) :
    ∀ x ∈ rest, number prev < guiBufferShiftNumbers number prev rest x := by
  cases rest with
  | nil => exact fun x hx => absurd hx List.not_mem_nil
  | cons x rest =>
    obtain ⟨hx, hnodup'⟩ := List.nodup_cons.mp hnodup
    obtain ⟨hxle, hsorted'⟩ := List.pairwise_cons.mp hsorted
    have hlex := hle x List.mem_cons_self
    intro y hy
    rw [guiBufferShiftNumbers]
    split
    · rcases List.mem_cons.mp hy with rfl | hy
      · omega
      · have := hxle y hy
        omega
    · have hother : ∀ y ∈ rest, Function.update number x (number x + 1) y = number y := fun y hy =>
        Function.update_of_ne (ne_of_mem_of_not_mem hy hx) ..
      obtain ⟨hframe, -, hge⟩ := shiftNumbers_ok rest (Function.update number x (number x + 1)) x hnodup'
        (hsorted'.imp_of_mem fun {y z} hy hz hyz => by rw [hother y hy, hother z hz]; exact hyz)
        (fun y hy => by
          have := hxle y hy
          rw [hother y hy, Function.update_self]
          omega)
      rw [Function.update_self] at hge
      rcases List.mem_cons.mp hy with rfl | hy
      · rw [hframe y hx, Function.update_self]
        omega
      · have := hge y hy
        omega

/-! ## A buffer that is unmerged -/

omit [DecidableEq Buffer] in
/-- A buffer with a number between those of the buffers around it. -/
theorem alone_ok {buffers' : GuiBuffers Buffer} {pre post : List Buffer} (hok : BuffersOk buffers)
    (hperm : buffers'.guiBuffers.Perm buffers.guiBuffers)
    (hvisited : buffers'.guiBuffersVisited = buffers.guiBuffersVisited)
    (halone : AloneAt buffers' buffer pre post) (hpre : pre.Pairwise fun x y => buffers'.number x ≤ buffers'.number y)
    (hpost : post.Pairwise fun x y => buffers'.number x ≤ buffers'.number y) : BuffersOk buffers' where
  nodup := hperm.nodup_iff.mpr hok.nodup
  sorted := by
    rw [halone.split, List.pairwise_append, List.pairwise_cons]
    refine ⟨hpre, ⟨fun y hy => (halone.after y hy).le, hpost⟩, fun x hx y hy => ?_⟩
    rcases List.mem_cons.mp hy with rfl | hy
    · exact (halone.before x hx).le
    · exact ((halone.before x hx).trans (halone.after y hy)).le
  visitedNodup := hvisited ▸ hok.visitedNodup
  visitedOpen := fun x hx => hperm.mem_iff.mpr (hok.visitedOpen x (hvisited ▸ hx))

omit [DecidableEq Buffer] in
/-- The numbers of the buffers after the one that gets a number, when the next one may have it already. -/
theorem next_greater {number : Buffer → Int} {post : List Buffer} {prev : Buffer}
    (hpost : post.Pairwise fun x y => number x ≤ number y) (hge : ∀ x ∈ post, number prev ≤ number x)
    (hhead : ¬ post.head?.any (fun next => number next = number prev) = true) : ∀ x ∈ post, number prev < number x := by
  cases post with
  | nil => exact fun x hx => absurd hx List.not_mem_nil
  | cons y post =>
    have hne : number y ≠ number prev := by simpa using hhead
    have hy := hge y List.mem_cons_self
    intro x hx
    rcases List.mem_cons.mp hx with rfl | hx
    · omega
    · have := (List.pairwise_cons.mp hpost).1 x hx
      omega

theorem unmergeNumbers_ok {number : Buffer → Int} {post : List Buffer} (hnodup : (buffer :: post).Nodup)
    (hpost : post.Pairwise fun x y => number x ≤ number y) (hge : ∀ x ∈ post, number buffer ≤ number x) :
    ∃ number', (if post.head?.any (fun next => number next = number buffer) then guiBufferShiftNumbers number buffer post
        else number) = number' ∧ (∀ x, x ∉ post → number' x = number x) ∧
      post.Pairwise (fun x y => number' x ≤ number' y) ∧ ∀ x ∈ post, number buffer < number' x := by
  refine ⟨_, rfl, ?_⟩
  have hpostnodup := (List.nodup_cons.mp hnodup).2
  split
  · obtain ⟨hframe, hshifted, -⟩ := shiftNumbers_ok post number buffer hpostnodup hpost fun x hx =>
      (hge x hx).trans (Int.le_add_one (Int.le_refl _))
    exact ⟨hframe, hshifted, shiftNumbers_gt hpostnodup hpost hge⟩
  · exact ⟨fun _ _ => rfl, hpost, next_greater hpost hge ‹_›⟩

/-- A buffer that is unmerged has a number of its own. -/
theorem unmerge_ok (hok : BuffersOk buffers) (hmem : buffer ∈ buffers.guiBuffers)
    (hcount : 1 < guiBufferCountMergedBuffers buffers (buffers.number buffer)) (bufferAutoRenumber : Bool)
    (number : Int) :
    BuffersOk (guiBufferUnmerge bufferAutoRenumber buffers buffer number) ∧
      (guiBufferUnmerge bufferAutoRenumber buffers buffer number).guiBuffers.Perm buffers.guiBuffers ∧
      ∃ before after, AloneAt (guiBufferUnmerge bufferAutoRenumber buffers buffer number) buffer before after := by
  have hlength : ¬ (buffers.guiBuffers.length < 2 ∨ guiBufferCountMergedBuffers buffers (buffers.number buffer) < 2) := by
    have hle := List.countP_le_length (p := fun x => decide (buffers.number x = buffers.number buffer)) (l := buffers.guiBuffers)
    rw [guiBufferCountMergedBuffers] at hcount ⊢
    omega
  rw [guiBufferUnmerge, if_neg hlength]
  cases hlast : buffers.guiBuffers.getLast? with
  | none => exact absurd hmem (List.getLast?_eq_none_iff.mp hlast ▸ List.not_mem_nil)
  | some lastGuiBuffer =>
    dsimp only
    generalize guiBufferUnmergeNumber bufferAutoRenumber (buffers.number buffer) (buffers.number lastGuiBuffer) number =
      number'
    obtain ⟨pre, post, hrest, hinsert, hpre, hhead⟩ := insertBefore_split
      (fun x => decide (buffers.number x ≥ number')) buffer (buffers.guiBuffers.erase buffer)
    have hperm : (pre ++ buffer :: post).Perm buffers.guiBuffers := by
      rw [← hinsert]
      exact (insertBefore_perm ..).trans (List.perm_cons_erase hmem).symm
    have hnodup := hperm.nodup_iff.mpr hok.nodup
    have hsorted := hok.sorted.sublist (List.erase_sublist (a := buffer))
    rw [hrest, List.pairwise_append] at hsorted
    obtain ⟨hprele, hpostle, -⟩ := hsorted
    obtain ⟨hnotpre, hnotpost⟩ := notMem_of_nodup hnodup
    rw [hinsert, around_eq hnodup rfl]
    dsimp only
    -- the numbers of the others are what they were
    have hself : Function.update buffers.number buffer number' buffer = number' := Function.update_self ..
    have hother : ∀ {x}, x ≠ buffer → Function.update buffers.number buffer number' x = buffers.number x := fun hx =>
      Function.update_of_ne hx ..
    have hge : ∀ x ∈ post, number' ≤ buffers.number x := by
      cases post with
      | nil => exact fun x hx => absurd hx List.not_mem_nil
      | cons y post =>
        have hy : number' ≤ buffers.number y := by simpa using hhead y rfl
        intro x hx
        rcases List.mem_cons.mp hx with rfl | hx
        · exact hy
        · exact hy.trans ((List.pairwise_cons.mp hpostle).1 x hx)
    obtain ⟨number'', heq, hframe, hshifted, hgt⟩ :=
      @unmergeNumbers_ok _ _ buffer (Function.update buffers.number buffer number') post (List.nodup_append.mp hnodup).2.1
        (hpostle.imp_of_mem fun hx hy hxy => by
          rwa [hother (ne_of_mem_of_not_mem hx hnotpost), hother (ne_of_mem_of_not_mem hy hnotpost)])
        (fun x hx => by
          rw [hself, hother (ne_of_mem_of_not_mem hx hnotpost)]
          exact hge x hx)
    rw [hself] at heq hgt
    rw [heq]
    have hbuffer : number'' buffer = number' := (hframe buffer hnotpost).trans hself
    have hprenumber : ∀ x ∈ pre, number'' x = buffers.number x := fun x hx => by
      have hx' : x ∉ post := fun hxp => (List.nodup_append.mp hnodup).2.2 x hx x (List.mem_cons_of_mem _ hxp) rfl
      rw [hframe x hx', hother (ne_of_mem_of_not_mem hx hnotpre)]
    have halone : AloneAt { buffers with guiBuffers := pre ++ buffer :: post, number := number'' } buffer pre post := by
      refine ⟨rfl, fun x hx => ?_, fun x hx => ?_⟩
      · dsimp only
        rw [hprenumber x hx, hbuffer]
        simpa using hpre x hx
      · dsimp only
        rw [hbuffer]
        exact hgt x hx
    refine ⟨alone_ok hok hperm rfl halone ?_ hshifted, hperm, pre, post, halone⟩
    exact hprele.imp_of_mem fun hx hy hxy => by
      dsimp only
      rwa [hprenumber _ hx, hprenumber _ hy]

/-! ## Visited buffers, and the buffer that is displayed next -/

/-- The same buffers with the same numbers; other buffers may have been visited. -/
structure SameBuffers (buffers buffers' : GuiBuffers Buffer) : Prop where
  guiBuffers : buffers'.guiBuffers = buffers.guiBuffers
  number : buffers'.number = buffers.number

theorem visitedAdd_ok (hok : BuffersOk buffers) (hmem : buffer ∈ buffers.guiBuffers) (maxVisitedBuffers : Nat) :
    BuffersOk (guiBufferVisitedAdd maxVisitedBuffers buffers buffer) where
  nodup := hok.nodup
  sorted := hok.sorted
  visitedNodup := by
    refine List.nodup_append.mpr ⟨(hok.visitedNodup.erase buffer).sublist (List.drop_sublist ..),
      List.nodup_singleton _, fun x hx y hy => ?_⟩
    rw [List.mem_singleton.mp hy]
    exact fun heq => hok.visitedNodup.not_mem_erase (heq ▸ List.mem_of_mem_drop hx)
  visitedOpen := fun x hx => by
    rcases List.mem_append.mp hx with hx | hx
    · exact hok.visitedOpen x (List.mem_of_mem_erase (List.mem_of_mem_drop hx))
    · exact List.mem_singleton.mp hx ▸ hmem

theorem mem_around {x : Buffer} (hnodup : buffers.guiBuffers.Nodup) (hmem : buffer ∈ buffers.guiBuffers)
    (hx : x ∈ (guiBuffersAround buffers buffer).1 ∨ x ∈ (guiBuffersAround buffers buffer).2) :
    x ∈ buffers.guiBuffers ∧ x ≠ buffer := by
  obtain ⟨before, after, hsplit⟩ := List.append_of_mem hmem
  have hnot := notMem_of_nodup (hsplit ▸ hnodup)
  rw [around_eq hnodup hsplit] at hx
  rw [hsplit, List.mem_append, List.mem_cons]
  rcases hx with hx | hx
  · exact ⟨.inl hx, ne_of_mem_of_not_mem hx hnot.1⟩
  · exact ⟨.inr (.inr hx), ne_of_mem_of_not_mem hx hnot.2⟩

/-- The next active buffer is another one. -/
theorem nextActive_other {env : GuiBufferEnv Buffer} {allowHiddenBuffer : Bool} {x : Buffer}
    (hnodup : buffers.guiBuffers.Nodup) (hmem : buffer ∈ buffers.guiBuffers)
    (hx : guiBufferGetNextActiveBuffer env buffers buffer allowHiddenBuffer = some x) :
    x ∈ buffers.guiBuffers ∧ x ≠ buffer := by
  refine mem_around hnodup hmem ?_
  rw [guiBufferGetNextActiveBuffer, Option.or_eq_some_iff] at hx
  rcases hx with hx | ⟨-, hx⟩
  · exact .inr (List.takeWhile_subset _ (List.mem_of_find?_eq_some hx))
  · exact .inl (List.mem_of_find?_eq_some hx)

/-- Another open buffer is displayed in place of one that is closed. -/
theorem toDisplay_other {backToBuffer visitedBuffer : Option Buffer} (hnodup : buffers.guiBuffers.Nodup)
    (hmem : buffer ∈ buffers.guiBuffers) (htwo : 2 ≤ buffers.guiBuffers.length)
    (hback : ∀ x ∈ backToBuffer, x ∈ buffers.guiBuffers ∧ x ≠ buffer)
    (hvisited : ∀ x ∈ visitedBuffer, x ∈ buffers.guiBuffers ∧ x ≠ buffer) :
    ∃ x, guiBufferToDisplay buffers backToBuffer visitedBuffer buffer = some x ∧ x ∈ buffers.guiBuffers ∧ x ≠ buffer := by
  rw [guiBufferToDisplay]
  cases backToBuffer with
  | some x => exact ⟨x, rfl, hback x rfl⟩
  | none =>
    cases visitedBuffer with
    | some x => exact ⟨x, rfl, hvisited x rfl⟩
    | none =>
      rw [Option.none_or, Option.none_or]
      cases hprev : (guiBuffersAround buffers buffer).1.getLast? with
      | some x => exact ⟨x, rfl, mem_around hnodup hmem (.inl (List.mem_of_getLast? hprev))⟩
      | none =>
        -- the buffer that is closed is the first one, and the last one is another one
        obtain ⟨before, after, hsplit⟩ := List.append_of_mem hmem
        rw [around_eq hnodup hsplit, List.getLast?_eq_none_iff] at hprev
        rw [Option.none_or, hsplit, show before = [] from hprev, List.nil_append]
        rw [hsplit, show before = [] from hprev, List.nil_append] at htwo hnodup
        obtain ⟨x, hx⟩ : ∃ x, after.getLast? = some x := by
          cases hafter : after.getLast? with
          | some x => exact ⟨x, rfl⟩
          | none =>
            rw [List.getLast?_eq_none_iff.mp hafter] at htwo
            exact absurd htwo (Nat.lt_irrefl 1)
        have hxmem := List.mem_of_getLast? hx
        refine ⟨x, ?_, List.mem_cons_of_mem _ hxmem, ne_of_mem_of_not_mem hxmem (List.nodup_cons.mp hnodup).1⟩
        rw [List.getLast?_cons, hx]
        rfl

/-! ## The list of buffers without one -/

/-- The buffers that stay when one with a number of its own is closed. -/
theorem bufferRemove_ok {env : GuiBufferEnv Buffer} {screen : GuiScreen Buffer} {before after : List Buffer}
    (hok : BuffersOk screen.buffers) (halone : AloneAt screen.buffers buffer before after) :
    BuffersOk (guiBufferRemove env screen buffer).buffers := by
  have hnodup : (before ++ buffer :: after).Nodup := halone.split ▸ hok.nodup
  have hguiBuffers : (guiBufferRemove env screen buffer).buffers.guiBuffers = before ++ after := by
    rw [← erase_eq hnodup, ← halone.split]
    rfl
  have haround : guiBuffersAround (guiBufferVisitedRemoveByBuffer screen.buffers buffer) buffer = (before, after) :=
    around_eq hok.nodup halone.split
  have hnumber : ∀ x, (guiBufferRemove env screen buffer).buffers.number x =
      if env.bufferAutoRenumber = true ∧ x ∈ after then screen.buffers.number x - 1 else screen.buffers.number x := by
    intro x
    dsimp only [guiBufferRemove]
    rw [haround]
    rfl
  have hsorted := hok.sorted
  rw [halone.split, List.pairwise_append, List.pairwise_cons] at hsorted
  obtain ⟨hbefore, ⟨-, hafter⟩, -⟩ := hsorted
  have hdisjoint : ∀ x ∈ before, x ∉ after := fun x hx hxa =>
    (List.nodup_append.mp hnodup).2.2 x hx x (List.mem_cons_of_mem _ hxa) rfl
  refine ⟨?_, ?_, hok.visitedNodup.erase buffer, fun x hx => ?_⟩
  · rw [hguiBuffers, ← erase_eq hnodup]
    exact hnodup.erase buffer
  · rw [hguiBuffers, List.pairwise_append]
    refine ⟨hbefore.imp_of_mem fun {x y} hx hy hxy => ?_, hafter.imp_of_mem fun {x y} hx hy hxy => ?_,
      fun x hx y hy => ?_⟩
    · rwa [hnumber, hnumber, if_neg fun h => hdisjoint x hx h.2, if_neg fun h => hdisjoint y hy h.2]
    · simp only [hnumber, hx, hy, and_true]
      split <;> omega
    · -- the numbers are one apart from that of the closed buffer at least
      have hlt := halone.before x hx
      have hgt := halone.after y hy
      rw [hnumber, hnumber, if_neg fun h => hdisjoint x hx h.2]
      split <;> omega
  · have hne : x ≠ buffer := fun heq => hok.visitedNodup.not_mem_erase (heq ▸ hx)
    exact (List.mem_erase_of_ne hne).mpr (hok.visitedOpen x (List.mem_of_mem_erase hx))

end Wirc

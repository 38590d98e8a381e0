import Mathlib.Data.List.Nodup
import WhoreIrc.Spec.GuiScreen

/-!
# Scroll lists of windows

What each function leaves of the list of its window: a structure is freed
(`scrollFree_ok`), those that are not scrolled (`removeNotScrolled_ok`), and the
list after a switch to a buffer starts with the structure of that buffer
(`scrollSwitch_ok`).
-/

namespace Wirc

open Framework

variable {Buffer : Type} {scrolls : GuiScrolls Buffer} {entries : Nat → List (Addr × GuiWindowScroll Buffer)}
  {window : Nat} {a : Addr} {d : GuiWindowScroll Buffer} {xs ys : List (Addr × GuiWindowScroll Buffer)}

/-- The pointers to the first structures, when the list of one window is changed. -/
theorem scroll_update (h : ScrollLists scrolls entries) (l : List (Addr × GuiWindowScroll Buffer)) (window' : Nat) :
    Function.update scrolls.scroll window (firstPtr l none) window' =
      firstPtr (Function.update entries window l window') none := by
  rcases eq_or_ne window' window with rfl | hne
  · rw [Function.update_self, Function.update_self]
  · rw [Function.update_of_ne hne, Function.update_of_ne hne, h.first]

theorem bound_update (h : ScrollLists scrolls entries) {l : List (Addr × GuiWindowScroll Buffer)} {allocated : Nat}
    (hallocated : scrolls.allocated ≤ allocated) (hl : l.length ≤ allocated) (window' : Nat) :
    (Function.update entries window l window').length ≤ allocated := by
  rcases eq_or_ne window' window with rfl | hne
  · rwa [Function.update_self]
  · rw [Function.update_of_ne hne]
    exact Nat.le_trans (h.bound window') hallocated

/-- A structure that comes later is not the first one. -/
theorem first_ne {x : Addr × GuiWindowScroll Buffer} (hn : (addrs (x :: xs ++ (a, d) :: ys)).Nodup) : x.1 ≠ a := by
  rintro rfl
  refine (List.nodup_cons.mp hn).1 (List.mem_map.mpr ⟨(x.1, d), ?_, rfl⟩)
  exact List.mem_append_right _ List.mem_cons_self

theorem scrollFree_ok (h : ScrollLists scrolls entries) (hb : entries window = xs ++ (a, d) :: ys) :
    ∃ scrolls', guiWindowScrollFree scrolls window a = some scrolls' ∧
      ScrollLists scrolls' (Function.update entries window (xs ++ ys)) ∧ scrolls'.allocated = scrolls.allocated := by
  have hs := h.linked.linked window
  have hn := h.linked.nodup window
  rw [hb] at hs hn
  have hnode := (seg_append.mp hs).2.1
  have hfirst := h.first window
  rw [hb] at hfirst
  have hfree : guiWindowScrollFree scrolls window a = some { scrolls with
      memory := ((scrolls.memory.setNext (lastPtr none xs) (firstPtr ys none)).setPrev (firstPtr ys none)
        (lastPtr none xs)).free a
      scroll := if scrolls.scroll window = some a then Function.update scrolls.scroll window (firstPtr ys none)
        else scrolls.scroll } := by
    rw [guiWindowScrollFree, hnode]
  refine ⟨_, hfree, ⟨h.linked.unlink hb, fun window' => ?_, fun c hc => ?_, ?_⟩, rfl⟩
  · dsimp only
    cases xs with
    | nil =>
      rw [if_pos (show scrolls.scroll window = some a from hfirst)]
      exact scroll_update h ys window'
    | cons x xs =>
      have hne : x.1 ≠ a := first_ne hn
      rw [if_neg fun heq => hne (Option.some.inj (hfirst.symm.trans heq)), ← scroll_update h, List.cons_append,
        firstPtr_cons]
      rw [List.cons_append, firstPtr_cons] at hfirst
      rw [← hfirst, Function.update_eq_self]
  · have hnone := h.fresh c hc
    by_cases hca : c = a
    · exact hca ▸ Function.update_self ..
    · dsimp only
      rw [Heap.free_of_ne hca, Heap.setPrev_eq_none, Heap.setNext_eq_none]
      exact hnone
  · refine bound_update h (Nat.le_refl _) ?_
    have := h.bound window
    rw [hb] at this
    simp only [List.length_append, List.length_cons] at this ⊢
    omega

/-- The structures of a window are freed. -/
theorem scrollFreeAll_ok (h : ScrollLists scrolls entries) {rounds : Nat} (hrounds : (entries window).length ≤ rounds) :
    ∃ scrolls', guiWindowScrollFreeAll window rounds scrolls = some scrolls' ∧
      ScrollLists scrolls' (Function.update entries window []) ∧ scrolls'.allocated = scrolls.allocated := by
  generalize hb : entries window = l at hrounds
  induction l generalizing scrolls entries rounds with
  | nil =>
    have hfirst := h.first window
    rw [hb] at hfirst
    refine ⟨scrolls, ?_, by rwa [← hb, Function.update_eq_self], rfl⟩
    unfold guiWindowScrollFreeAll
    rw [hfirst]
    rfl
  | cons x l ih =>
    obtain ⟨rounds, rfl⟩ : ∃ n, rounds = n + 1 := ⟨rounds - 1, by simp only [List.length_cons] at hrounds; omega⟩
    have hfirst := h.first window
    rw [hb, firstPtr_cons] at hfirst
    obtain ⟨scrolls₁, hfree, h₁, hallocated₁⟩ := scrollFree_ok h (show entries window = [] ++ (x.1, x.2) :: l from hb)
    rw [List.nil_append] at h₁
    obtain ⟨scrolls', hloop, h', hallocated⟩ := ih h₁ (Function.update_self ..) (by simpa using hrounds)
    rw [Function.update_idem] at h'
    refine ⟨scrolls', ?_, h', hallocated.trans hallocated₁⟩
    unfold guiWindowScrollFreeAll
    rw [hfirst]
    dsimp only
    rw [hfree, Option.bind_some, hloop]

/-- The loop of `gui_window_scroll_remove_not_scrolled`, with `xs` before it. -/
theorem removeNotScrolledLoop_ok (h : ScrollLists scrolls entries) (hb : entries window = xs ++ ys) {rounds : Nat}
    (hrounds : ys.length ≤ rounds) : ∃ scrolls', guiWindowScrollRemoveLoop window rounds scrolls (firstPtr ys none) =
      some scrolls' ∧ scrolls'.allocated = scrolls.allocated ∧ ScrollLists scrolls'
        (Function.update entries window (xs ++ ys.filter fun x => x.2.pos ≠ guiWindowScrollInitPos)) := by
  induction ys generalizing scrolls entries xs rounds with
  | nil =>
    refine ⟨scrolls, ?_, rfl, ?_⟩
    · cases rounds <;> rfl
    · rwa [List.filter_nil, ← hb, Function.update_eq_self]
  | cons y ys ih =>
    obtain ⟨rounds, rfl⟩ : ∃ n, rounds = n + 1 := ⟨rounds - 1, by simp only [List.length_cons] at hrounds; omega⟩
    have hrounds' : ys.length ≤ rounds := by simpa using hrounds
    have hs := h.linked.linked window
    rw [hb, seg_append] at hs
    rw [firstPtr_cons, guiWindowScrollRemoveLoop, hs.2.1]
    dsimp only
    by_cases hpos : y.2.pos = guiWindowScrollInitPos
    · obtain ⟨scrolls₁, hfree, h₁, hallocated₁⟩ := scrollFree_ok h (show entries window = xs ++ (y.1, y.2) :: ys from hb)
      obtain ⟨scrolls', hloop, hallocated, h'⟩ := ih h₁ (Function.update_self ..) hrounds'
      rw [Function.update_idem] at h'
      rw [if_pos hpos, hfree, Option.bind_some, List.filter_cons_of_neg (by simpa using hpos)]
      exact ⟨scrolls', hloop, hallocated.trans hallocated₁, h'⟩
    · have happend : xs ++ y :: ys = (xs ++ [y]) ++ ys := by simp
      obtain ⟨scrolls', hloop, hallocated, h'⟩ := ih h (hb.trans happend) hrounds'
      rw [if_neg hpos, List.filter_cons_of_pos (by simpa using hpos)]
      refine ⟨scrolls', hloop, hallocated, ?_⟩
      rw [List.append_assoc] at h'
      exact h'

theorem removeNotScrolled_ok (h : ScrollLists scrolls entries) {x : Addr × GuiWindowScroll Buffer}
    (hb : entries window = x :: xs) : ∃ scrolls', guiWindowScrollRemoveNotScrolled scrolls window = some scrolls' ∧
      scrolls'.allocated = scrolls.allocated ∧ ScrollLists scrolls'
        (Function.update entries window (x :: xs.filter fun y => y.2.pos ≠ guiWindowScrollInitPos)) := by
  have hs := h.linked.linked window
  have hfirst := h.first window
  have hbound := h.bound window
  rw [hb] at hs hfirst hbound
  obtain ⟨scrolls', hloop, hallocated, h'⟩ := removeNotScrolledLoop_ok h (show entries window = [x] ++ xs from hb)
    (Nat.le_trans (Nat.le_succ _) hbound)
  refine ⟨scrolls', ?_, hallocated, h'⟩
  rw [guiWindowScrollRemoveNotScrolled, hfirst, firstPtr_cons, Option.bind_some, hs.1]
  exact hloop

/-- A new structure at the beginning. -/
theorem scrollAddFirst_ok (h : ScrollLists scrolls entries) (window : Nat) (buffer : Buffer) :
    ScrollLists (guiWindowScrollAddFirst scrolls window buffer) (Function.update entries window
      ((scrolls.allocated, ⟨buffer, guiWindowScrollInitPos⟩) :: entries window)) := by
  have hfree := h.fresh scrolls.allocated (Nat.le_refl _)
  have hinsert := h.linked.insert (show entries window = [] ++ entries window from rfl) hfree
    ⟨buffer, guiWindowScrollInitPos⟩
  rw [lastPtr_nil, List.nil_append, ← h.first] at hinsert
  refine ⟨hinsert, fun window' => ?_, fun c hc => ?_, bound_update h (Nat.le_succ _) ?_⟩
  · rw [← scroll_update h]
    rfl
  · have hlt : scrolls.allocated < c := hc
    dsimp only [guiWindowScrollAddFirst]
    rw [Heap.setPrev_eq_none, Heap.store_of_ne (Nat.ne_of_gt hlt)]
    exact h.fresh c hlt.le
  · rw [List.length_cons]
    exact Nat.succ_le_succ (h.bound window)

/-- A list of one structure for a window that has none. -/
theorem scrollNew_ok (h : ScrollLists scrolls entries) (hb : entries window = []) (buffer : Buffer) :
    ScrollLists (guiWindowScrollNew scrolls window buffer) (Function.update entries window
      [(scrolls.allocated, ⟨buffer, guiWindowScrollInitPos⟩)]) := by
  have hnew := scrollAddFirst_ok h window buffer
  have hfirst := h.first window
  rw [hb, firstPtr_nil] at hfirst
  rwa [hb, guiWindowScrollAddFirst, hfirst] at hnew

/-- A structure becomes the first one. -/
theorem scrollMoveFirst_ok (h : ScrollLists scrolls entries) (hb : entries window = xs ++ (a, d) :: ys) (h0 : xs ≠ []) :
    ∃ node, scrolls.memory a = some node ∧
      ScrollLists (guiWindowScrollMoveFirst scrolls window a node) (Function.update entries window ((a, d) :: (xs ++ ys))) := by
  have hs := h.linked.linked window
  rw [hb, seg_append] at hs
  have hfirst := h.first window
  rw [hb, firstPtr_append] at hfirst
  have hxs : firstPtr xs (firstPtr ((a, d) :: ys) none) = firstPtr xs none := by
    cases xs with
    | nil => exact absurd rfl h0
    | cons x xs => rfl
  have hmove := h.linked.moveFirst hb h0
  rw [← hxs, ← hfirst] at hmove
  refine ⟨_, hs.2.1, hmove, fun window' => ?_, fun c hc => ?_, bound_update h (Nat.le_refl _) ?_⟩
  · rw [← scroll_update h]
    rfl
  · dsimp only [guiWindowScrollMoveFirst] at hc ⊢
    rw [Heap.setNext_eq_none, Heap.setPrev_eq_none, Heap.setPrev_eq_none, Heap.setPrev_eq_none, Heap.setNext_eq_none]
    exact h.fresh c hc
  · have hbound := h.bound window
    rw [hb] at hbound
    refine Nat.le_trans (Nat.le_of_eq ?_) hbound
    simp only [List.length_append, List.length_cons, Nat.add_assoc]

/-- What is scrolled in a structure is changed. -/
theorem scrollSetPos_ok (h : ScrollLists scrolls entries) (hb : entries window = xs ++ (a, d) :: ys)
    (f : GuiWindowScrollPos → GuiWindowScrollPos) : ∃ scrolls', guiWindowScrollSetPos scrolls a f = some scrolls' ∧
      ScrollLists scrolls' (Function.update entries window (xs ++ (a, { d with pos := f d.pos }) :: ys)) := by
  have hs := h.linked.linked window
  have hfirst := h.first window
  rw [hb] at hs hfirst
  have hnode := (seg_append.mp hs).2.1
  have hset : guiWindowScrollSetPos scrolls a f = some { scrolls with
      memory := scrolls.memory.setData a { d with pos := f d.pos } } := by
    rw [guiWindowScrollSetPos, hnode]
  refine ⟨_, hset, h.linked.setData hb, fun window' => ?_, fun c hc => ?_, bound_update h (Nat.le_refl _) ?_⟩
  · rw [← scroll_update h, ← show firstPtr (xs ++ (a, d) :: ys) none = firstPtr (xs ++ (a, { d with pos := f d.pos }) :: ys) none by
      rw [firstPtr_append, firstPtr_append]; rfl, ← hfirst, Function.update_eq_self]
  · dsimp only
    rw [Heap.setData, Heap.modify_eq_none]
    exact h.fresh c hc
  · have := h.bound window
    rw [hb] at this
    simpa using this

variable [DecidableEq Buffer]

/-- `gui_window_scroll_search` finds the structure for the buffer. -/
theorem scrollSearch_eq (h : ScrollLists scrolls entries) (window : Nat) (buffer : Buffer) :
    guiWindowScrollSearch scrolls window buffer =
      some (((entries window).find? fun x => x.2.buffer = buffer).map Prod.fst) := by
  rw [guiWindowScrollSearch, h.first]
  exact (h.linked.linked window).find (h.bound window)

/-- The structures for other buffers. -/
theorem filter_of_split {l : List (Addr × GuiWindowScroll Buffer)} {z : Addr × GuiWindowScroll Buffer} {buffer : Buffer}
    (hone : (l.map fun y => y.2.buffer).Nodup) (hsplit : l = xs ++ z :: ys) (hbuffer : z.2.buffer = buffer) :
    (l.filter fun z => z.2.buffer ≠ buffer) = xs ++ ys := by
  rw [hsplit] at hone ⊢
  rw [List.map_append, List.map_cons, List.nodup_middle, List.nodup_cons, ← List.map_append, hbuffer] at hone
  rw [List.filter_append, List.filter_cons_of_neg (by simpa using hbuffer), ← List.filter_append,
    List.filter_eq_self.mpr]
  intro y hy
  simpa using fun heq => hone.1 (List.mem_map.mpr ⟨y, hy, heq⟩)

/-- The structure of the buffer comes first, and the others are those of other buffers that are kept. -/
theorem scrollSwitch_ok (h : ScrollLists scrolls entries) {x : Addr × GuiWindowScroll Buffer}
    (hb : entries window = x :: xs) (hone : ((entries window).map fun y => y.2.buffer).Nodup) (buffer : Buffer) :
    ∃ scrolls' y kept, guiWindowScrollSwitch scrolls window buffer = some scrolls' ∧
      ScrollLists scrolls' (Function.update entries window (y :: kept)) ∧ y.2.buffer = buffer ∧
      kept.Sublist ((entries window).filter fun z => z.2.buffer ≠ buffer) := by
  have hfirst := h.first window
  rw [hb, firstPtr_cons] at hfirst
  rw [guiWindowScrollSwitch, scrollSearch_eq h]
  cases hfind : (entries window).find? fun y => y.2.buffer = buffer with
  | none =>
    have hself : ((entries window).filter fun z => z.2.buffer ≠ buffer) = entries window := by
      refine List.filter_eq_self.mpr fun y hy => ?_
      simpa using List.find?_eq_none.mp hfind y hy
    have hadd := scrollAddFirst_ok h window buffer
    obtain ⟨scrolls', hremove, -, h'⟩ := removeNotScrolled_ok hadd (Function.update_self ..)
    rw [Function.update_idem] at h'
    refine ⟨scrolls', _, _, ?_, h', rfl, ?_⟩
    · rw [Option.map_none]
      dsimp only
      rw [hfirst]
      exact hremove
    · rw [hself]
      exact List.filter_sublist
  | some z =>
    obtain ⟨hbuffer, before, after, hsplit, -⟩ := List.find?_eq_some_iff_append.mp hfind
    have hbuffer : z.2.buffer = buffer := by simpa using hbuffer
    have hothers : (before ++ after).Sublist ((entries window).filter fun z => z.2.buffer ≠ buffer) := by
      rw [filter_of_split hone hsplit hbuffer]
    rw [Option.map_some]
    dsimp only
    cases before with
    | nil =>
      obtain ⟨rfl, rfl⟩ := List.cons.inj (hb.symm.trans hsplit)
      refine ⟨scrolls, x, xs, if_pos hfirst, ?_, hbuffer, hothers⟩
      rwa [← hb, Function.update_eq_self]
    | cons y before =>
      obtain ⟨rfl, -⟩ := List.cons.inj (hb.symm.trans hsplit)
      have hn := h.linked.nodup window
      rw [hsplit] at hn
      have hne : x.1 ≠ z.1 := first_ne (d := z.2) hn
      obtain ⟨node, hnode, hmove⟩ := scrollMoveFirst_ok h (show entries window = (x :: before) ++ (z.1, z.2) :: after from hsplit)
        (List.cons_ne_nil _ _)
      obtain ⟨scrolls', hremove, -, h'⟩ := removeNotScrolled_ok hmove (Function.update_self ..)
      rw [Function.update_idem] at h'
      refine ⟨scrolls', _, _, ?_, h', hbuffer, List.filter_sublist.trans hothers⟩
      rw [if_neg fun heq => hne (Option.some.inj (hfirst.symm.trans heq)), hnode]
      exact hremove

theorem scrollRemoveBuffer_ok (h : ScrollLists scrolls entries)
    (hone : ((entries window).map fun y => y.2.buffer).Nodup)
    (buffer : Buffer) : ∃ scrolls', guiWindowScrollRemoveBuffer scrolls window buffer = some scrolls' ∧
      ScrollLists scrolls' (Function.update entries window ((entries window).filter fun z => z.2.buffer ≠ buffer)) := by
  rw [guiWindowScrollRemoveBuffer, scrollSearch_eq h]
  cases hfind : (entries window).find? fun y => y.2.buffer = buffer with
  | none =>
    have hself : ((entries window).filter fun z => z.2.buffer ≠ buffer) = entries window := by
      refine List.filter_eq_self.mpr fun y hy => ?_
      simpa using List.find?_eq_none.mp hfind y hy
    refine ⟨scrolls, rfl, ?_⟩
    rwa [hself, Function.update_eq_self]
  | some z =>
    obtain ⟨hbuffer, before, after, hsplit, -⟩ := List.find?_eq_some_iff_append.mp hfind
    obtain ⟨scrolls', hfree, h', -⟩ := scrollFree_ok h (show entries window = before ++ (z.1, z.2) :: after from hsplit)
    refine ⟨scrolls', hfree, ?_⟩
    rwa [filter_of_split hone hsplit (by simpa using hbuffer)]

end Wirc

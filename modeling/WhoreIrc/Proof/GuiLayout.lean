import Mathlib.Data.List.Nodup
import WhoreIrc.Proof.GuiWindow
import WhoreIrc.Proof.GuiWindows

/-!
# A layout is restored (`guiLayout_roundtrip_iff`)

`rebuilt` is the tree that the splits of a layout make of one window, when all of
them succeed: `applyTree_fits` by induction on the layout, with the rest of the
tree around the window. When a split fails, there are fewer windows than in the
layout (`applyTree_count`).
-/

namespace Wirc

open Framework

namespace GuiWindowTree

variable {Buffer W W' : Type} {window : Nat} {tree : GuiWindowTree (GuiWindow Buffer)}

theorem search_of_nodup (h : tree.names.Nodup) {w : GuiWindow Buffer} (hw : w ∈ tree.windows) :
    tree.search w.window = some w := by
  obtain ⟨w', hw'⟩ := search_of_mem (List.mem_map_of_mem (f := GuiWindow.window) hw)
  obtain ⟨hmem, heq⟩ := search_some hw'
  rw [hw', List.inj_on_of_nodup_map h hmem hw heq]

theorem modify_eq_replace (h : tree.names.Nodup) {w : GuiWindow Buffer} (hw : tree.search window = some w)
    (f : GuiWindow Buffer → GuiWindow Buffer) : tree.modify window f = tree.replace window (leaf (f w)) := by
  induction tree with
  | leaf w' =>
    obtain ⟨hmem, rfl⟩ := search_some hw
    cases List.mem_singleton.mp hmem
    rw [replace, if_pos rfl, modify, map, if_pos rfl]
  | node splitPct splitHorizontal child1 child2 ih1 ih2 =>
    rw [names_node] at h
    obtain ⟨h1, h2, hdisjoint⟩ := List.nodup_append.mp h
    rw [search, Option.or_eq_some_iff] at hw
    have hmodify : (node splitPct splitHorizontal child1 child2).modify window f =
        node splitPct splitHorizontal (child1.modify window f) (child2.modify window f) := rfl
    rw [hmodify, replace]
    rcases hw with hw | ⟨-, hw⟩
    · have hnot : window ∉ child2.names := fun h => hdisjoint _ (mem_names_of_search hw) _ h rfl
      rw [ih1 h1 hw, modify_of_notMem hnot, replace_of_notMem hnot]
    · have hnot : window ∉ child1.names := fun h => hdisjoint _ h _ (mem_names_of_search hw) rfl
      rw [ih2 h2 hw, modify_of_notMem hnot, replace_of_notMem hnot]

/-- Trees of the same shape, with related windows. -/
def Forall₂ (R : W → W' → Prop) : GuiWindowTree W → GuiWindowTree W' → Prop
  | .leaf window, .leaf window' => R window window'
  | .node splitPct splitHorizontal child1 child2, .node splitPct' splitHorizontal' child1' child2' =>
    splitPct = splitPct' ∧ splitHorizontal = splitHorizontal' ∧ Forall₂ R child1 child1' ∧ Forall₂ R child2 child2'
  | _, _ => False

theorem map_eq_map_iff {W'' : Type} {f : W → W''} {g : W' → W''} {tree : GuiWindowTree W} {tree' : GuiWindowTree W'} :
    tree.map f = tree'.map g ↔ Forall₂ (fun x y => f x = g y) tree tree' := by
  induction tree generalizing tree' with
  | leaf window => cases tree' <;> simp [map, Forall₂]
  | node splitPct splitHorizontal child1 child2 ih1 ih2 => cases tree' <;> simp [map, Forall₂, ih1, ih2]

theorem Forall₂.imp {R S : W → W' → Prop} {tree : GuiWindowTree W} {tree' : GuiWindowTree W'} (h : Forall₂ R tree tree')
    (himp : ∀ x, ∀ y ∈ tree'.windows, R x y → S x y) : Forall₂ S tree tree' := by
  induction tree generalizing tree' with
  | leaf window =>
    cases tree' with
    | leaf window' => exact himp _ _ (List.mem_singleton_self _) h
    | node splitPct splitHorizontal child1 child2 => exact h
  | node splitPct splitHorizontal child1 child2 ih1 ih2 =>
    cases tree' with
    | leaf window' => exact h
    | node splitPct' splitHorizontal' child1' child2' =>
      obtain ⟨hpct, hhorizontal, h1, h2⟩ := h
      exact ⟨hpct, hhorizontal, ih1 h1 fun x y hy => himp x y (List.mem_append_left _ hy),
        ih2 h2 fun x y hy => himp x y (List.mem_append_right _ hy)⟩

theorem Forall₂.and {R S : W → W' → Prop} {tree : GuiWindowTree W} {tree' : GuiWindowTree W'} (h : Forall₂ R tree tree')
    (h' : Forall₂ S tree tree') : Forall₂ (fun x y => R x y ∧ S x y) tree tree' := by
  induction tree generalizing tree' with
  | leaf window =>
    cases tree' with
    | leaf window' => exact ⟨h, h'⟩
    | node splitPct splitHorizontal child1 child2 => exact h
  | node splitPct splitHorizontal child1 child2 ih1 ih2 =>
    cases tree' with
    | leaf window' => exact h
    | node splitPct' splitHorizontal' child1' child2' =>
      exact ⟨h.1, h.2.1, ih1 h.2.2.1 h'.2.2.1, ih2 h.2.2.2 h'.2.2.2⟩

theorem Forall₂.right {P : W' → Prop} {tree : GuiWindowTree W} {tree' : GuiWindowTree W'}
    (h : Forall₂ (fun _ y => P y) tree tree') : ∀ y ∈ tree'.windows, P y := by
  induction tree generalizing tree' with
  | leaf window =>
    cases tree' with
    | leaf window' =>
      intro y hy
      rw [List.mem_singleton.mp hy]
      exact h
    | node splitPct splitHorizontal child1 child2 => exact absurd h id
  | node splitPct splitHorizontal child1 child2 ih1 ih2 =>
    cases tree' with
    | leaf window' => exact absurd h id
    | node splitPct' splitHorizontal' child1' child2' =>
      intro y hy
      rcases List.mem_append.mp hy with hy | hy
      · exact ih1 h.2.2.1 y hy
      · exact ih2 h.2.2.2 y hy

theorem map_self {f : W → W} {tree : GuiWindowTree W} (h : ∀ window ∈ tree.windows, f window = window) :
    tree.map f = tree := by
  induction tree with
  | leaf window => exact congrArg leaf (h window (List.mem_singleton_self _))
  | node splitPct splitHorizontal child1 child2 ih1 ih2 =>
    rw [map, ih1 fun window hw => h window (List.mem_append_left _ hw),
      ih2 fun window hw => h window (List.mem_append_right _ hw)]

theorem names_pos (tree : GuiWindowTree (GuiWindow Buffer)) : 0 < tree.names.length := by
  induction tree with
  | leaf window => exact Nat.one_pos
  | node splitPct splitHorizontal child1 child2 ih1 ih2 =>
    rw [names_node, List.length_append]
    omega

theorem leaf_of_length {tree : GuiWindowTree (GuiWindow Buffer)} (h : tree.names.length < 2) : ∃ w, tree = leaf w := by
  cases tree with
  | leaf window => exact ⟨window, rfl⟩
  | node splitPct splitHorizontal child1 child2 =>
    have h1 := names_pos child1
    have h2 := names_pos child2
    rw [names_node, List.length_append] at h
    omega

end GuiWindowTree

variable {Buffer : Type} {look : GuiWindowLook} {area : Rect} {pluginName name : Buffer → Str}

/-! ## Splits of a tree that can be laid out -/

theorem splitPos_horizontal {percentage : Int} {pos newPos oldPos : GuiWindowPos}
    (h : guiWindowSplitHorizontalPos look percentage pos = some (newPos, oldPos)) :
    newPos.winWidthPct = 100 ∧ newPos.winHeightPct = percentage ∧ 0 < percentage := by
  simp only [guiWindowSplitHorizontalPos, Option.ite_none_right_eq_some, Option.some.injEq, Prod.mk.injEq] at h
  obtain ⟨⟨-, -, hpct, -⟩, rfl, -⟩ := h
  exact ⟨rfl, rfl, hpct⟩

theorem splitPos_vertical {percentage : Int} {pos newPos oldPos : GuiWindowPos}
    (h : guiWindowSplitVerticalPos look percentage pos = some (newPos, oldPos)) :
    newPos.winWidthPct = percentage ∧ percentage ≠ 100 ∧ 0 < percentage := by
  simp only [guiWindowSplitVerticalPos, Option.ite_none_right_eq_some, Option.some.injEq, Prod.mk.injEq] at h
  obtain ⟨⟨-, -, hpct, hlt⟩, rfl, -⟩ := h
  exact ⟨rfl, Int.ne_of_lt hlt, hpct⟩

/-- The node that a split makes is that of the layout. -/
theorem splitPos_node {splitHoriz : Bool} {splitPct : Int} {pos newPos oldPos : GuiWindowPos}
    (h : guiLayoutSplitPos look splitHoriz splitPct pos = some (newPos, oldPos)) :
    decide (newPos.winWidthPct = 100) = splitHoriz ∧
      (if newPos.winWidthPct = 100 then newPos.winHeightPct else newPos.winWidthPct) = splitPct ∧ splitPct ≠ 0 := by
  cases splitHoriz with
  | true =>
    obtain ⟨hwidth, hheight, hpct⟩ := splitPos_horizontal h
    rw [hwidth, hheight]
    exact ⟨rfl, rfl, by omega⟩
  | false =>
    obtain ⟨hwidth, hne, hpct⟩ := splitPos_vertical h
    rw [hwidth, if_neg hne, decide_eq_false_iff_not]
    exact ⟨hne, rfl, by omega⟩

/-- A part of a size that is neither empty nor the whole. -/
theorem percentage_bounds {size percentage : Int} (h1 : 0 < (size * percentage).tdiv 100)
    (h2 : 0 < size - (size * percentage).tdiv 100) : 0 < percentage ∧ percentage < 100 := by
  have hsize : 0 ≤ size := by omega
  constructor
  · by_contra hle
    have hneg : size * percentage ≤ 0 := Int.mul_nonpos_of_nonneg_of_nonpos hsize (by omega)
    have := Int.tdiv_le_tdiv (show (0 : Int) < 100 by decide) hneg
    rw [Int.zero_tdiv] at this
    omega
  · by_contra hge
    have hle : size * 100 ≤ size * percentage := Int.mul_le_mul_of_nonneg_left (by omega) hsize
    have := Int.tdiv_le_tdiv (show (0 : Int) < 100 by decide) hle
    rw [Int.mul_tdiv_cancel _ (by decide)] at this
    omega

/-- The splits of a tree that can be laid out succeed in its area. -/
theorem laidOut_fits (tree : GuiWindowTree (GuiWindow Buffer)) (currentWindow : Nat)
    (internalId internalIdCurrentWindow : Int)
    {parent : Option GuiWindowParent} {area : Rect} {pos : GuiWindowPos} (hwidth : pos.winWidth = area.width)
    (hheight : pos.winHeight = area.height)
    (h : (guiWindowAutoResize look true parent (tree.map GuiWindow.pos) area).1 = 0) :
    (1 ≤ area.width ∧ 2 ≤ area.height) ∧ LayoutFits look
      (guiLayoutWindowStoreTree pluginName name currentWindow tree internalId internalIdCurrentWindow).layoutWindows pos := by
  induction tree generalizing internalId internalIdCurrentWindow parent area pos with
  | leaf w => exact ⟨(autoResize_leaf h).1, trivial⟩
  | node splitPct splitHorizontal child1 child2 ih1 ih2 =>
    rw [guiLayoutWindowStoreTree, LayoutFits]
    cases splitHorizontal with
    | true =>
      obtain ⟨separator, hseparator⟩ : ∃ separator : Int, separator = if look.separatorHorizontal then 1 else 0 := ⟨_, rfl⟩
      obtain ⟨height1, hheight1⟩ : ∃ height1, height1 = ((area.height - separator) * splitPct).tdiv 100 := ⟨_, rfl⟩
      have hareas : guiWindowSplitAreas look splitPct true area =
          (⟨area.x, area.y + height1 + separator, area.width, area.height - height1 - separator⟩,
            ⟨area.x, area.y, area.width, height1⟩) := by
        rw [hheight1, hseparator]
        rfl
      obtain ⟨h1, h2, -⟩ := autoResize_node h hareas
      obtain ⟨⟨hw, hh1⟩, hfits1⟩ := @ih1 (internalId + 1) internalIdCurrentWindow _
        ⟨area.x, area.y + height1 + separator, area.width, area.height - height1 - separator⟩ { pos with
        winY := pos.winY + height1, winHeight := area.height - height1 - separator, winHeightPct := 100 - splitPct }
        hwidth rfl (autoResize_zero h1)
      obtain ⟨⟨-, hh2⟩, hfits2⟩ := @ih2 _ _ _ ⟨area.x, area.y, area.width, height1⟩
        ⟨pos.winX, pos.winY, pos.winWidth, height1, 100, splitPct⟩ hwidth rfl
        (autoResize_zero h2)
      dsimp only at hw hh1 hh2
      obtain ⟨hpct, hlt⟩ := @percentage_bounds (area.height - separator) splitPct (by omega) (by omega)
      have hsep : 0 ≤ separator := by
        rw [hseparator]
        split <;> decide
      refine ⟨⟨hw, by omega⟩, _, _, ?_, hfits1, hfits2⟩
      rw [guiLayoutSplitPos, if_pos rfl, guiWindowSplitHorizontalPos, hheight, ← hseparator, ← hheight1]
      exact if_pos ⟨hh2, hh1, hpct, hlt⟩
    | false =>
      obtain ⟨separator, hseparator⟩ : ∃ separator : Int, separator = if look.separatorVertical then 1 else 0 := ⟨_, rfl⟩
      obtain ⟨width1, hwidth1⟩ : ∃ width1, width1 = (area.width * splitPct).tdiv 100 := ⟨_, rfl⟩
      have hareas : guiWindowSplitAreas look splitPct false area =
          (⟨area.x, area.y, width1, area.height⟩,
            ⟨area.x + width1 + separator, area.y, area.width - width1 - separator, area.height⟩) := by
        rw [hwidth1, hseparator]
        rfl
      obtain ⟨h1, h2, -⟩ := autoResize_node h hareas
      obtain ⟨⟨hw1, hh⟩, hfits1⟩ := @ih1 (internalId + 1) internalIdCurrentWindow _
        ⟨area.x, area.y, width1, area.height⟩ { pos with winWidth := width1, winWidthPct := 100 - splitPct }
        rfl hheight (autoResize_zero h1)
      obtain ⟨⟨hw2, -⟩, hfits2⟩ := @ih2 _ _ _
        ⟨area.x + width1 + separator, area.y, area.width - width1 - separator, area.height⟩
        ⟨pos.winX + width1 + separator, pos.winY, area.width - width1 - separator, pos.winHeight, splitPct, 100⟩
        rfl hheight (autoResize_zero h2)
      dsimp only at hw1 hh hw2
      have hsep : 0 ≤ separator := by
        rw [hseparator]
        split <;> decide
      obtain ⟨hpct, hlt⟩ := @percentage_bounds area.width splitPct (by omega) (by omega)
      refine ⟨⟨by omega, hh⟩, _, _, ?_, hfits1, hfits2⟩
      rw [guiLayoutSplitPos, if_neg Bool.false_ne_true, guiWindowSplitVerticalPos, hwidth, ← hseparator, ← hwidth1]
      exact if_pos ⟨hw1, hw2, hpct, hlt⟩

/-! ## The tree of a layout -/

/-- The tree that the splits of a layout make of a window, and how many windows are created then. -/
def rebuilt (look : GuiWindowLook) : GuiLayoutWindow → GuiWindow Buffer → (created : Nat) →
    GuiWindowTree (GuiWindow Buffer) × Nat
  | .leaf _ pluginName bufferName, window, created =>
    (.leaf { window with layoutPluginName := some pluginName, layoutBufferName := some bufferName }, created)
  | .node _ splitPct splitHoriz child1 child2, window, created =>
    match guiLayoutSplitPos look splitHoriz splitPct window.pos with
    | none => (.leaf window, created)
    | some (newPos, pos) =>
      let tree2 := rebuilt look child2 ⟨created, newPos, window.buffer, none, none⟩ (created + 1)
      let tree1 := rebuilt look child1 { window with pos } tree2.2
      (.node splitPct splitHoriz tree1.1 tree2.1, tree1.2)

/-- The window in the leaf with an internal id. -/
def markedWindow (id : Int) : GuiLayoutWindow → GuiWindowTree (GuiWindow Buffer) → Option Nat
  | .leaf internalId _ _, .leaf window => if internalId = id then some window.window else none
  | .node _ _ _ layout1 layout2, .node _ _ child1 child2 =>
    (markedWindow id layout1 child1).or (markedWindow id layout2 child2)
  | _, _ => none

/-- The windows are the given one and new ones. -/
theorem names_rebuilt (layout : GuiLayoutWindow) (w : GuiWindow Buffer) (created : Nat) :
    created ≤ (rebuilt look layout w created).2 ∧
      ∀ name ∈ (rebuilt look layout w created).1.names, name = w.window ∨ created ≤ name ∧ name < (rebuilt look layout w created).2 := by
  induction layout generalizing w created with
  | leaf internalId pluginName bufferName =>
    exact ⟨Nat.le_refl _, fun name hname => .inl (List.mem_singleton.mp hname)⟩
  | node internalId splitPct splitHoriz child1 child2 ih1 ih2 =>
    unfold rebuilt
    cases hsplit : guiLayoutSplitPos look splitHoriz splitPct w.pos with
    | none => exact ⟨Nat.le_refl _, fun name hname => .inl (List.mem_singleton.mp hname)⟩
    | some positions =>
      obtain ⟨newPos, pos⟩ := positions
      dsimp only
      obtain ⟨hle2, hnames2⟩ := ih2 ⟨created, newPos, w.buffer, none, none⟩ (created + 1)
      obtain ⟨hle1, hnames1⟩ := ih1 { w with pos }
        (rebuilt look child2 ⟨created, newPos, w.buffer, none, none⟩ (created + 1)).2
      refine ⟨by omega, fun name hname => ?_⟩
      rw [GuiWindowTree.names_node, List.mem_append] at hname
      rcases hname with hname | hname
      · refine (hnames1 name hname).imp_right fun h => ?_
        omega
      · refine .inr ?_
        have := hnames2 name hname
        dsimp only at this
        omega

theorem nodup_rebuilt (layout : GuiLayoutWindow) (w : GuiWindow Buffer) (created : Nat) (hw : w.window < created) :
    (rebuilt look layout w created).1.names.Nodup := by
  induction layout generalizing w created with
  | leaf internalId pluginName bufferName => exact List.pairwise_singleton _ _
  | node internalId splitPct splitHoriz child1 child2 ih1 ih2 =>
    unfold rebuilt
    cases hsplit : guiLayoutSplitPos look splitHoriz splitPct w.pos with
    | none => exact List.pairwise_singleton _ _
    | some positions =>
      obtain ⟨newPos, pos⟩ := positions
      dsimp only
      have h2 := @names_rebuilt _ look child2 ⟨created, newPos, w.buffer, none, none⟩ (created + 1)
      have h1 := @names_rebuilt _ look child1 { w with pos }
        (rebuilt look child2 ⟨created, newPos, w.buffer, none, none⟩ (created + 1)).2
      rw [GuiWindowTree.names_node, List.nodup_append]
      refine ⟨ih1 _ _ (by dsimp only; omega), ih2 _ _ (Nat.lt_succ_self _), fun name1 hname1 name2 hname2 heq => ?_⟩
      have hin1 := h1.2 name1 hname1
      have hin2 := h2.2 name2 hname2
      dsimp only at hin1 hin2
      omega

/-- The splits of a layout, with a tree around the current window. -/
theorem applyTree_fits (layout : GuiLayoutWindow) (id : Int) {state : GuiWindows Buffer} (h : WindowsOk state)
    {w : GuiWindow Buffer} (hw : state.tree.search state.currentWindow = some w) (hfits : LayoutFits look layout w.pos)
    (currentWindow : Option Nat) :
    ∃ state', guiLayoutWindowApplyTree look id layout state currentWindow =
        some (state', (markedWindow id layout (rebuilt look layout w state.created).1).or currentWindow) ∧
      state'.tree = state.tree.replace state.currentWindow (rebuilt look layout w state.created).1 ∧
      state'.currentWindow = state.currentWindow ∧ state'.created = (rebuilt look layout w state.created).2 ∧
      WindowsOk state' := by
  induction layout generalizing state w currentWindow with
  | leaf internalId pluginName bufferName =>
    obtain ⟨-, hwindow⟩ := GuiWindowTree.search_some hw
    refine ⟨guiWindowSetLayoutNames state state.currentWindow (some pluginName) (some bufferName), ?_,
      GuiWindowTree.modify_eq_replace h.nodup hw _, rfl, rfl, windowsOk_tree h ?_⟩
    · rw [guiLayoutWindowApplyTree, rebuilt, markedWindow, hwindow]
      split <;> rfl
    · refine GuiWindowTree.names_modify ?_ _
      exact fun _ => rfl
  | node internalId splitPct splitHoriz child1 child2 ih1 ih2 =>
    obtain ⟨-, hwindow⟩ := GuiWindowTree.search_some hw
    have hmem := GuiWindowTree.mem_names_of_search hw
    obtain ⟨newPos, pos, hsplit, hfits1, hfits2⟩ := hfits
    obtain ⟨hhoriz, hpct, hne⟩ := splitPos_node hsplit
    obtain ⟨splitPct', splitHoriz', rfl, rfl, hrun⟩ := split_eq h hw hsplit
    rw [hhoriz, hpct] at hrun
    have hok := windowsOk_split h hrun
    have hfresh : state.created ∉ state.tree.names := fun hmem => Nat.lt_irrefl _ (h.created _ hmem)
    have hcreated : state.currentWindow < state.created := h.created _ hmem
    -- the second child, in the new window
    obtain ⟨state₂, hrun₂, htree₂, hcurrent₂, hcreated₂, hok₂⟩ := @ih2 _ hok
      ⟨state.created, newPos, w.buffer, none, none⟩
      (by
        dsimp only
        rw [GuiWindowTree.search_replace hmem (.inl hfresh), GuiWindowTree.search, GuiWindowTree.search,
          if_neg (by dsimp only; omega), GuiWindowTree.search, if_pos rfl, Option.none_or]) hfits2 currentWindow
    dsimp only at htree₂ hcreated₂ hrun₂
    rw [GuiWindowTree.replace_replace (.inl hfresh), GuiWindowTree.replace, GuiWindowTree.replace,
      if_neg (by dsimp only; omega), GuiWindowTree.replace, if_pos rfl] at htree₂
    have hnames2 := (@names_rebuilt _ look child2 ⟨state.created, newPos, w.buffer, none, none⟩ (state.created + 1)).2
    generalize hsub2 : rebuilt look child2 ⟨state.created, newPos, w.buffer, none, none⟩ (state.created + 1) = sub2 at *
    have hnot2 : state.currentWindow ∉ sub2.1.names := fun hname => by
      have := hnames2 _ hname
      dsimp only at this
      omega
    -- the first child, in the old one
    have hw₂ : state₂.tree.search state.currentWindow = some { w with pos } := by
      rw [htree₂, GuiWindowTree.search_replace hmem (.inr rfl), GuiWindowTree.search, GuiWindowTree.search,
        if_pos hwindow,
        Option.some_or]
    have hok₃ : WindowsOk { state₂ with currentWindow := state.currentWindow } :=
      ⟨hok₂.nodup, hok₂.created, hok₂.list, GuiWindowTree.mem_names_of_search hw₂⟩
    obtain ⟨state₄, hrun₄, htree₄, hcurrent₄, hcreated₄, hok₄⟩ := @ih1 _ hok₃ _ hw₂ hfits1
      ((markedWindow id child2 sub2.1).or currentWindow)
    dsimp only at htree₄ hcreated₄ hrun₄
    rw [hcreated₂] at htree₄ hcreated₄
    rw [htree₂, GuiWindowTree.replace_replace (.inr rfl), GuiWindowTree.replace, GuiWindowTree.replace, if_pos hwindow,
      GuiWindowTree.replace_of_notMem hnot2] at htree₄
    have hrebuilt : rebuilt look (.node internalId splitPct splitHoriz child1 child2) w state.created =
        (.node splitPct splitHoriz (rebuilt look child1 { w with pos } sub2.2).1 sub2.1,
          (rebuilt look child1 { w with pos } sub2.2).2) := by
      rw [rebuilt, hsplit]
      dsimp only
      rw [hsub2]
    refine ⟨state₄, ?_, by rw [htree₄, hrebuilt], hcurrent₄, by rw [hcreated₄, hrebuilt], hok₄⟩
    rw [guiLayoutWindowApplyTree, if_pos hne, hrebuilt, markedWindow, hrun]
    simp only [Option.bind_eq_bind, Option.bind_some, hrun₂, guiWindowSwitch, hw₂, Option.map_some, Option.or_assoc]
    rw [← hcreated₂]
    exact hrun₄

/-! ## The layout of a tree -/

/-- The windows have the names of the buffers that were displayed. -/
theorem rebuilt_names (tree : GuiWindowTree (GuiWindow Buffer)) (currentWindow : Nat)
    (internalId internalIdCurrentWindow : Int) (w : GuiWindow Buffer) (created : Nat)
    (hfits : LayoutFits look (guiLayoutWindowStoreTree pluginName name currentWindow tree internalId
      internalIdCurrentWindow).layoutWindows w.pos) :
    ((rebuilt look (guiLayoutWindowStoreTree pluginName name currentWindow tree internalId
      internalIdCurrentWindow).layoutWindows w created).1.map fun x => (x.layoutPluginName, x.layoutBufferName)) =
      tree.map fun x => (some (pluginName x.buffer), some (name x.buffer)) := by
  induction tree generalizing internalId internalIdCurrentWindow w created with
  | leaf window => rfl
  | node splitPct splitHorizontal child1 child2 ih1 ih2 =>
    rw [guiLayoutWindowStoreTree] at hfits ⊢
    obtain ⟨newPos, pos, hsplit, hfits1, hfits2⟩ := hfits
    rw [rebuilt, hsplit]
    dsimp only [GuiWindowTree.map]
    rw [@ih1 _ _ { w with pos } _ hfits1, @ih2 _ _ ⟨created, newPos, w.buffer, none, none⟩ _ hfits2]

/-- The internal id of the current window is one of those of the windows. -/
theorem store_ids (tree : GuiWindowTree (GuiWindow Buffer)) (currentWindow : Nat)
    (internalId internalIdCurrentWindow : Int) :
    let layout := guiLayoutWindowStoreTree pluginName name currentWindow tree internalId internalIdCurrentWindow
    internalId < layout.internalId ∧
      (currentWindow ∈ tree.names →
        internalId ≤ layout.internalIdCurrentWindow ∧ layout.internalIdCurrentWindow < layout.internalId) ∧
      (currentWindow ∉ tree.names → layout.internalIdCurrentWindow = internalIdCurrentWindow) := by
  induction tree generalizing internalId internalIdCurrentWindow with
  | leaf window =>
    dsimp only [guiLayoutWindowStoreTree]
    rw [GuiWindowTree.names_leaf, List.mem_singleton]
    refine ⟨by omega, fun h => ?_, fun h => if_neg (Ne.symm h)⟩
    rw [if_pos h.symm]
    omega
  | node splitPct splitHorizontal child1 child2 ih1 ih2 =>
    dsimp only [guiLayoutWindowStoreTree] at ih1 ih2 ⊢
    rw [GuiWindowTree.names_node, List.mem_append, not_or]
    obtain ⟨hlt1, hin1, hnot1⟩ := ih1 (internalId + 1) internalIdCurrentWindow
    generalize guiLayoutWindowStoreTree pluginName name currentWindow child1 (internalId + 1) internalIdCurrentWindow =
      layout1 at *
    obtain ⟨hlt2, hin2, hnot2⟩ := ih2 layout1.internalId layout1.internalIdCurrentWindow
    refine ⟨by omega, fun h => ?_, fun h => (hnot2 h.2).trans (hnot1 h.1)⟩
    by_cases h2 : currentWindow ∈ child2.names
    · have := hin2 h2
      omega
    · rw [hnot2 h2]
      have := hin1 (h.resolve_right h2)
      omega

/-- Other ids are not those of windows of the tree. -/
theorem markedWindow_none (tree : GuiWindowTree (GuiWindow Buffer)) (currentWindow : Nat)
    (internalId internalIdCurrentWindow id : Int)
    (hid : id < internalId ∨ (guiLayoutWindowStoreTree pluginName name currentWindow tree internalId
      internalIdCurrentWindow).internalId ≤ id) (sub : GuiWindowTree (GuiWindow Buffer)) :
    markedWindow id (guiLayoutWindowStoreTree pluginName name currentWindow tree internalId
      internalIdCurrentWindow).layoutWindows sub = none := by
  induction tree generalizing internalId internalIdCurrentWindow sub with
  | leaf window =>
    cases sub with
    | leaf window' =>
      refine if_neg fun heq => ?_
      dsimp only [guiLayoutWindowStoreTree] at hid
      omega
    | node splitPct splitHorizontal child1 child2 => rfl
  | node splitPct splitHorizontal child1 child2 ih1 ih2 =>
    cases sub with
    | leaf window' => rfl
    | node splitPct' splitHorizontal' sub1 sub2 =>
      have h1 := (@store_ids _ pluginName name child1 currentWindow (internalId + 1) internalIdCurrentWindow).1
      dsimp only [guiLayoutWindowStoreTree] at hid ⊢
      have h2 := (@store_ids _ pluginName name child2 currentWindow (guiLayoutWindowStoreTree pluginName name currentWindow child1
        (internalId + 1) internalIdCurrentWindow).internalId (guiLayoutWindowStoreTree pluginName name currentWindow child1
        (internalId + 1) internalIdCurrentWindow).internalIdCurrentWindow).1
      rw [markedWindow, ih1 _ _ (by omega), ih2 _ _ (by omega)]
      rfl

/-- No window of a tree is this one. -/
theorem map_notMem {tree : GuiWindowTree (GuiWindow Buffer)} {window : Nat} (h : window ∉ tree.names) :
    (tree.map fun x => decide (x.window = window)) = tree.map fun _ => false :=
  GuiWindowTree.map_congr fun _ hx => decide_eq_false fun heq => h (heq ▸ List.mem_map_of_mem hx)

/-- A rebuilt tree has the nodes of the tree. -/
theorem rebuilt_false {tree sub : GuiWindowTree (GuiWindow Buffer)}
    (h : (sub.map fun x => (x.layoutPluginName, x.layoutBufferName)) =
      tree.map fun x => (some (pluginName x.buffer), some (name x.buffer))) :
    (sub.map fun _ => false) = tree.map fun _ => false := by
  have hmap := congrArg (GuiWindowTree.map fun _ => false) h
  rwa [GuiWindowTree.map_map, GuiWindowTree.map_map] at hmap

/-- The window that is marked is in the place of the current one. -/
theorem markedWindow_some (tree : GuiWindowTree (GuiWindow Buffer)) (currentWindow : Nat)
    (internalId internalIdCurrentWindow : Int) (w : GuiWindow Buffer) (created : Nat) (hw : w.window < created)
    (hfits : LayoutFits look (guiLayoutWindowStoreTree pluginName name currentWindow tree internalId
      internalIdCurrentWindow).layoutWindows w.pos) (hnodup : tree.names.Nodup) (hmem : currentWindow ∈ tree.names) :
    let layout := guiLayoutWindowStoreTree pluginName name currentWindow tree internalId internalIdCurrentWindow
    let sub := (rebuilt look layout.layoutWindows w created).1
    ∃ marked, markedWindow layout.internalIdCurrentWindow layout.layoutWindows sub = some marked ∧ marked ∈ sub.names ∧
      (sub.map fun x => decide (x.window = marked)) = tree.map fun x => decide (x.window = currentWindow) := by
  induction tree generalizing internalId internalIdCurrentWindow w created with
  | leaf window =>
    have hwindow : window.window = currentWindow := (List.mem_singleton.mp hmem).symm
    refine ⟨w.window, ?_, List.mem_singleton_self _, ?_⟩
    · dsimp only [guiLayoutWindowStoreTree, rebuilt, markedWindow]
      rw [if_pos hwindow, if_pos rfl]
    · dsimp only [guiLayoutWindowStoreTree, rebuilt, GuiWindowTree.map]
      rw [decide_eq_true rfl, decide_eq_true hwindow]
  | node splitPct splitHorizontal child1 child2 ih1 ih2 =>
    rw [GuiWindowTree.names_node] at hnodup hmem
    obtain ⟨hnodup1, hnodup2, hdisjoint⟩ := List.nodup_append.mp hnodup
    have hids1 := @store_ids _ pluginName name child1 currentWindow (internalId + 1) internalIdCurrentWindow
    have hnone1 := @markedWindow_none _ pluginName name child1 currentWindow (internalId + 1) internalIdCurrentWindow
    have hnames1 := @rebuilt_names _ look pluginName name child1 currentWindow (internalId + 1) internalIdCurrentWindow
    have hsome1 := @ih1 (internalId + 1) internalIdCurrentWindow
    have hnodup' := @nodup_rebuilt _ look (guiLayoutWindowStoreTree pluginName name currentWindow
      (.node splitPct splitHorizontal child1 child2) internalId internalIdCurrentWindow).layoutWindows w created hw
    dsimp only [guiLayoutWindowStoreTree] at hfits hnodup' hsome1 ⊢
    generalize guiLayoutWindowStoreTree pluginName name currentWindow child1 (internalId + 1) internalIdCurrentWindow =
      layout1 at *
    have hids2 := @store_ids _ pluginName name child2 currentWindow layout1.internalId layout1.internalIdCurrentWindow
    have hnames2 := @rebuilt_names _ look pluginName name child2 currentWindow layout1.internalId
      layout1.internalIdCurrentWindow
    have hsome2 := @ih2 layout1.internalId layout1.internalIdCurrentWindow
    dsimp only at hsome2
    generalize guiLayoutWindowStoreTree pluginName name currentWindow child2 layout1.internalId
      layout1.internalIdCurrentWindow = layout2 at *
    obtain ⟨newPos, pos, hsplit, hfits1, hfits2⟩ := hfits
    rw [rebuilt, hsplit] at hnodup' ⊢
    dsimp only at hnodup' ⊢
    have hle2 := (@names_rebuilt _ look layout2.layoutWindows ⟨created, newPos, w.buffer, none, none⟩ (created + 1)).1
    replace hnames2 := hnames2 ⟨created, newPos, w.buffer, none, none⟩ (created + 1) hfits2
    replace hsome2 := hsome2 ⟨created, newPos, w.buffer, none, none⟩ (created + 1) (Nat.lt_succ_self _) hfits2 hnodup2
    generalize rebuilt look layout2.layoutWindows ⟨created, newPos, w.buffer, none, none⟩ (created + 1) = sub2 at *
    replace hnames1 := hnames1 { w with pos } sub2.2 hfits1
    replace hsome1 := hsome1 { w with pos } sub2.2 (by dsimp only; omega) hfits1 hnodup1
    generalize rebuilt look layout1.layoutWindows { w with pos } sub2.2 = sub1 at *
    rw [GuiWindowTree.names_node, List.nodup_append] at hnodup'
    rw [markedWindow, GuiWindowTree.names_node]
    simp only [GuiWindowTree.map]
    by_cases h1 : currentWindow ∈ child1.names
    · have h2 : currentWindow ∉ child2.names := fun h2 => hdisjoint _ h1 _ h2 rfl
      obtain ⟨marked, hmarked, hin, hmap⟩ := hsome1 h1
      rw [hids2.2.2 h2, hmarked, map_notMem h2]
      refine ⟨marked, rfl, List.mem_append_left _ hin, ?_⟩
      rw [hmap, map_notMem fun hin2 => hnodup'.2.2 _ hin _ hin2 rfl, rebuilt_false hnames2]
    · have h2 : currentWindow ∈ child2.names := (List.mem_append.mp hmem).resolve_left h1
      obtain ⟨marked, hmarked, hin, hmap⟩ := hsome2 h2
      rw [hnone1 layout2.internalIdCurrentWindow (.inr (hids2.2.1 h2).1), hmarked, map_notMem h1]
      refine ⟨marked, rfl, List.mem_append_right _ hin, ?_⟩
      rw [hmap, map_notMem fun hin1 => hnodup'.2.2 _ hin1 _ hin rfl, rebuilt_false hnames1]

/-! ## Splits that fail -/

/-- The splits of a layout. -/
def GuiLayoutWindow.nodes : GuiLayoutWindow → Nat
  | .leaf .. => 0
  | .node _ _ _ child1 child2 => child1.nodes + child2.nodes + 1

theorem store_nodes (tree : GuiWindowTree (GuiWindow Buffer)) (currentWindow : Nat)
    (internalId internalIdCurrentWindow : Int) :
    (guiLayoutWindowStoreTree pluginName name currentWindow tree internalId internalIdCurrentWindow).layoutWindows.nodes + 1 =
      tree.names.length := by
  induction tree generalizing internalId internalIdCurrentWindow with
  | leaf window => rfl
  | node splitPct splitHorizontal child1 child2 ih1 ih2 =>
    rw [GuiWindowTree.names_node, List.length_append, ← ih1 (internalId + 1) internalIdCurrentWindow,
      ← ih2 (guiLayoutWindowStoreTree pluginName name currentWindow child1 (internalId + 1)
        internalIdCurrentWindow).internalId (guiLayoutWindowStoreTree pluginName name currentWindow child1 (internalId + 1)
        internalIdCurrentWindow).internalIdCurrentWindow]
    dsimp only [guiLayoutWindowStoreTree, GuiLayoutWindow.nodes]
    omega

/-- Where the windows are after the splits of a layout in the current window, and
whether all of them succeeded. -/
structure LayoutApplied (look : GuiWindowLook) (layout : GuiLayoutWindow) (state state' : GuiWindows Buffer)
    (w : GuiWindow Buffer) : Prop where
  windows : WindowsOk state'
  current : state'.currentWindow = state.currentWindow
  others : ∀ window ∈ state.tree.names, window ≠ state.currentWindow →
    state'.tree.search window = state.tree.search window
  count : state'.tree.names.length ≤ state.tree.names.length + layout.nodes
  fits : state'.tree.names.length = state.tree.names.length + layout.nodes → LayoutFits look layout w.pos

/-- The other windows are still there. -/
theorem LayoutApplied.mem {layout : GuiLayoutWindow} {state state' : GuiWindows Buffer} {w : GuiWindow Buffer}
    (h : LayoutApplied look layout state state' w) {window : Nat} (hmem : window ∈ state.tree.names)
    (hne : window ≠ state.currentWindow) : window ∈ state'.tree.names := by
  obtain ⟨w', hw'⟩ := GuiWindowTree.search_of_mem hmem
  exact GuiWindowTree.mem_names_of_search ((h.others window hmem hne).trans hw')

theorem setLayoutNames_ok {state : GuiWindows Buffer} (h : WindowsOk state) {w : GuiWindow Buffer}
    (hw : state.tree.search state.currentWindow = some w) (layoutPluginName layoutBufferName : Option Str) :
    let state' := guiWindowSetLayoutNames state state.currentWindow layoutPluginName layoutBufferName
    WindowsOk state' ∧ state'.tree.names.length = state.tree.names.length ∧
      ∀ window, window ≠ state.currentWindow → state'.tree.search window = state.tree.search window := by
  have hnames : (guiWindowSetLayoutNames state state.currentWindow layoutPluginName layoutBufferName).tree.names =
      state.tree.names := by
    refine GuiWindowTree.names_modify ?_ _
    exact fun _ => rfl
  refine ⟨windowsOk_tree h hnames, by rw [hnames], fun window hne => ?_⟩
  dsimp only [guiWindowSetLayoutNames]
  rw [GuiWindowTree.modify_eq_replace h.nodup hw]
  refine GuiWindowTree.search_replace_of_ne hne ?_
  rw [GuiWindowTree.names_leaf, List.mem_singleton, (GuiWindowTree.search_some hw).2]
  exact hne

/-- A window that is split: the new one takes the place next to it, and the others stay. -/
theorem split_windows {split : GuiWindowPos → Option (GuiWindowPos × GuiWindowPos)} {state state' : GuiWindows Buffer}
    (h : WindowsOk state) {w : GuiWindow Buffer} (hw : state.tree.search state.currentWindow = some w)
    {newPos pos : GuiWindowPos} (hpos : split w.pos = some (newPos, pos))
    (hsplit : guiWindowSplit split state state.currentWindow = some state') :
    state'.currentWindow = state.created ∧
      state'.tree.search state.created = some ⟨state.created, newPos, w.buffer, none, none⟩ ∧
      state'.tree.search state.currentWindow = some { w with pos } ∧
      (∀ window ∈ state.tree.names, window ≠ state.currentWindow →
        state'.tree.search window = state.tree.search window) ∧
      state'.tree.names.length = state.tree.names.length + 1 := by
  obtain ⟨splitPct, splitHoriz, -, -, hstate'⟩ := split_eq h hw hpos
  cases hstate'.symm.trans hsplit
  obtain ⟨-, hwindow⟩ := GuiWindowTree.search_some hw
  have hmem := GuiWindowTree.mem_names_of_search hw
  have hfresh : state.created ∉ state.tree.names := fun hmem => Nat.lt_irrefl _ (h.created _ hmem)
  have hcreated : state.currentWindow < state.created := h.created _ hmem
  refine ⟨rfl, ?_, ?_, fun window hmem' hne => ?_, ?_⟩
  · dsimp only
    rw [GuiWindowTree.search_replace hmem (.inl hfresh), GuiWindowTree.search, GuiWindowTree.search,
      if_neg (by dsimp only; omega), GuiWindowTree.search, if_pos rfl, Option.none_or]
  · dsimp only
    rw [GuiWindowTree.search_replace hmem (.inr rfl), GuiWindowTree.search, GuiWindowTree.search, if_pos hwindow,
      Option.some_or]
  · refine GuiWindowTree.search_replace_of_ne hne ?_
    simp only [GuiWindowTree.names_node, GuiWindowTree.names_leaf, List.singleton_append, List.mem_cons,
      List.not_mem_nil, or_false, hwindow, not_or]
    exact ⟨hne, fun heq => hfresh (heq ▸ hmem')⟩
  · have hlength := (@GuiWindowTree.names_replace _ state.currentWindow state.tree (.node splitPct splitHoriz
      (.leaf { w with pos }) (.leaf ⟨state.created, newPos, w.buffer, none, none⟩)) hmem h.nodup).length_eq
    have htwo : (GuiWindowTree.node splitPct splitHoriz (.leaf { w with pos })
        (.leaf ⟨state.created, newPos, w.buffer, none, none⟩)).names.length = 2 := rfl
    have hpositive := List.length_pos_of_mem hmem
    rw [List.length_append, List.length_erase_of_mem hmem, htwo] at hlength
    dsimp only
    omega

theorem applyTree_count (layout : GuiLayoutWindow) (id : Int) {state state' : GuiWindows Buffer} (h : WindowsOk state)
    {w : GuiWindow Buffer} (hw : state.tree.search state.currentWindow = some w)
    {currentWindow currentWindow' : Option Nat}
    (hrun : guiLayoutWindowApplyTree look id layout state currentWindow = some (state', currentWindow')) :
    LayoutApplied look layout state state' w := by
  induction layout generalizing state state' w currentWindow currentWindow' with
  | leaf internalId pluginName bufferName =>
    obtain ⟨hok, hlength, hothers⟩ := setLayoutNames_ok h hw (some pluginName) (some bufferName)
    cases hrun
    exact ⟨hok, rfl, fun window _ => hothers window, hlength.le, fun _ => trivial⟩
  | node internalId splitPct splitHoriz child1 child2 ih1 ih2 =>
    rw [guiLayoutWindowApplyTree] at hrun
    split at hrun
    · rename_i hpct
      simp only [Option.bind_eq_bind, Option.bind_eq_some_iff] at hrun
      obtain ⟨state₁, hsplit, ⟨state₂, currentWindow₂⟩, hrun₂, state₃, hswitch, hrun₃⟩ := hrun
      have hok₁ := windowsOk_split h hsplit
      obtain ⟨w₁, hw₁⟩ := GuiWindowTree.search_of_mem hok₁.current
      have happlied₂ := ih2 hok₁ hw₁ hrun₂
      obtain ⟨w₂, hw₂, rfl⟩ := Option.map_eq_some_iff.mp hswitch
      have hok₃ : WindowsOk { state₂ with currentWindow := state.currentWindow } :=
        ⟨happlied₂.windows.nodup, happlied₂.windows.created, happlied₂.windows.list,
          GuiWindowTree.mem_names_of_search hw₂⟩
      have happlied₃ := ih1 hok₃ hw₂ hrun₃
      have hcount₂ := happlied₂.count
      have hcount₃ := happlied₃.count
      dsimp only at hcount₃
      have hmem := GuiWindowTree.mem_names_of_search hw
      cases hpos : guiLayoutSplitPos look splitHoriz splitPct w.pos with
      | none =>
        -- the window is not split: there are too few of them at the end
        rw [guiWindowSplit, hw] at hsplit
        dsimp only at hsplit
        rw [hpos] at hsplit
        cases hsplit
        refine ⟨happlied₃.windows, happlied₃.current, fun window hwindow hne => ?_, ?_, fun heq => ?_⟩
        · rw [happlied₃.others window (happlied₂.mem hwindow hne) hne]
          exact happlied₂.others window hwindow hne
        · rw [GuiLayoutWindow.nodes]
          omega
        · rw [GuiLayoutWindow.nodes] at heq
          omega
      | some positions =>
        obtain ⟨newPos, pos⟩ := positions
        obtain ⟨hcurrent, hnew, hold, hothers₁, hlength⟩ := split_windows h hw hpos hsplit
        have hfresh : ∀ window ∈ state.tree.names, window ≠ state₁.currentWindow := fun window hmem' heq =>
          Nat.lt_irrefl _ (h.created _ (hcurrent ▸ heq ▸ hmem'))
        have hmem₁ : ∀ window ∈ state.tree.names, window ≠ state.currentWindow → window ∈ state₁.tree.names := by
          intro window hmem' hne
          obtain ⟨w', hw'⟩ := GuiWindowTree.search_of_mem hmem'
          exact GuiWindowTree.mem_names_of_search ((hothers₁ window hmem' hne).trans hw')
        -- the new window, and the old one
        rw [hcurrent] at hw₁
        cases hw₁.symm.trans hnew
        have hold₂ := happlied₂.others state.currentWindow (GuiWindowTree.mem_names_of_search hold) (hfresh _ hmem)
        cases hw₂.symm.trans (hold₂.trans hold)
        refine ⟨happlied₃.windows, happlied₃.current, fun window hmem' hne => ?_, ?_, fun heq => ?_⟩
        · have hne' := hfresh window hmem'
          rw [happlied₃.others window (happlied₂.mem (hmem₁ window hmem' hne) hne') hne,
            happlied₂.others window (hmem₁ window hmem' hne) hne', hothers₁ window hmem' hne]
        · rw [GuiLayoutWindow.nodes]
          omega
        · rw [GuiLayoutWindow.nodes] at heq
          refine ⟨newPos, pos, hpos, happlied₃.fits ?_, happlied₂.fits ?_⟩
          · dsimp only
            omega
          · omega
    · obtain ⟨hok, hlength, hothers⟩ := setLayoutNames_ok h hw none none
      cases hrun
      refine ⟨hok, rfl, fun window _ => hothers window, ?_, fun heq => ?_⟩
      · rw [hlength]
        exact Nat.le_add_right _ _
      · rw [hlength, GuiLayoutWindow.nodes] at heq
        omega

/-! ## Buffers that are assigned -/

section

variable {guiBuffers : List Buffer}

/-- A window with the buffer of the layout. -/
def assigned (pluginName name : Buffer → Str) (guiBuffers : List Buffer) (w : GuiWindow Buffer) : GuiWindow Buffer :=
  { w with buffer := (guiLayoutWindowBuffer pluginName name guiBuffers w).getD w.buffer }

theorem names_assigned (tree : GuiWindowTree (GuiWindow Buffer)) :
    (tree.map (assigned pluginName name guiBuffers)).names = tree.names := by
  refine GuiWindowTree.names_map ?_ tree
  exact fun _ => rfl

theorem assigned_assigned (w : GuiWindow Buffer) :
    assigned pluginName name guiBuffers (assigned pluginName name guiBuffers w) = assigned pluginName name guiBuffers w := by
  have hsame : guiLayoutWindowBuffer pluginName name guiBuffers (assigned pluginName name guiBuffers w) =
      guiLayoutWindowBuffer pluginName name guiBuffers w := rfl
  rw [assigned, hsame, assigned]
  cases guiLayoutWindowBuffer pluginName name guiBuffers w <;> rfl

theorem assignBuffer_eq {state : GuiWindows Buffer} (hnodup : state.tree.names.Nodup) {window : Nat}
    (hmem : window ∈ state.tree.names) :
    guiLayoutWindowAssignBuffer pluginName name guiBuffers state window = some { state with
      tree := state.tree.map fun x => if x.window = window then assigned pluginName name guiBuffers x else x } := by
  obtain ⟨w, hw⟩ := GuiWindowTree.search_of_mem hmem
  have hunique : ∀ x ∈ state.tree.windows, x.window = window → x = w := by
    rintro x hx rfl
    exact Option.some.inj ((GuiWindowTree.search_of_nodup hnodup hx).symm.trans hw)
  rw [guiLayoutWindowAssignBuffer, hw]
  dsimp only
  cases hbuffer : guiLayoutWindowBuffer pluginName name guiBuffers w with
  | none =>
    dsimp only
    rw [GuiWindowTree.map_self]
    intro x hx
    split
    · rw [hunique x hx ‹_›, assigned, hbuffer]
      rfl
    · rfl
  | some buffer =>
    dsimp only
    rw [guiWindowSetBuffer, hw, Option.map_some, GuiWindowTree.modify]
    congr 2
    refine GuiWindowTree.map_congr fun x hx => ?_
    split
    · rw [hunique x hx ‹_›, assigned, hbuffer]
      rfl
    · rfl

theorem assignBuffers_eq (windows : List Nat) {state : GuiWindows Buffer} (hnodup : state.tree.names.Nodup)
    (hmem : ∀ window ∈ windows, window ∈ state.tree.names) :
    windows.foldlM (guiLayoutWindowAssignBuffer pluginName name guiBuffers) state = some { state with
      tree := state.tree.map fun x => if x.window ∈ windows then assigned pluginName name guiBuffers x else x } := by
  induction windows generalizing state with
  | nil =>
    rw [GuiWindowTree.map_self fun x _ => if_neg List.not_mem_nil]
    rfl
  | cons window windows ih =>
    have hnames : (state.tree.map fun x => if x.window = window then assigned pluginName name guiBuffers x else x).names =
        state.tree.names := GuiWindowTree.names_map (fun x => by split <;> rfl) _
    rw [List.foldlM_cons, assignBuffer_eq hnodup (hmem window List.mem_cons_self), Option.bind_eq_bind,
      Option.bind_some,
      ih (by dsimp only; rw [hnames]; exact hnodup)
        (fun x hx => by dsimp only; rw [hnames]; exact hmem x (List.mem_cons_of_mem _ hx))]
    dsimp only
    rw [GuiWindowTree.map_map]
    congr 2
    refine GuiWindowTree.map_congr fun x _ => ?_
    by_cases hx : x.window = window
    · simp only [Function.comp, assigned_assigned, ite_self, hx, List.mem_cons, true_or, if_true]
    · simp only [Function.comp, List.mem_cons, hx, if_false, false_or]

theorem assignAllBuffers_eq {state : GuiWindows Buffer} (h : WindowsOk state) :
    guiLayoutWindowAssignAllBuffers pluginName name guiBuffers state = some { state with
      tree := state.tree.map (assigned pluginName name guiBuffers) } := by
  rw [guiLayoutWindowAssignAllBuffers, assignBuffers_eq _ h.nodup fun window hw => h.list.mem_iff.mp hw]
  congr 2
  exact GuiWindowTree.map_congr fun x hx => if_pos (h.list.mem_iff.mpr (List.mem_map_of_mem hx))

/-! ## The layout is applied -/

/-- The window that is split: it takes the whole area, or there was one window only. -/
theorem mergeAll_leaf {state : GuiWindows Buffer} (h : WindowsOk state) : ∃ state' w,
    guiWindowMergeAll area state state.currentWindow = some state' ∧ WindowsOk state' ∧ state'.tree = .leaf w ∧
      state'.currentWindow = w.window ∧
      (2 ≤ state.guiWindows.length ∧ w.pos.winWidth = area.width ∧ w.pos.winHeight = area.height ∨
        state.guiWindows.length < 2 ∧ state.tree = .leaf w) := by
  obtain ⟨w, hw⟩ := GuiWindowTree.search_of_mem h.current
  obtain ⟨-, hwindow⟩ := GuiWindowTree.search_some hw
  rcases Nat.lt_or_ge state.guiWindows.length 2 with hlt | hge
  · have hrun : guiWindowMergeAll area state state.currentWindow = some state := by
      rw [guiWindowMergeAll, hw]
      exact if_neg (by omega)
    obtain ⟨w', htree⟩ := GuiWindowTree.leaf_of_length (h.list.length_eq ▸ hlt)
    have hcurrent := h.current
    rw [htree, GuiWindowTree.names_leaf, List.mem_singleton] at hcurrent
    exact ⟨state, w', hrun, h, htree, hcurrent, .inr ⟨hlt, htree⟩⟩
  · have hrun : guiWindowMergeAll area state state.currentWindow = some { state with
        tree := .leaf { w with pos := ⟨area.x, area.y, area.width, area.height, 100, 100⟩ }
        guiWindows := [state.currentWindow]
        currentWindow := state.currentWindow } := by
      rw [guiWindowMergeAll, hw]
      exact if_pos hge
    exact ⟨_, _, hrun, windowsOk_mergeAll h hrun, rfl, hwindow.symm, .inl ⟨hge, rfl, rfl⟩⟩

/-- What the windows of a rebuilt tree display, when the buffers are found by their names. -/
theorem assigned_rebuilt {sub tree : GuiWindowTree (GuiWindow Buffer)}
    (hopen : ∀ w ∈ tree.windows, w.buffer ∈ guiBuffers)
    (h : (sub.map fun x => (x.layoutPluginName, x.layoutBufferName)) =
      tree.map fun x => (some (pluginName x.buffer), some (name x.buffer))) :
    sub.Forall₂ (fun x y => (assigned pluginName name guiBuffers x).buffer = y.buffer ↔
      FoundByName pluginName name guiBuffers y.buffer) tree := by
  refine (GuiWindowTree.map_eq_map_iff.mp h).imp fun x y hy hnames => ?_
  obtain ⟨hplugin, hname⟩ := Prod.mk.inj hnames
  have hfind : guiLayoutWindowBuffer pluginName name guiBuffers x = guiBuffers.find? fun buffer =>
      pluginName y.buffer = pluginName buffer ∧ name y.buffer = name buffer := by
    rw [guiLayoutWindowBuffer, hplugin, hname]
  obtain ⟨buffer, hbuffer⟩ : ∃ buffer, guiLayoutWindowBuffer pluginName name guiBuffers x = some buffer := by
    rw [hfind, ← Option.isSome_iff_exists, List.find?_isSome]
    exact ⟨y.buffer, hopen y hy, by simp⟩
  rw [FoundByName, ← hfind, assigned, hbuffer]
  exact (Option.some_inj ..).symm

variable {state state' : GuiWindows Buffer}

/-- When its splits succeed, the layout is restored if and only if the buffers are found by their names. -/
theorem apply_fits (hok : WindowsOk state) (hopen : ∀ w ∈ state.tree.windows, w.buffer ∈ guiBuffers)
    (hok' : WindowsOk state') {w : GuiWindow Buffer} (htree : state'.tree = .leaf w)
    (hcurrent : state'.currentWindow = w.window)
    (hfits : LayoutFits look (guiLayoutWindowStore pluginName name state).layoutWindows w.pos) :
    ∃ split marked assigned restored,
      guiLayoutWindowApplyTree look (guiLayoutWindowStore pluginName name state).internalIdCurrentWindow
        (guiLayoutWindowStore pluginName name state).layoutWindows state' none = some (split, some marked) ∧
      guiLayoutWindowAssignAllBuffers pluginName name guiBuffers split = some assigned ∧
      guiWindowSwitch assigned marked = some restored ∧
      (displayedTree restored = displayedTree state ↔
        ∀ w ∈ state.tree.windows, FoundByName pluginName name guiBuffers w.buffer) := by
  have hw : state'.tree.search state'.currentWindow = some w := by
    rw [htree, hcurrent, GuiWindowTree.search, if_pos rfl]
  have hcreated : w.window < state'.created := hok'.created _ (by rw [htree]; exact List.mem_singleton_self _)
  obtain ⟨split, hsplit, htree₁, -, -, hok₁⟩ :=
    applyTree_fits _ (guiLayoutWindowStore pluginName name state).internalIdCurrentWindow hok' hw hfits none
  obtain ⟨marked, hmarked, hin, hmap⟩ := markedWindow_some state.tree state.currentWindow 1 (-1) w state'.created hcreated
    hfits hok.nodup hok.current
  have hnames := rebuilt_names state.tree state.currentWindow 1 (-1) w state'.created hfits
  rw [htree, hcurrent, GuiWindowTree.replace, if_pos rfl] at htree₁
  rw [guiLayoutWindowStore] at htree₁ hsplit ⊢
  rw [hmarked, Option.some_or] at hsplit
  rw [← htree₁] at hin hmap hnames
  have hassign := @assignAllBuffers_eq _ pluginName name guiBuffers _ hok₁
  have hbuffers := assigned_rebuilt hopen hnames
  have hmarked' : marked ∈ (split.tree.map (assigned pluginName name guiBuffers)).names := by
    rwa [names_assigned]
  obtain ⟨w', hw'⟩ := GuiWindowTree.search_of_mem hmarked'
  refine ⟨split, marked, _, _, hsplit, hassign, by rw [guiWindowSwitch, hw', Option.map_some], ?_⟩
  rw [displayedTree, displayedTree, GuiWindowTree.map_map, GuiWindowTree.map_eq_map_iff]
  constructor
  · intro h
    refine GuiWindowTree.Forall₂.right ((h.and hbuffers).imp fun x y _ hxy => ?_)
    exact hxy.2.mp (Prod.mk.inj hxy.1).1
  · intro hfound
    refine (hbuffers.and (GuiWindowTree.map_eq_map_iff.mp hmap)).imp fun x y hy hxy => ?_
    exact Prod.ext (hxy.1.mpr (hfound y hy)) hxy.2

/-- A layout is restored if and only if the buffers are found by their names, and
its splits succeed in the window that is left, or there are several windows. -/
theorem guiLayout_roundtrip_iff (hok : WindowsOk state) (hopen : ∀ w ∈ state.tree.windows, w.buffer ∈ guiBuffers)
    (hlaidOut : guiWindowLaidOut look area state.tree = true) (ops : List (GuiWindowOp Buffer))
    (hrun : ops.foldlM (GuiWindowOp.run look area) state = some state') :
    (∃ restored, guiLayoutWindowApply pluginName name guiBuffers look area (guiLayoutWindowStore pluginName name state)
        (guiLayoutWindowStore pluginName name state).internalIdCurrentWindow state' = some restored ∧
        displayedTree restored = displayedTree state) ↔
      (∀ w ∈ state.tree.windows, FoundByName pluginName name guiBuffers w.buffer) ∧
        (2 ≤ state'.guiWindows.length ∨
          ∃ w, state'.tree = .leaf w ∧ LayoutFits look (guiLayoutWindowStore pluginName name state).layoutWindows w.pos) := by
  obtain ⟨merged, w, hmerge, hokm, htree, hcurrent, hcases⟩ := @mergeAll_leaf _ area _ (windowsOk_runs hok ops hrun)
  have happly : ∀ {split marked assigned restored},
      guiLayoutWindowApplyTree look (guiLayoutWindowStore pluginName name state).internalIdCurrentWindow
        (guiLayoutWindowStore pluginName name state).layoutWindows merged none = some (split, some marked) →
      guiLayoutWindowAssignAllBuffers pluginName name guiBuffers split = some assigned →
      guiWindowSwitch assigned marked = some restored →
      guiLayoutWindowApply pluginName name guiBuffers look area (guiLayoutWindowStore pluginName name state)
        (guiLayoutWindowStore pluginName name state).internalIdCurrentWindow state' = some restored := by
    intro split marked assigned restored hsplit hassign hswitch
    simp only [guiLayoutWindowApply, hmerge, Option.bind_eq_bind, Option.bind_some, hsplit, hassign,
      Option.getD_some, hswitch]
  have hfits : 2 ≤ state'.guiWindows.length →
      LayoutFits look (guiLayoutWindowStore pluginName name state).layoutWindows w.pos := by
    intro htwo
    rcases hcases with ⟨-, hwidth, hheight⟩ | ⟨hlt, -⟩
    · exact (laidOut_fits _ _ _ _ hwidth hheight (autoResize_zero (of_decide_eq_true hlaidOut))).2
    · omega
  constructor
  · rintro ⟨restored, hrestored, hsame⟩
    have hrestored' := hrestored
    rw [guiLayoutWindowApply, hmerge] at hrestored'
    simp only [Option.bind_eq_bind, Option.bind_some, Option.bind_eq_some_iff] at hrestored'
    obtain ⟨⟨split, marked⟩, hsplit, assigned, hassign, hswitch⟩ := hrestored'
    have hw : merged.tree.search merged.currentWindow = some w := by
      rw [htree, hcurrent, GuiWindowTree.search, if_pos rfl]
    have happlied := applyTree_count _ _ hokm hw hsplit
    -- there are as many windows as in the layout
    have hcount : split.tree.names.length = state.tree.names.length := by
      rw [assignAllBuffers_eq happlied.windows] at hassign
      cases hassign
      obtain ⟨w', -, rfl⟩ := Option.map_eq_some_iff.mp hswitch
      have hlength := GuiWindowTree.map_inj hsame
      rwa [← names_assigned, GuiWindowTree.names, GuiWindowTree.names, List.length_map, List.length_map]
    have hfits' : LayoutFits look (guiLayoutWindowStore pluginName name state).layoutWindows w.pos := by
      refine happlied.fits ?_
      rw [hcount, htree, guiLayoutWindowStore, ← store_nodes state.tree state.currentWindow 1 (-1)]
      exact Nat.add_comm _ _
    obtain ⟨split', marked', assigned', restored', hsplit', hassign', hswitch', hiff⟩ :=
      apply_fits hok hopen hokm htree hcurrent hfits'
    cases hrestored.symm.trans (happly hsplit' hassign' hswitch')
    refine ⟨hiff.mp hsame, ?_⟩
    rcases hcases with ⟨htwo, -⟩ | ⟨-, hleaf⟩
    · exact .inl htwo
    · exact .inr ⟨w, hleaf, hfits'⟩
  · rintro ⟨hfound, hcondition⟩
    have hfits : LayoutFits look (guiLayoutWindowStore pluginName name state).layoutWindows w.pos := by
      rcases hcondition with htwo | ⟨w', htree', hfits'⟩
      · exact hfits htwo
      · rcases hcases with ⟨htwo, -⟩ | ⟨-, hleaf⟩
        · exact hfits htwo
        · cases htree'.symm.trans hleaf
          exact hfits'
    obtain ⟨split, marked, assigned, restored, hsplit, hassign, hswitch, hiff⟩ :=
      apply_fits hok hopen hokm htree hcurrent hfits
    exact ⟨restored, happly hsplit hassign hswitch, hiff.mpr hfound⟩

/-- Two windows are stored, the first one is split again, and the layout is restored. -/
theorem guiLayout_roundtrip_iff_split :
    let windows : GuiWindows Unit :=
      ⟨.node 50 false (.leaf ⟨0, ⟨0, 0, 40, 24, 50, 100⟩, (), none, none⟩)
        (.leaf ⟨1, ⟨41, 0, 39, 24, 50, 100⟩, (), none, none⟩), [0, 1], 1, 2⟩
    let layout := guiLayoutWindowStore (fun _ => lit "core") (fun _ => lit "weechat") windows
    ∃ state', [GuiWindowOp.splitHorizontal 0 30].foldlM (GuiWindowOp.run ⟨true, true⟩ ⟨0, 0, 80, 24⟩) windows =
        some state' ∧
      ∃ restored, guiLayoutWindowApply (fun _ => lit "core") (fun _ => lit "weechat") [()] ⟨true, true⟩ ⟨0, 0, 80, 24⟩
          layout layout.internalIdCurrentWindow state' = some restored ∧
        displayedTree restored = displayedTree windows := by
  refine ⟨_, rfl, (guiLayout_roundtrip_iff ⟨by decide, by decide, by decide, by decide⟩ (by decide) (by decide)
    [GuiWindowOp.splitHorizontal 0 30] rfl).mpr ⟨?_, .inl (by decide)⟩⟩
  intro w _
  rfl

/-- Lines between windows one above the other only: a window of 24 lines is split, with
2 lines at the top, and then merged: it has 23 lines, and cannot be split again. -/
theorem guiLayout_roundtrip_fails :
    ∃ state state' restored : GuiWindows Unit,
      guiWindowSplitHorizontal ⟨true, false⟩ ⟨.leaf ⟨0, ⟨0, 0, 80, 24, 100, 100⟩, (), none, none⟩, [0], 0, 1⟩ 0 9 =
        some state ∧
      guiWindowLaidOut ⟨true, false⟩ ⟨0, 0, 80, 24⟩ state.tree = true ∧
      [GuiWindowOp.refresh false, .merge 0].foldlM (GuiWindowOp.run ⟨true, false⟩ ⟨0, 0, 80, 24⟩) state = some state' ∧
      guiLayoutWindowApply (fun _ => lit "core") (fun _ => lit "weechat") [()] ⟨true, false⟩ ⟨0, 0, 80, 24⟩
        (guiLayoutWindowStore (fun _ => lit "core") (fun _ => lit "weechat") state)
        (guiLayoutWindowStore (fun _ => lit "core") (fun _ => lit "weechat") state).internalIdCurrentWindow state' =
        some restored ∧
      displayedTree restored ≠ displayedTree state := by
  refine ⟨_, _, _, rfl, by decide, rfl, rfl, ?_⟩
  intro h
  cases h

end

end Wirc

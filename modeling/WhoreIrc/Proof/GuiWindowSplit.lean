import WhoreIrc.Proof.GuiWindow
import WhoreIrc.Proof.GuiWindows
import WhoreIrc.Spec.GuiWindow

/-!
# Windows that are split and merged: where they are

Laid out, each subtree has its area (`placed_iff`). A subtree that replaces a leaf
has the area of this leaf (`placed_replace`), and a leaf that replaces a node has
that of the node (`placed_nodeToLeaf`), both by induction on the tree. What is
left is to compare two formulas.
-/

namespace Wirc

open Framework

section

variable {Buffer : Type} {look : GuiWindowLook} {window : Nat}

/-- Each window has the area of its leaf. -/
def Placed (look : GuiWindowLook) : GuiWindowTree (GuiWindow Buffer) → Rect → Prop
  | .leaf window, area => window.pos.rect = area ∧ 1 ≤ area.width ∧ 2 ≤ area.height
  | .node splitPct splitHorizontal child1 child2, area =>
    Placed look child1 (guiWindowSplitAreas look splitPct splitHorizontal area).1 ∧
      Placed look child2 (guiWindowSplitAreas look splitPct splitHorizontal area).2

theorem placed_node {splitPct : Int} {splitHorizontal : Bool} {child1 child2 : GuiWindowTree (GuiWindow Buffer)}
    {area : Rect} : Placed look (.node splitPct splitHorizontal child1 child2) area ↔
      Placed look child1 (guiWindowSplitAreas look splitPct splitHorizontal area).1 ∧
        Placed look child2 (guiWindowSplitAreas look splitPct splitHorizontal area).2 :=
  Iff.rfl

theorem length_autoResize (parent : Option GuiWindowParent) (tree : GuiWindowTree GuiWindowPos) (area : Rect) :
    (guiWindowAutoResize look false parent tree area).2.windows.length = tree.windows.length := by
  induction tree generalizing parent area with
  | leaf window =>
    rw [guiWindowAutoResize]
    split
    · rfl
    · rfl
  | node splitPct splitHorizontal child1 child2 ih1 ih2 =>
    rw [guiWindowAutoResize]
    dsimp only
    split
    · simp only [GuiWindowTree.windows, List.length_append, ih1]
    · simp only [GuiWindowTree.windows, List.length_append, ih1, ih2]

theorem rect_guiWindowPlace (parent : Option GuiWindowParent) (area : Rect) (window : GuiWindowPos) :
    (guiWindowPlace parent area window).rect = area := by
  simp only [guiWindowPlace]
  split
  · rfl
  · split
    · rfl
    · rfl

/-- What the recursion puts in the windows is the area of their leaves. -/
theorem placed_iff (parent : Option GuiWindowParent) (tree : GuiWindowTree (GuiWindow Buffer)) (area : Rect) :
    ((guiWindowAutoResize look false parent (tree.map GuiWindow.pos) area).1 = 0 ∧
      (guiWindowAutoResize look false parent (tree.map GuiWindow.pos) area).2.windows.map GuiWindowPos.rect =
        tree.windows.map fun window => window.pos.rect) ↔ Placed look tree area := by
  induction tree generalizing parent area with
  | leaf window =>
    rw [GuiWindowTree.map, guiWindowAutoResize, Placed]
    split
    · exact ⟨fun h => absurd h.1 (by simp), fun h => absurd h.2 (by omega)⟩
    · rename_i hsize
      simp only [Bool.false_eq_true, if_false, GuiWindowTree.windows, List.map_cons, List.map_nil,
        rect_guiWindowPlace, List.cons.injEq, and_true, true_and]
      exact ⟨fun h => ⟨h.symm, by omega, by omega⟩, fun h => h.1.symm⟩
  | node splitPct splitHorizontal child1 child2 ih1 ih2 =>
    rw [Placed, ← ih1 (some ⟨splitPct, splitHorizontal, true⟩), ← ih2 (some ⟨splitPct, splitHorizontal, false⟩),
      GuiWindowTree.map]
    constructor
    · rintro ⟨hfits, hplaces⟩
      obtain ⟨h1, h2, hresized⟩ := autoResize_node hfits rfl
      rw [hresized] at hplaces
      simp only [GuiWindowTree.windows, List.map_append] at hplaces
      have hlength := @length_autoResize look (some ⟨splitPct, splitHorizontal, true⟩) (child1.map GuiWindow.pos)
        (guiWindowSplitAreas look splitPct splitHorizontal area).1
      rw [GuiWindowTree.windows_map, List.length_map] at hlength
      obtain ⟨hplaces1, hplaces2⟩ := List.append_inj hplaces (by rw [List.length_map, List.length_map, hlength])
      exact ⟨⟨autoResize_zero h1, hplaces1⟩, autoResize_zero h2, hplaces2⟩
    · rintro ⟨⟨hfits1, hplaces1⟩, hfits2, hplaces2⟩
      rw [guiWindowAutoResize]
      dsimp only
      rw [hfits1, if_neg (by decide : ¬ (0 : Int) < 0)]
      refine ⟨by rw [hfits2]; rfl, ?_⟩
      simp only [GuiWindowTree.windows, List.map_append, hplaces1, hplaces2]

theorem laidOut_iff {area : Rect} {tree : GuiWindowTree (GuiWindow Buffer)} :
    LaidOut look area tree ↔ Placed look tree area := by
  rw [← placed_iff none tree area]
  exact ⟨fun h => ⟨h.fits, h.places⟩, fun h => ⟨h.1, h.2⟩⟩

/-! ## A leaf that is replaced, a node that becomes a leaf -/

/-- The new subtree has the area of the window. -/
theorem placed_replace {tree sub : GuiWindowTree (GuiWindow Buffer)} {w : GuiWindow Buffer} {area : Rect}
    (h : Placed look tree area) (hnodup : tree.names.Nodup) (hw : tree.search window = some w) :
    (1 ≤ w.pos.winWidth ∧ 2 ≤ w.pos.winHeight) ∧
      (Placed look (tree.replace window sub) area ↔ Placed look sub w.pos.rect) := by
  induction tree generalizing area with
  | leaf w' =>
    rw [GuiWindowTree.search_leaf] at hw
    split at hw
    · rename_i hname
      cases hw
      obtain ⟨hrect, hwidth, hheight⟩ := h
      rw [GuiWindowTree.replace_leaf, if_pos hname, hrect]
      rw [← hrect] at hwidth hheight
      exact ⟨⟨hwidth, hheight⟩, Iff.rfl⟩
    · cases hw
  | node splitPct splitHorizontal child1 child2 ih1 ih2 =>
    rw [GuiWindowTree.names_node] at hnodup
    obtain ⟨hnodup1, hnodup2, hdisjoint⟩ := List.nodup_append.mp hnodup
    rw [GuiWindowTree.search_node, Option.or_eq_some_iff] at hw
    rw [GuiWindowTree.replace_node, Placed]
    rcases hw with hw | ⟨hnone, hw⟩
    · have hnot : window ∉ child2.names := fun hmem =>
        hdisjoint _ (GuiWindowTree.mem_names_of_search hw) _ hmem rfl
      obtain ⟨hsize, hiff⟩ := ih1 h.1 hnodup1 hw
      rw [GuiWindowTree.replace_of_notMem hnot, hiff]
      exact ⟨hsize, and_iff_left h.2⟩
    · have hnot : window ∉ child1.names := fun hmem =>
        hdisjoint _ hmem _ (GuiWindowTree.mem_names_of_search hw) rfl
      obtain ⟨hsize, hiff⟩ := ih2 h.2 hnodup2 hw
      rw [GuiWindowTree.replace_of_notMem hnot, hiff]
      exact ⟨hsize, and_iff_right h.1⟩

theorem isLeafOf_search {tree : GuiWindowTree (GuiWindow Buffer)} {w : GuiWindow Buffer}
    (h : tree.isLeafOf window = true) (hw : tree.search window = some w) : tree = .leaf w := by
  obtain ⟨w', rfl, hname⟩ := GuiWindowTree.isLeafOf_eq h
  rw [GuiWindowTree.search_leaf, if_pos hname] at hw
  rw [Option.some.inj hw]

/-- The leaf that is left has the area of the node, whose children are the window
and its sister. -/
theorem placed_nodeToLeaf {tree : GuiWindowTree (GuiWindow Buffer)} {w sister : GuiWindow Buffer} {area : Rect}
    (h : Placed look tree area) (hnodup : tree.names.Nodup) (hw : tree.search window = some w)
    (hsister : tree.sister window = some (.leaf sister)) : ∃ splitPct splitHorizontal nodeArea,
    (Placed look (.node splitPct splitHorizontal (.leaf w) (.leaf sister)) nodeArea ∨
      Placed look (.node splitPct splitHorizontal (.leaf sister) (.leaf w)) nodeArea) ∧
      ∀ leaf, Placed look (tree.nodeToLeaf window leaf) area ↔ Placed look (.leaf leaf) nodeArea := by
  induction tree generalizing area with
  | leaf w' => cases hsister
  | node splitPct splitHorizontal child1 child2 ih1 ih2 =>
    rw [GuiWindowTree.names_node] at hnodup
    obtain ⟨hnodup1, hnodup2, hdisjoint⟩ := List.nodup_append.mp hnodup
    have hnot2 : window ∈ child1.names → window ∉ child2.names := fun h1 h2 => hdisjoint _ h1 _ h2 rfl
    rw [GuiWindowTree.search_node] at hw
    rw [GuiWindowTree.sister] at hsister
    split at hsister
    · -- the window is the first child
      rename_i hleaf
      have hmem : window ∈ child1.names := by
        obtain ⟨w', rfl, rfl⟩ := GuiWindowTree.isLeafOf_eq hleaf
        exact List.mem_singleton_self _
      rw [GuiWindowTree.search_of_notMem (hnot2 hmem), Option.or_none] at hw
      cases hsister
      have hchild1 := isLeafOf_search hleaf hw
      rw [hchild1] at h hleaf
      refine ⟨splitPct, splitHorizontal, area, .inl h, fun leaf => ?_⟩
      rw [hchild1, GuiWindowTree.nodeToLeaf, hleaf]
      rfl
    · rename_i hleaf1
      split at hsister
      · -- the window is the second child
        rename_i hleaf
        have hmem : window ∈ child2.names := by
          obtain ⟨w', rfl, rfl⟩ := GuiWindowTree.isLeafOf_eq hleaf
          exact List.mem_singleton_self _
        rw [GuiWindowTree.search_of_notMem fun h1 => hnot2 h1 hmem, Option.none_or] at hw
        cases hsister
        have hchild2 := isLeafOf_search hleaf hw
        rw [hchild2] at h hleaf
        refine ⟨splitPct, splitHorizontal, area, .inr h, fun leaf => ?_⟩
        rw [hchild2, GuiWindowTree.nodeToLeaf, hleaf, Bool.or_true]
        rfl
      · rename_i hleaf2
        have hnode : ∀ leaf, (GuiWindowTree.node splitPct splitHorizontal child1 child2).nodeToLeaf window leaf =
            .node splitPct splitHorizontal (child1.nodeToLeaf window leaf) (child2.nodeToLeaf window leaf) := by
          intro leaf
          rw [GuiWindowTree.nodeToLeaf, Bool.eq_false_of_not_eq_true hleaf1, Bool.eq_false_of_not_eq_true hleaf2]
          rfl
        rw [Option.or_eq_some_iff] at hsister
        rcases hsister with hsister | ⟨-, hsister⟩
        · have hmem := (GuiWindowTree.sister_mem hsister).1
          rw [GuiWindowTree.search_of_notMem (hnot2 hmem), Option.or_none] at hw
          obtain ⟨pct, horizontal, nodeArea, hchildren, hiff⟩ := ih1 h.1 hnodup1 hw hsister
          refine ⟨pct, horizontal, nodeArea, hchildren, fun leaf => ?_⟩
          rw [hnode, placed_node, GuiWindowTree.nodeToLeaf_of_notMem (hnot2 hmem), hiff]
          exact and_iff_left h.2
        · have hmem := (GuiWindowTree.sister_mem hsister).1
          have hnot1 : window ∉ child1.names := fun h1 => hnot2 h1 hmem
          rw [GuiWindowTree.search_of_notMem hnot1, Option.none_or] at hw
          obtain ⟨pct, horizontal, nodeArea, hchildren, hiff⟩ := ih2 h.2 hnodup2 hw hsister
          refine ⟨pct, horizontal, nodeArea, hchildren, fun leaf => ?_⟩
          rw [hnode, placed_node, GuiWindowTree.nodeToLeaf_of_notMem hnot1, hiff]
          exact and_iff_right h.1

/-! ## The formulas -/

/-- Split horizontally, the window at the bottom is one row too high when a line
is shown. -/
theorem splitHorizontalPos_placed {percentage : Int} {w new : GuiWindow Buffer} {newPos pos : GuiWindowPos}
    (hsize : 1 ≤ w.pos.winWidth) (hsplit : guiWindowSplitHorizontalPos look percentage w.pos = some (newPos, pos))
    (hnew : new.pos = newPos) : newPos.winWidthPct = 100 ∧
      (Placed look (.node newPos.winHeightPct true (.leaf { w with pos }) (.leaf new)) w.pos.rect ↔
        look.separatorHorizontal = false) := by
  obtain ⟨htests, hpos⟩ := Option.ite_none_right_eq_some.mp hsplit
  cases hpos
  refine ⟨rfl, ?_⟩
  simp only [Placed, hnew, guiWindowSplitAreas, GuiWindowPos.rect, Rect.mk.injEq, if_true]
  cases hlook : look.separatorHorizontal with
  | true =>
    refine ⟨fun h => ?_, fun h => absurd h (by decide)⟩
    have hy := h.1.1.2.1
    simp only [if_true] at hy
    omega
  | false =>
    simp only [hlook, Bool.false_eq_true, if_false, iff_true, true_and, and_true] at htests ⊢
    omega

theorem splitVerticalPos_placed {percentage : Int} {w new : GuiWindow Buffer} {newPos pos : GuiWindowPos}
    (hsize : 2 ≤ w.pos.winHeight) (hsplit : guiWindowSplitVerticalPos look percentage w.pos = some (newPos, pos))
    (hnew : new.pos = newPos) : newPos.winWidthPct ≠ 100 ∧
      Placed look (.node newPos.winWidthPct false (.leaf { w with pos }) (.leaf new)) w.pos.rect := by
  obtain ⟨htests, hpos⟩ := Option.ite_none_right_eq_some.mp hsplit
  cases hpos
  refine ⟨by dsimp only; omega, ?_⟩
  simp only [Placed, hnew, guiWindowSplitAreas, GuiWindowPos.rect, Bool.false_eq_true, if_false,
    true_and]
  omega

theorem separators_eq : look.separatorHorizontal = look.separatorVertical ↔
    separatorSize look true = separatorSize look false := by
  simp only [separatorSize, if_true, Bool.false_eq_true, if_false]
  cases look.separatorHorizontal <;> cases look.separatorVertical <;> decide

/-- The area of two windows that are merged is right when the same lines are shown
in both directions. -/
theorem mergePos_placed {splitPct : Int} {splitHorizontal : Bool} {w sister leaf : GuiWindow Buffer} {area : Rect}
    (h : Placed look (.node splitPct splitHorizontal (.leaf w) (.leaf sister)) area ∨
      Placed look (.node splitPct splitHorizontal (.leaf sister) (.leaf w)) area)
    (hleaf : leaf.pos = guiWindowMergePos look w.pos sister.pos) :
    Placed look (.leaf leaf) area ↔ look.separatorHorizontal = look.separatorVertical := by
  obtain ⟨x, y, width, height⟩ := area
  have hH : (if look.separatorHorizontal then (1 : Int) else 0) = separatorSize look true := rfl
  have hV : (if look.separatorVertical then (1 : Int) else 0) = separatorSize look false := rfl
  obtain ⟨hH0, hH1⟩ := @separatorSize_bounds look true
  obtain ⟨hV0, hV1⟩ := @separatorSize_bounds look false
  rw [separators_eq]
  simp only [Placed, GuiWindowPos.rect] at h
  simp only [Placed, GuiWindowPos.rect, hleaf, guiWindowMergePos, Rect.mk.injEq, hH, hV]
  cases splitHorizontal with
  | true =>
    -- one above the other: the heights and the line between them
    obtain ⟨size1, hareas⟩ := @splitAreas_horizontal look splitPct ⟨x, y, width, height⟩
    simp only [hareas, Rect.mk.injEq] at h
    have hy : w.pos.winY ≠ sister.pos.winY := by omega
    simp only [if_neg hy]
    omega
  | false =>
    -- side by side: the widths and the line between them
    obtain ⟨size1, hareas⟩ := @splitAreas_vertical look splitPct ⟨x, y, width, height⟩
    simp only [hareas, Rect.mk.injEq] at h
    have hy : w.pos.winY = sister.pos.winY := by omega
    simp only [if_pos hy]
    omega

/-! ## Splits and merges -/

/-- Split, a window is where it is when the new leaves are where they are. -/
theorem split_laidOut {split : GuiWindowPos → Option (GuiWindowPos × GuiWindowPos)} {area : Rect}
    {state : GuiWindows Buffer} {w : GuiWindow Buffer} {newPos pos : GuiWindowPos} (hok : WindowsOk state)
    (hlaid : LaidOut look area state.tree) (hw : state.tree.search window = some w)
    (hsplit : split w.pos = some (newPos, pos)) :
    ∃ state' new, guiWindowSplit split state window = some state' ∧ new.pos = newPos ∧
      (LaidOut look area state'.tree ↔ Placed look (.node
        (if newPos.winWidthPct = 100 then newPos.winHeightPct else newPos.winWidthPct)
        (decide (newPos.winWidthPct = 100)) (.leaf { w with pos }) (.leaf new)) w.pos.rect) := by
  obtain ⟨splitPct, splitHorizontal, hhorizontal, hpct, hrun⟩ := split_eq hok hw hsplit
  refine ⟨_, ⟨state.created, newPos, w.buffer, none, none⟩, hrun, rfl, ?_⟩
  rw [laidOut_iff, (placed_replace (laidOut_iff.mp hlaid) hok.nodup hw).2, hhorizontal, hpct]

section

variable {area : Rect} {state state' : GuiWindows Buffer} {op : SplitOrMerge}

theorem right_of_refused (h : op.Refused look state window) (hrun : op.run look state window = some state) :
    op.Right look area state window ↔ op.Refused look state window ∨ op.SeparatorsCounted look :=
  ⟨fun _ => .inl h, fun _ => ⟨state, hrun, fun _ => rfl, fun hnot => absurd h hnot⟩⟩

theorem right_of_done (h : ¬ op.Refused look state window) (hrun : op.run look state window = some state')
    (hlaid : LaidOut look area state'.tree ↔ op.SeparatorsCounted look) :
    op.Right look area state window ↔ op.Refused look state window ∨ op.SeparatorsCounted look := by
  constructor
  · rintro ⟨after, hafter, -, hdone⟩
    rw [Option.some.inj (hafter.symm.trans hrun)] at hdone
    exact .inr (hlaid.mp (hdone h))
  · intro hcounted
    exact ⟨state', hrun, fun hrefused => absurd hrefused h, fun _ => hlaid.mpr (hcounted.resolve_left h)⟩

end

/-- A split and a merge agree with the layout of the whole tree if and only if
they are refused or the separators are those that the code counts. -/
theorem splitOrMerge_right_iff {area : Rect} {state : GuiWindows Buffer} (hok : WindowsOk state)
    (hlaid : LaidOut look area state.tree) (hmem : window ∈ state.tree.names) (op : SplitOrMerge) :
    op.Right look area state window ↔ op.Refused look state window ∨ op.SeparatorsCounted look := by
  obtain ⟨w, hw⟩ := GuiWindowTree.search_of_mem hmem
  obtain ⟨⟨hwidth, hheight⟩, -⟩ := @placed_replace _ look window _ (.leaf w) w area (laidOut_iff.mp hlaid)
    hok.nodup hw
  cases op with
  | splitHorizontal percentage =>
    cases hsplit : guiWindowSplitHorizontalPos look percentage w.pos with
    | none =>
      refine right_of_refused ⟨w, hw, hsplit⟩ ?_
      simp only [SplitOrMerge.run, guiWindowSplitHorizontal, guiWindowSplit, hw, hsplit]
    | some positions =>
      have hnot : ¬ (SplitOrMerge.splitHorizontal percentage).Refused look state window := by
        rintro ⟨w', hw', hnone⟩
        rw [← Option.some.inj (hw.symm.trans hw'), hsplit] at hnone
        cases hnone
      obtain ⟨state', new, hrun, hnew, hlaid'⟩ := split_laidOut hok hlaid hw hsplit
      obtain ⟨hpct, hplaced⟩ := splitHorizontalPos_placed hwidth hsplit hnew
      rw [if_pos hpct, decide_eq_true hpct, hplaced] at hlaid'
      exact right_of_done hnot hrun hlaid'
  | splitVertical percentage =>
    cases hsplit : guiWindowSplitVerticalPos look percentage w.pos with
    | none =>
      refine right_of_refused ⟨w, hw, hsplit⟩ ?_
      simp only [SplitOrMerge.run, guiWindowSplitVertical, guiWindowSplit, hw, hsplit]
    | some positions =>
      have hnot : ¬ (SplitOrMerge.splitVertical percentage).Refused look state window := by
        rintro ⟨w', hw', hnone⟩
        rw [← Option.some.inj (hw.symm.trans hw'), hsplit] at hnone
        cases hnone
      obtain ⟨state', new, hrun, hnew, hlaid'⟩ := split_laidOut hok hlaid hw hsplit
      obtain ⟨hpct, hplaced⟩ := splitVerticalPos_placed hheight hsplit hnew
      rw [if_neg hpct, decide_eq_false hpct] at hlaid'
      exact right_of_done hnot hrun ⟨fun _ => trivial, fun _ => hlaid'.mpr hplaced⟩
  | merge =>
    by_cases hleaf : ∃ sister, state.tree.sister window = some (.leaf sister)
    · obtain ⟨sister, hsister⟩ := hleaf
      have hnot : ¬ SplitOrMerge.merge.Refused look state window := fun h => h sister hsister
      obtain ⟨splitPct, splitHorizontal, nodeArea, hchildren, hiff⟩ :=
        placed_nodeToLeaf (laidOut_iff.mp hlaid) hok.nodup hw hsister
      have hrun : SplitOrMerge.merge.run look state window = some { guiWindowFree state sister.window window with
          tree := state.tree.nodeToLeaf window { w with pos := guiWindowMergePos look w.pos sister.pos } } := by
        simp only [SplitOrMerge.run, guiWindowMerge, hw, hsister]
      refine right_of_done hnot hrun ?_
      rw [laidOut_iff, hiff]
      exact mergePos_placed hchildren rfl
    · have hrefused : SplitOrMerge.merge.Refused look state window := fun sister hsister => hleaf ⟨sister, hsister⟩
      refine right_of_refused hrefused ?_
      simp only [SplitOrMerge.run, guiWindowMerge, hw]
      split
      · rename_i sister hsister
        exact absurd hsister (hrefused sister)
      · rfl

end

/-- One window of 80 columns and 24 rows. -/
def oneWindowState : GuiWindows Unit where
  tree := .leaf ⟨0, ⟨0, 0, 80, 24, 100, 100⟩, (), none, none⟩
  guiWindows := [0]
  currentWindow := 0
  created := 1

theorem splitOrMerge_right_one :
    (SplitOrMerge.splitVertical 50).Right ⟨true, true⟩ ⟨0, 0, 80, 24⟩ oneWindowState 0 := by
  have hok : WindowsOk oneWindowState :=
    ⟨by decide, by decide, List.Perm.refl _, by decide⟩
  have hlaid : LaidOut ⟨true, true⟩ ⟨0, 0, 80, 24⟩ oneWindowState.tree := ⟨by decide, by decide⟩
  exact (splitOrMerge_right_iff hok hlaid (by decide) (.splitVertical 50)).mpr (.inr trivial)

/-- Split horizontally with a line, the window at the bottom is one row too high. -/
theorem splitOrMerge_wrong :
    ¬ (SplitOrMerge.splitHorizontal 50).Right ⟨true, true⟩ ⟨0, 0, 80, 24⟩ oneWindowState 0 := by
  rintro ⟨state', hrun, -, hdone⟩
  have hlaid : LaidOut ⟨true, true⟩ ⟨0, 0, 80, 24⟩ state'.tree := by
    refine hdone ?_
    rintro ⟨w, hw, hnone⟩
    cases hw
    exact absurd hnone (by decide)
  cases hrun
  exact absurd hlaid.places (by decide)

end Wirc

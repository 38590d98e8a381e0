import WhoreIrc.Spec.GuiWindow

/-!
# Windows tile the area of their tree (`guiWindowAutoResize_tiles`)

Each cell is counted: how often the windows and the lines of a tree cover it.
The count of a node is the sum of those of its children and of its own line,
which are three strips of its area (`covered_eq`, by induction on the tree).
-/

namespace Wirc

open Framework

/-! ## The areas of two children -/

section

variable {look : GuiWindowLook} {simulate : Bool} {splitPct : Int} {splitHorizontal : Bool} {area : Rect}

/-- The thickness of the line between two children. -/
def separatorSize (look : GuiWindowLook) (splitHorizontal : Bool) : Int :=
  if (if splitHorizontal then look.separatorHorizontal else look.separatorVertical) then 1 else 0

theorem separatorSize_bounds : 0 ≤ separatorSize look splitHorizontal ∧ separatorSize look splitHorizontal ≤ 1 := by
  simp only [separatorSize]
  split <;> omega

/-- One child is above the other: the second one is at the top. -/
theorem splitAreas_horizontal : ∃ size1,
    guiWindowSplitAreas look splitPct true area =
      (⟨area.x, area.y + size1 + separatorSize look true, area.width, area.height - size1 - separatorSize look true⟩,
        ⟨area.x, area.y, area.width, size1⟩) :=
  ⟨_, rfl⟩

/-- The children are side by side: the first one is on the left. -/
theorem splitAreas_vertical : ∃ size1,
    guiWindowSplitAreas look splitPct false area =
      (⟨area.x, area.y, size1, area.height⟩,
        ⟨area.x + size1 + separatorSize look false, area.y, area.width - size1 - separatorSize look false, area.height⟩) :=
  ⟨_, rfl⟩

end

/-! ## What a call that returns 0 did -/

section

variable {look : GuiWindowLook} {simulate : Bool} {parent : Option GuiWindowParent} {splitPct : Int}
  {splitHorizontal : Bool} {child1 child2 : GuiWindowTree GuiWindowPos} {area : Rect}

theorem autoResize_leaf {window : GuiWindowPos}
    (h : (guiWindowAutoResize look simulate parent (.leaf window) area).1 = 0) :
    (1 ≤ area.width ∧ 2 ≤ area.height) ∧
      (guiWindowAutoResize look simulate parent (.leaf window) area).2 =
        .leaf (if simulate then window else guiWindowPlace parent area window) := by
  rw [guiWindowAutoResize] at h ⊢
  split at h
  · cases h
  · rw [if_neg ‹_›]
    exact ⟨by omega, rfl⟩

/-- A node is resized when both of its children are. -/
theorem autoResize_node
    (h : (guiWindowAutoResize look simulate parent (.node splitPct splitHorizontal child1 child2) area).1 = 0)
    {areas : Rect × Rect} (hareas : guiWindowSplitAreas look splitPct splitHorizontal area = areas) :
    let resized1 := guiWindowAutoResize look simulate (some ⟨splitPct, splitHorizontal, true⟩) child1 areas.1
    let resized2 := guiWindowAutoResize look simulate (some ⟨splitPct, splitHorizontal, false⟩) child2 areas.2
    0 ≤ resized1.1 ∧ 0 ≤ resized2.1 ∧
      (guiWindowAutoResize look simulate parent (.node splitPct splitHorizontal child1 child2) area).2 =
        .node splitPct splitHorizontal resized1.2 resized2.2 := by
  subst hareas
  rw [guiWindowAutoResize] at h ⊢
  split at h
  · cases h
  · rename_i h1
    rw [if_neg h1]
    refine ⟨Int.not_lt.mp h1, ?_, rfl⟩
    dsimp only at h ⊢
    split at h
    · cases h
    · exact Int.not_lt.mp ‹_›

/-- It returns 0 or -1. -/
theorem autoResize_values (tree : GuiWindowTree GuiWindowPos) :
    (guiWindowAutoResize look simulate parent tree area).1 = 0 ∨
      (guiWindowAutoResize look simulate parent tree area).1 = -1 := by
  cases tree with
  | leaf window =>
    rw [guiWindowAutoResize]
    split
    · exact .inr rfl
    · exact .inl rfl
  | node splitPct splitHorizontal child1 child2 =>
    rw [guiWindowAutoResize]
    dsimp only
    split
    · exact .inr rfl
    · dsimp only
      split
      · exact .inr rfl
      · exact .inl rfl

theorem autoResize_zero {tree : GuiWindowTree GuiWindowPos}
    (h : 0 ≤ (guiWindowAutoResize look simulate parent tree area).1) :
    (guiWindowAutoResize look simulate parent tree area).1 = 0 :=
  (autoResize_values tree).resolve_right fun hneg => by omega

end

/-! ## Cells -/

/-- How often the windows and the lines of a tree cover a cell. -/
def covered (tree : GuiWindowTree GuiWindowPos) (cell : Cell) : Nat :=
  coverCount (tree.windows.map GuiWindowPos.rect) cell + coverCount tree.separatorLines cell

section

variable {look : GuiWindowLook} {parent : Option GuiWindowParent} {area : Rect}

theorem covered_node (splitPct : Int) (splitHorizontal : Bool) (child1 child2 : GuiWindowTree GuiWindowPos)
    (cell : Cell) :
    covered (.node splitPct splitHorizontal child1 child2) cell =
      covered child1 cell + covered child2 cell +
        (GuiWindowTree.lineBetween splitHorizontal child1.rect child2.rect).covers cell := by
  simp only [covered, GuiWindowTree.windows, GuiWindowTree.separatorLines, List.map_append, coverCount_append,
    coverCount_cons]
  omega

/-- The tree takes its area, and covers each cell of it once. -/
theorem covered_eq (tree : GuiWindowTree GuiWindowPos) (parent : Option GuiWindowParent) (area : Rect)
    (h : (guiWindowAutoResize look false parent tree area).1 = 0) :
    let resized := (guiWindowAutoResize look false parent tree area).2
    (1 ≤ area.width ∧ 2 ≤ area.height) ∧ resized.rect = area ∧ ∀ cell, covered resized cell = area.covers cell := by
  induction tree generalizing parent area with
  | leaf window =>
    obtain ⟨hsize, hresized⟩ := autoResize_leaf h
    simp only [hresized]
    have hrect : (guiWindowPlace parent area window).rect = area := by
      simp only [guiWindowPlace]
      split
      · rfl
      · split <;> rfl
    refine ⟨hsize, hrect, fun cell => ?_⟩
    simp [covered, GuiWindowTree.windows, GuiWindowTree.separatorLines, hrect]
  | node splitPct splitHorizontal child1 child2 ih1 ih2 =>
    obtain ⟨hsep0, hsep1⟩ := @separatorSize_bounds look splitHorizontal
    cases splitHorizontal with
    | true =>
      obtain ⟨size1, hareas⟩ := @splitAreas_horizontal look splitPct area
      obtain ⟨h1, h2, hresized⟩ := autoResize_node h hareas
      obtain ⟨hsize1, hrect1, hcovered1⟩ := ih1 _ _ (autoResize_zero h1)
      obtain ⟨hsize2, hrect2, hcovered2⟩ := ih2 _ _ (autoResize_zero h2)
      simp only at hsize1 hsize2
      simp only [hresized]
      refine ⟨⟨hsize1.1, by omega⟩, ?_, fun cell => ?_⟩
      · simp only [GuiWindowTree.rect, hrect1, hrect2, if_true]
        exact congrArg _ (by omega)
      · rw [covered_node, hcovered1, hcovered2, hrect1, hrect2]
        simp only [GuiWindowTree.lineBetween, if_true]
        rw [show area.y + size1 + separatorSize look true - (area.y + size1) =
          separatorSize look true by omega]
        have hrows := @Rect.covers_rows cell area.x area.y area.width size1 (separatorSize look true)
          (area.height - size1 - separatorSize look true) (by omega) hsep0 (by omega)
        rw [show size1 + separatorSize look true + (area.height - size1 - separatorSize look true) = area.height by
          omega] at hrows
        refine Eq.trans ?_ hrows
        omega
    | false =>
      obtain ⟨size1, hareas⟩ := @splitAreas_vertical look splitPct area
      obtain ⟨h1, h2, hresized⟩ := autoResize_node h hareas
      obtain ⟨hsize1, hrect1, hcovered1⟩ := ih1 _ _ (autoResize_zero h1)
      obtain ⟨hsize2, hrect2, hcovered2⟩ := ih2 _ _ (autoResize_zero h2)
      simp only at hsize1 hsize2
      simp only [hresized]
      refine ⟨⟨by omega, hsize1.2⟩, ?_, fun cell => ?_⟩
      · simp only [GuiWindowTree.rect, hrect1, hrect2, Bool.false_eq_true, if_false]
        rw [show area.x + size1 + separatorSize look false + (area.width - size1 - separatorSize look false) - area.x =
          area.width by omega]
      · rw [covered_node, hcovered1, hcovered2, hrect1, hrect2]
        simp only [GuiWindowTree.lineBetween, Bool.false_eq_true, if_false]
        rw [show area.x + size1 + separatorSize look false - (area.x + size1) =
          separatorSize look false by omega]
        have hcolumns := @Rect.covers_columns cell area.x area.y area.height size1 (separatorSize look false)
          (area.width - size1 - separatorSize look false) (by omega) hsep0 (by omega)
        rw [show size1 + separatorSize look false + (area.width - size1 - separatorSize look false) = area.width by
          omega] at hcolumns
        rw [Nat.add_right_comm]
        exact hcolumns

/-- A window that is resized has the least size of a window at least. -/
theorem autoResize_size (tree : GuiWindowTree GuiWindowPos) (parent : Option GuiWindowParent) (area : Rect)
    (h : (guiWindowAutoResize look false parent tree area).1 = 0) :
    ∀ window ∈ (guiWindowAutoResize look false parent tree area).2.windows,
      1 ≤ window.winWidth ∧ 2 ≤ window.winHeight := by
  induction tree generalizing parent area with
  | leaf window =>
    obtain ⟨hsize, hresized⟩ := autoResize_leaf h
    have hrect := (covered_eq _ _ _ h).2.1
    rw [hresized] at hrect ⊢
    intro window' hwindow'
    rw [List.mem_singleton.mp hwindow']
    rw [← hrect] at hsize
    exact hsize
  | node splitPct splitHorizontal child1 child2 ih1 ih2 =>
    obtain ⟨h1, h2, hresized⟩ := autoResize_node h rfl
    rw [hresized]
    intro window hwindow
    rcases List.mem_append.mp hwindow with hwindow | hwindow
    · exact ih1 _ _ (autoResize_zero h1) window hwindow
    · exact ih2 _ _ (autoResize_zero h2) window hwindow

/-- A line between two children is at most one cell thick. -/
theorem autoResize_thin (tree : GuiWindowTree GuiWindowPos) (parent : Option GuiWindowParent) (area : Rect)
    (h : (guiWindowAutoResize look false parent tree area).1 = 0) :
    ∀ line ∈ (guiWindowAutoResize look false parent tree area).2.separatorLines, line.width ≤ 1 ∨ line.height ≤ 1 := by
  induction tree generalizing parent area with
  | leaf window =>
    rw [(autoResize_leaf h).2]
    exact List.forall_mem_nil _
  | node splitPct splitHorizontal child1 child2 ih1 ih2 =>
    obtain ⟨h1, h2, hresized⟩ := autoResize_node h rfl
    obtain ⟨-, hrect1, -⟩ := covered_eq _ _ _ (autoResize_zero h1)
    obtain ⟨-, hrect2, -⟩ := covered_eq _ _ _ (autoResize_zero h2)
    rw [hresized]
    intro line hline
    rcases List.mem_cons.mp hline with rfl | hline
    · obtain ⟨-, hsep1⟩ := @separatorSize_bounds look splitHorizontal
      rw [hrect1, hrect2]
      cases splitHorizontal with
      | true =>
        obtain ⟨size1, hareas⟩ := @splitAreas_horizontal look splitPct area
        rw [hareas]
        simp only [GuiWindowTree.lineBetween, if_true]
        omega
      | false =>
        obtain ⟨size1, hareas⟩ := @splitAreas_vertical look splitPct area
        rw [hareas]
        simp only [GuiWindowTree.lineBetween, Bool.false_eq_true, if_false]
        omega
    · rcases List.mem_append.mp hline with hline | hline
      · exact ih1 _ _ (autoResize_zero h1) line hline
      · exact ih2 _ _ (autoResize_zero h2) line hline

/-- The same value is returned when nothing is changed. -/
theorem autoResize_simulate (tree : GuiWindowTree GuiWindowPos) (parent : Option GuiWindowParent) (area : Rect) :
    guiWindowAutoResize look true parent tree area = ((guiWindowAutoResize look false parent tree area).1, tree) := by
  induction tree generalizing parent area with
  | leaf window =>
    simp only [guiWindowAutoResize]
    split <;> rfl
  | node splitPct splitHorizontal child1 child2 ih1 ih2 =>
    simp only [guiWindowAutoResize, ih1, ih2]
    split <;> rfl

/-- Windows that are resized tile the area, and the same value is returned, with
no window changed, when the resize is only simulated. -/
theorem guiWindowAutoResize_tiles (look : GuiWindowLook) (parent : Option GuiWindowParent)
    (tree : GuiWindowTree GuiWindowPos) (area : Rect) :
    ((guiWindowAutoResize look false parent tree area).1 = 0 →
        TilesArea (guiWindowAutoResize look false parent tree area).2 area) ∧
      guiWindowAutoResize look true parent tree area = ((guiWindowAutoResize look false parent tree area).1, tree) := by
  refine ⟨fun h => ?_, autoResize_simulate tree parent area⟩
  obtain ⟨-, -, hcovered⟩ := covered_eq tree parent area h
  generalize hresized : (guiWindowAutoResize look false parent tree area).2 = resized at hcovered
  have hle : ∀ cell, covered resized cell ≤ 1 := fun cell => by
    rw [hcovered, Rect.covers]
    split <;> omega
  refine ⟨hresized ▸ autoResize_size tree parent area h, fun window hwindow cell hcell => ?_, ?_,
    fun cell hcell hnone => ?_, hresized ▸ autoResize_thin tree parent area h⟩
  · have hpos := coverCount_pos.mpr ⟨_, List.mem_map_of_mem hwindow, hcell⟩
    have heq := hcovered cell
    rw [covered] at heq
    by_contra hout
    rw [(area.covers_eq_zero cell).mpr hout] at heq
    omega
  · have hpairwise := pairwise_of_coverCount fun cell => (Nat.le_add_right _ _).trans (hle cell)
    exact List.pairwise_map.mp hpairwise
  · have hzero : coverCount (resized.windows.map GuiWindowPos.rect) cell = 0 := by
      by_contra hpos
      obtain ⟨rect, hrect, hcell'⟩ := coverCount_pos.mp (Nat.pos_of_ne_zero hpos)
      obtain ⟨window, hwindow, rfl⟩ := List.mem_map.mp hrect
      exact hnone window hwindow hcell'
    have heq := hcovered cell
    rw [covered, hzero, Nat.zero_add, (area.covers_eq_one cell).mpr hcell] at heq
    exact heq

/-- Two windows side by side, above a third one, on a terminal of 80 columns and 24 rows. -/
def threeWindows : GuiWindowTree GuiWindowPos :=
  .node 70 true (.leaf ⟨0, 0, 0, 0, 100, 100⟩)
    (.node 50 false (.leaf ⟨0, 0, 0, 0, 100, 100⟩) (.leaf ⟨0, 0, 0, 0, 100, 100⟩))

theorem guiWindowAutoResize_tiles_three :
    (guiWindowAutoResize ⟨true, true⟩ false none threeWindows ⟨0, 0, 80, 24⟩).1 = 0 ∧
      TilesArea (guiWindowAutoResize ⟨true, true⟩ false none threeWindows ⟨0, 0, 80, 24⟩).2 ⟨0, 0, 80, 24⟩ :=
  have h : (guiWindowAutoResize ⟨true, true⟩ false none threeWindows ⟨0, 0, 80, 24⟩).1 = 0 := by decide
  ⟨h, (guiWindowAutoResize_tiles ⟨true, true⟩ none threeWindows ⟨0, 0, 80, 24⟩).1 h⟩

end

end Wirc

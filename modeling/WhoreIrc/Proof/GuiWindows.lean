import WhoreIrc.Spec.GuiLayout

/-!
# The windows after each change (`windowsOk_run`)

The leaves of a tree after `replace`, `modify` and `nodeToLeaf`, and from them
that each change keeps the windows of the tree and the list of windows the same.
-/

namespace Wirc

open Framework

namespace GuiWindowTree

variable {Buffer W W' W'' : Type}

theorem windows_map (f : W → W') (tree : GuiWindowTree W) : (tree.map f).windows = tree.windows.map f := by
  induction tree with
  | leaf window => rfl
  | node splitPct splitHorizontal child1 child2 ih1 ih2 => simp only [map, windows, ih1, ih2, List.map_append]

theorem map_map (f : W → W') (g : W' → W'') (tree : GuiWindowTree W) : (tree.map f).map g = tree.map (g ∘ f) := by
  induction tree with
  | leaf window => rfl
  | node splitPct splitHorizontal child1 child2 ih1 ih2 => simp only [map, ih1, ih2]

theorem map_congr {f g : W → W'} {tree : GuiWindowTree W} (h : ∀ window ∈ tree.windows, f window = g window) :
    tree.map f = tree.map g := by
  induction tree with
  | leaf window => exact congrArg leaf (h window (List.mem_singleton_self _))
  | node splitPct splitHorizontal child1 child2 ih1 ih2 =>
    rw [map, map, ih1 fun window hw => h window (List.mem_append_left _ hw),
      ih2 fun window hw => h window (List.mem_append_right _ hw)]

theorem map_inj {f : W → W''} {g : W' → W''} {tree : GuiWindowTree W} {tree' : GuiWindowTree W'}
    (h : tree.map f = tree'.map g) : tree.windows.length = tree'.windows.length := by
  have hlength := congrArg (fun tree => tree.windows.length) h
  simpa only [windows_map, List.length_map] using hlength

variable {window : Nat} {tree sub : GuiWindowTree (GuiWindow Buffer)}

@[simp] theorem names_leaf (w : GuiWindow Buffer) : (leaf w).names = [w.window] := rfl

@[simp] theorem names_node (splitPct : Int) (splitHorizontal : Bool) (child1 child2 : GuiWindowTree (GuiWindow Buffer)) :
    (node splitPct splitHorizontal child1 child2).names = child1.names ++ child2.names := List.map_append ..

theorem windows_leaf (w : GuiWindow Buffer) : (leaf w).windows = [w] := rfl

theorem search_leaf (w : GuiWindow Buffer) : (leaf w).search window = if w.window = window then some w else none := rfl

theorem replace_leaf (w : GuiWindow Buffer) :
    (leaf w).replace window sub = if w.window = window then sub else leaf w := rfl

section

variable (splitPct : Int) (splitHorizontal : Bool) (child1 child2 : GuiWindowTree (GuiWindow Buffer))

theorem windows_node : (node splitPct splitHorizontal child1 child2).windows = child1.windows ++ child2.windows := rfl

theorem search_node : (node splitPct splitHorizontal child1 child2).search window =
    (child1.search window).or (child2.search window) := rfl

theorem replace_node : (node splitPct splitHorizontal child1 child2).replace window sub =
    node splitPct splitHorizontal (child1.replace window sub) (child2.replace window sub) := rfl

end

theorem search_eq_find (tree : GuiWindowTree (GuiWindow Buffer)) :
    tree.search window = tree.windows.find? fun w => w.window = window := by
  induction tree with
  | leaf w =>
    rw [search_leaf, windows_leaf, List.find?_singleton]
    simp only [decide_eq_true_eq]
  | node splitPct splitHorizontal child1 child2 ih1 ih2 => rw [search_node, windows_node, List.find?_append, ih1, ih2]

theorem search_some {w : GuiWindow Buffer} (h : tree.search window = some w) :
    w ∈ tree.windows ∧ w.window = window := by
  rw [search_eq_find] at h
  exact ⟨List.mem_of_find?_eq_some h, by simpa using List.find?_some h⟩

theorem mem_names_of_search {w : GuiWindow Buffer} (h : tree.search window = some w) : window ∈ tree.names := by
  obtain ⟨hmem, rfl⟩ := search_some h
  exact List.mem_map_of_mem hmem

theorem search_of_mem (h : window ∈ tree.names) : ∃ w, tree.search window = some w := by
  obtain ⟨w, hw, rfl⟩ := List.mem_map.mp h
  rw [search_eq_find, ← Option.isSome_iff_exists, List.find?_isSome]
  exact ⟨w, hw, by simp⟩

theorem search_of_notMem (h : window ∉ tree.names) : tree.search window = none := by
  cases hsearch : tree.search window with
  | none => rfl
  | some w => exact absurd (mem_names_of_search hsearch) h

/-! ## A leaf that is replaced -/

theorem replace_of_notMem (h : window ∉ tree.names) : tree.replace window sub = tree := by
  induction tree with
  | leaf w => exact if_neg fun heq => h (by rw [names_leaf, heq]; exact List.mem_singleton_self _)
  | node splitPct splitHorizontal child1 child2 ih1 ih2 =>
    rw [names_node, List.mem_append, not_or] at h
    rw [replace_node, ih1 h.1, ih2 h.2]

/-- Replaced in what was put there. -/
theorem replace_replace {window' : Nat} {sub' : GuiWindowTree (GuiWindow Buffer)}
    (h : window' ∉ tree.names ∨ window' = window) :
    (tree.replace window sub).replace window' sub' = tree.replace window (sub.replace window' sub') := by
  induction tree with
  | leaf w =>
    rw [replace_leaf, replace_leaf]
    by_cases hw : w.window = window
    · rw [if_pos hw, if_pos hw]
    · rw [if_neg hw, if_neg hw]
      refine replace_of_notMem ?_
      rw [names_leaf, List.mem_singleton]
      rcases h with h | rfl
      · rwa [names_leaf, List.mem_singleton] at h
      · exact Ne.symm hw
  | node splitPct splitHorizontal child1 child2 ih1 ih2 =>
    rw [names_node, List.mem_append, not_or] at h
    rw [replace_node, replace_node, replace_node, ih1 (h.imp_left And.left), ih2 (h.imp_left And.right)]

theorem modify_of_notMem {f : GuiWindow Buffer → GuiWindow Buffer} (h : window ∉ tree.names) :
    tree.modify window f = tree := by
  induction tree with
  | leaf w =>
    refine congrArg leaf (if_neg fun heq => h ?_)
    rw [names_leaf, heq]
    exact List.mem_singleton_self _
  | node splitPct splitHorizontal child1 child2 ih1 ih2 =>
    rw [names_node, List.mem_append, not_or] at h
    rw [modify, map]
    exact congrArg₂ (node splitPct splitHorizontal) (ih1 h.1) (ih2 h.2)

theorem replace_modify {f : GuiWindow Buffer → GuiWindow Buffer} :
    (tree.replace window sub).modify window f = tree.replace window (sub.modify window f) := by
  induction tree with
  | leaf w =>
    rw [replace_leaf, replace_leaf]
    by_cases hw : w.window = window
    · rw [if_pos hw, if_pos hw]
    · rw [if_neg hw, if_neg hw, modify, map, if_neg hw]
  | node splitPct splitHorizontal child1 child2 ih1 ih2 =>
    rw [replace_node, replace_node, ← ih1, ← ih2]
    rfl

theorem search_replace {window' : Nat} (hmem : window ∈ tree.names) (h : window' ∉ tree.names ∨ window' = window) :
    (tree.replace window sub).search window' = sub.search window' := by
  induction tree with
  | leaf w => rw [replace_leaf, if_pos (List.mem_singleton.mp hmem).symm]
  | node splitPct splitHorizontal child1 child2 ih1 ih2 =>
    rw [names_node, List.mem_append, not_or] at h
    rw [names_node, List.mem_append] at hmem
    rw [replace_node, search_node]
    by_cases h1 : window ∈ child1.names
    · rw [ih1 h1 (h.imp_left And.left)]
      by_cases h2 : window ∈ child2.names
      · rw [ih2 h2 (h.imp_left And.right), Option.or_self]
      · rw [replace_of_notMem h2, @search_of_notMem _ _ child2, Option.or_none]
        rcases h with h | rfl
        · exact h.2
        · exact h2
    · rw [replace_of_notMem h1, ih2 (hmem.resolve_left h1) (h.imp_left And.right), @search_of_notMem _ _ child1,
        Option.none_or]
      rcases h with h | rfl
      · exact h.1
      · exact h1

/-- Another window is where it was. -/
theorem search_replace_of_ne {window' : Nat} (hne : window' ≠ window) (h : window' ∉ sub.names) :
    (tree.replace window sub).search window' = tree.search window' := by
  induction tree with
  | leaf w =>
    rw [replace_leaf]
    by_cases hw : w.window = window
    · rw [if_pos hw, search_of_notMem h, search_leaf, if_neg (by rw [hw]; exact Ne.symm hne)]
    · rw [if_neg hw]
  | node splitPct splitHorizontal child1 child2 ih1 ih2 => rw [replace_node, search_node, search_node, ih1, ih2]

theorem mem_windows_replace {w : GuiWindow Buffer} (hw : w ∈ (tree.replace window sub).windows) :
    w ∈ tree.windows ∨ w ∈ sub.windows := by
  induction tree with
  | leaf w' =>
    rw [replace_leaf] at hw
    split at hw
    · exact .inr hw
    · exact .inl hw
  | node splitPct splitHorizontal child1 child2 ih1 ih2 =>
    rw [replace_node, windows_node, List.mem_append] at hw
    rw [windows_node, List.mem_append]
    rcases hw with hw | hw
    · exact (ih1 hw).imp_left .inl
    · exact (ih2 hw).imp_left .inr

/-- The windows of the tree, with those of the new one in place of the window. -/
theorem names_replace (hmem : window ∈ tree.names) (hnodup : tree.names.Nodup) :
    (tree.replace window sub).names.Perm (sub.names ++ tree.names.erase window) := by
  induction tree with
  | leaf w =>
    rw [names_leaf, List.mem_singleton] at hmem
    rw [replace_leaf, if_pos hmem.symm, names_leaf, hmem, List.erase_cons_head, List.append_nil]
  | node splitPct splitHorizontal child1 child2 ih1 ih2 =>
    rw [names_node] at hnodup hmem
    obtain ⟨h1, h2, hdisjoint⟩ := List.nodup_append.mp hnodup
    rw [replace_node, names_node, names_node]
    rcases List.mem_append.mp hmem with hmem | hmem
    · have hnot : window ∉ child2.names := fun h => hdisjoint _ hmem _ h rfl
      rw [replace_of_notMem hnot, List.erase_append_left _ hmem, ← List.append_assoc]
      exact (ih1 hmem h1).append_right _
    · have hnot : window ∉ child1.names := fun h => hdisjoint _ h _ hmem rfl
      rw [replace_of_notMem hnot, List.erase_append_right _ hnot]
      refine ((ih2 hmem h2).append_left _).trans ?_
      rw [← List.append_assoc, ← List.append_assoc]
      exact List.perm_append_comm.append_right _

/-! ## Changes that keep the windows -/

theorem names_map {f : GuiWindow Buffer → GuiWindow Buffer} (h : ∀ w, (f w).window = w.window)
    (tree : GuiWindowTree (GuiWindow Buffer)) : (tree.map f).names = tree.names := by
  rw [names, windows_map, List.map_map]
  exact List.map_congr_left fun w _ => h w

theorem names_modify {f : GuiWindow Buffer → GuiWindow Buffer} (h : ∀ w, (f w).window = w.window)
    (tree : GuiWindowTree (GuiWindow Buffer)) : (tree.modify window f).names = tree.names :=
  names_map (fun w => by split <;> first | exact h w | rfl) tree

theorem search_map {f : GuiWindow Buffer → GuiWindow Buffer} (h : ∀ w, (f w).window = w.window)
    (tree : GuiWindowTree (GuiWindow Buffer)) : (tree.map f).search window = (tree.search window).map f := by
  rw [search_eq_find, search_eq_find, windows_map, List.find?_map]
  congr 2
  funext w
  rw [Function.comp_apply, h]

theorem names_modifySplitPct (f : Int → Bool → Int) (path : List Bool) (tree : GuiWindowTree (GuiWindow Buffer)) :
    (tree.modifySplitPct f path).names = tree.names := by
  induction tree generalizing path with
  | leaf w => rcases path with - | ⟨_ | _, path⟩ <;> rfl
  | node splitPct splitHorizontal child1 child2 ih1 ih2 =>
    rcases path with - | ⟨_ | _, path⟩
    · rfl
    · rw [modifySplitPct, names_node, names_node, ih2]
    · rw [modifySplitPct, names_node, names_node, ih1]

theorem names_balance (tree : GuiWindowTree (GuiWindow Buffer)) : tree.balance.names = tree.names := by
  induction tree with
  | leaf w => rfl
  | node splitPct splitHorizontal child1 child2 ih1 ih2 =>
    rw [balance, names_node, names_node, ih1, ih2]

theorem names_place (tree : GuiWindowTree (GuiWindow Buffer)) (positions : GuiWindowTree GuiWindowPos) :
    (tree.place positions).names = tree.names := by
  induction tree generalizing positions with
  | leaf w => cases positions <;> rfl
  | node splitPct splitHorizontal child1 child2 ih1 ih2 =>
    cases positions with
    | leaf pos => rfl
    | node splitPct' splitHorizontal' pos1 pos2 => rw [place, names_node, names_node, ih1, ih2]

/-! ## Windows that are merged -/

theorem isLeafOf_eq (h : tree.isLeafOf window = true) : ∃ w, tree = leaf w ∧ w.window = window := by
  cases tree with
  | leaf w => exact ⟨w, rfl, by simpa [isLeafOf] using h⟩
  | node splitPct splitHorizontal child1 child2 => cases h

theorem nodeToLeaf_of_notMem {w : GuiWindow Buffer} (h : window ∉ tree.names) : tree.nodeToLeaf window w = tree := by
  induction tree with
  | leaf w => rfl
  | node splitPct splitHorizontal child1 child2 ih1 ih2 =>
    rw [names_node, List.mem_append, not_or] at h
    have hleaf : ∀ {child : GuiWindowTree (GuiWindow Buffer)}, window ∉ child.names →
        child.isLeafOf window = false := by
      intro child hchild
      rw [Bool.eq_false_iff]
      intro hleaf
      obtain ⟨w', rfl, rfl⟩ := isLeafOf_eq hleaf
      exact hchild (List.mem_singleton_self _)
    rw [nodeToLeaf, hleaf h.1, hleaf h.2, ih1 h.1, ih2 h.2]
    rfl

theorem sister_mem {sisterTree : GuiWindowTree (GuiWindow Buffer)} (h : tree.sister window = some sisterTree) :
    window ∈ tree.names ∧ ∀ name ∈ sisterTree.names, name ∈ tree.names := by
  induction tree with
  | leaf w => cases h
  | node splitPct splitHorizontal child1 child2 ih1 ih2 =>
    rw [sister] at h
    rw [names_node]
    simp only [List.mem_append]
    split at h
    · obtain ⟨w, rfl, rfl⟩ := isLeafOf_eq ‹_›
      cases h
      exact ⟨.inl (List.mem_singleton_self _), fun name hname => .inr hname⟩
    · split at h
      · obtain ⟨w, rfl, rfl⟩ := isLeafOf_eq ‹_›
        cases h
        exact ⟨.inr (List.mem_singleton_self _), fun name hname => .inl hname⟩
      · rw [Option.or_eq_some_iff] at h
        rcases h with h | ⟨-, h⟩
        · exact ⟨.inl (ih1 h).1, fun name hname => .inl ((ih1 h).2 name hname)⟩
        · exact ⟨.inr (ih2 h).1, fun name hname => .inr ((ih2 h).2 name hname)⟩

theorem mem_windows_nodeToLeaf {w w' : GuiWindow Buffer} (hw : w' ∈ (tree.nodeToLeaf window w).windows) :
    w' ∈ tree.windows ∨ w' = w := by
  induction tree with
  | leaf w => exact .inl hw
  | node splitPct splitHorizontal child1 child2 ih1 ih2 =>
    rw [nodeToLeaf] at hw
    split at hw
    · exact .inr (List.mem_singleton.mp hw)
    · rw [windows, List.mem_append] at hw ⊢
      rcases hw with hw | hw
      · exact (ih1 hw).imp_left .inl
      · exact (ih2 hw).imp_left .inr

/-- The window itself stays. -/
theorem mem_nodeToLeaf {w : GuiWindow Buffer} (hw : w.window = window) (hmem : window ∈ tree.names) :
    window ∈ (tree.nodeToLeaf window w).names := by
  induction tree with
  | leaf w => exact hmem
  | node splitPct splitHorizontal child1 child2 ih1 ih2 =>
    rw [nodeToLeaf]
    split
    · rw [names_leaf, hw]
      exact List.mem_singleton_self _
    · rw [names_node, List.mem_append] at hmem ⊢
      exact hmem.imp ih1 ih2

/-- The sister of a window is taken out. -/
theorem names_nodeToLeaf {s w : GuiWindow Buffer} (h : tree.sister window = some (leaf s)) (hw : w.window = window)
    (hnodup : tree.names.Nodup) : (tree.nodeToLeaf window w).names = tree.names.erase s.window := by
  induction tree with
  | leaf w => cases h
  | node splitPct splitHorizontal child1 child2 ih1 ih2 =>
    rw [names_node] at hnodup
    obtain ⟨h1, h2, hdisjoint⟩ := List.nodup_append.mp hnodup
    rw [sister] at h
    rw [nodeToLeaf, names_node]
    split at h
    · rename_i hleaf
      obtain ⟨w', rfl, rfl⟩ := isLeafOf_eq hleaf
      cases h
      have hne : w'.window ≠ s.window := hdisjoint _ (List.mem_singleton_self _) _ (List.mem_singleton_self _)
      rw [hleaf, Bool.true_or, if_pos rfl, names_leaf, names_leaf, names_leaf, hw, List.singleton_append,
        List.erase_cons_tail (by simpa using hne), List.erase_cons_head]
    · split at h
      · rename_i hleaf
        obtain ⟨w', rfl, rfl⟩ := isLeafOf_eq hleaf
        cases h
        rw [hleaf, Bool.or_true, if_pos rfl, names_leaf, names_leaf, names_leaf, hw, List.singleton_append,
          List.erase_cons_head]
      · rename_i hleaf1 hleaf2
        rw [Bool.not_eq_true] at hleaf1 hleaf2
        rw [hleaf1, hleaf2, Bool.or_self, if_neg Bool.false_ne_true, names_node]
        rw [Option.or_eq_some_iff] at h
        rcases h with h | ⟨-, h⟩
        · obtain ⟨hmem, hs⟩ := sister_mem h
          have hsister := hs s.window (List.mem_singleton_self _)
          rw [ih1 h h1, nodeToLeaf_of_notMem fun hmem2 => hdisjoint _ hmem _ hmem2 rfl,
            List.erase_append_left _ hsister]
        · obtain ⟨hmem, hs⟩ := sister_mem h
          have hsister := hs s.window (List.mem_singleton_self _)
          rw [ih2 h h2, nodeToLeaf_of_notMem fun hmem1 => hdisjoint _ hmem1 _ hmem rfl,
            List.erase_append_right _ fun hmem1 => hdisjoint _ hmem1 _ hsister rfl]

end GuiWindowTree

/-! ## Every change -/

section

variable {Buffer : Type} {look : GuiWindowLook} {area : Rect} {state state' : GuiWindows Buffer} {window : Nat}

/-- Another tree with the same windows. -/
theorem windowsOk_tree (h : WindowsOk state) {tree : GuiWindowTree (GuiWindow Buffer)}
    (hnames : tree.names = state.tree.names) : WindowsOk { state with tree } :=
  ⟨hnames ▸ h.nodup, hnames ▸ h.created, hnames ▸ h.list, hnames ▸ h.current⟩

/-- The tree after a split that is done. -/
theorem split_eq {split : GuiWindowPos → Option (GuiWindowPos × GuiWindowPos)} {w : GuiWindow Buffer}
    {newPos pos : GuiWindowPos} (h : WindowsOk state) (hw : state.tree.search window = some w)
    (hsplit : split w.pos = some (newPos, pos)) : ∃ splitPct splitHorizontal,
    splitHorizontal = decide (newPos.winWidthPct = 100) ∧
    splitPct = (if newPos.winWidthPct = 100 then newPos.winHeightPct else newPos.winWidthPct) ∧
    guiWindowSplit split state window = some
      { tree := state.tree.replace window (.node splitPct splitHorizontal (.leaf { w with pos })
          (.leaf ⟨state.created, newPos, w.buffer, none, none⟩))
        guiWindows := state.guiWindows ++ [state.created]
        currentWindow := state.created
        created := state.created + 1 } := by
  obtain ⟨hmem, rfl⟩ := GuiWindowTree.search_some hw
  refine ⟨_, _, rfl, rfl, ?_⟩
  have hne : state.created ≠ w.window := fun heq =>
    Nat.lt_irrefl _ (heq ▸ h.created _ (GuiWindowTree.mem_names_of_search hw))
  rw [guiWindowSplit, hw]
  dsimp only
  rw [hsplit]
  dsimp only [guiWindowNew]
  rw [GuiWindowTree.replace_modify]
  simp only [GuiWindowTree.modify, GuiWindowTree.map, if_pos, if_neg hne]

/-- The windows with a new one. -/
theorem windowsOk_new (h : WindowsOk state) {w : GuiWindow Buffer} (hw : state.tree.search window = some w)
    (buffer : Buffer)
    (pos : GuiWindowPos) : (guiWindowNew state w buffer pos).tree.names.Perm (state.created :: state.tree.names) ∧
      WindowsOk (guiWindowNew state w buffer pos) := by
  obtain ⟨-, rfl⟩ := GuiWindowTree.search_some hw
  have hmem := GuiWindowTree.mem_names_of_search hw
  have hfresh : state.created ∉ state.tree.names := fun hmem => Nat.lt_irrefl _ (h.created _ hmem)
  have hperm : (guiWindowNew state w buffer pos).tree.names.Perm (state.created :: state.tree.names) := by
    refine (GuiWindowTree.names_replace hmem h.nodup).trans ?_
    refine (List.Perm.swap state.created w.window _).trans ?_
    exact (List.perm_cons_erase hmem).symm.cons _
  refine ⟨hperm, hperm.nodup_iff.mpr (List.nodup_cons.mpr ⟨hfresh, h.nodup⟩), fun name hname => ?_, ?_, ?_⟩
  · rcases List.mem_cons.mp (hperm.mem_iff.mp hname) with rfl | hname
    · exact Nat.lt_succ_self _
    · exact Nat.lt_succ_of_lt (h.created name hname)
  · refine (List.perm_append_comm.trans ?_).trans hperm.symm
    exact h.list.cons _
  · exact hperm.mem_iff.mpr (List.mem_cons_of_mem _ h.current)

theorem windowsOk_split {split : GuiWindowPos → Option (GuiWindowPos × GuiWindowPos)} (h : WindowsOk state)
    (hrun : guiWindowSplit split state window = some state') : WindowsOk state' := by
  unfold guiWindowSplit at hrun
  cases hw : state.tree.search window with
  | none =>
    rw [hw] at hrun
    cases hrun
  | some w =>
    rw [hw] at hrun
    dsimp only at hrun
    split at hrun
    · cases hrun
      exact h
    · rename_i newPos pos _
      cases hrun
      obtain ⟨hperm, hnew⟩ := windowsOk_new h hw w.buffer newPos
      have hnames : ((guiWindowNew state w w.buffer newPos).tree.modify window fun w => { w with pos }).names =
          (guiWindowNew state w w.buffer newPos).tree.names := by
        refine GuiWindowTree.names_modify ?_ _
        exact fun _ => rfl
      have htree := windowsOk_tree hnew hnames
      refine ⟨htree.nodup, htree.created, htree.list, ?_⟩
      dsimp only
      rw [hnames]
      exact hperm.mem_iff.mpr List.mem_cons_self

theorem windowsOk_merge (h : WindowsOk state) (hrun : guiWindowMerge look state window = some state') :
    WindowsOk state' := by
  unfold guiWindowMerge at hrun
  cases hw : state.tree.search window with
  | none =>
    rw [hw] at hrun
    cases hrun
  | some w =>
    obtain ⟨-, hwindow⟩ := GuiWindowTree.search_some hw
    have hmem := GuiWindowTree.mem_names_of_search hw
    rw [hw] at hrun
    dsimp only at hrun
    split at hrun
    · rename_i s hsister
      cases hrun
      have hnames := @GuiWindowTree.names_nodeToLeaf _ window state.tree s
        { w with pos := guiWindowMergePos look w.pos s.pos } hsister hwindow h.nodup
      have hperm := h.list.erase s.window
      refine ⟨?_, fun name hname => ?_, ?_, ?_⟩
      · dsimp only
        rw [hnames]
        exact h.nodup.erase _
      · dsimp only at hname ⊢
        rw [hnames] at hname
        exact h.created _ (List.mem_of_mem_erase hname)
      · dsimp only [guiWindowFree]
        rw [hnames]
        exact hperm
      · have hkept := @GuiWindowTree.mem_nodeToLeaf _ window state.tree
          { w with pos := guiWindowMergePos look w.pos s.pos } hwindow hmem
        rw [hnames] at hkept
        dsimp only [guiWindowFree]
        rw [hnames]
        split
        · -- the current window was the sister: the first window of the list is the current one
          cases hrest : state.guiWindows.erase s.window with
          | nil => exact hkept
          | cons first rest =>
            rw [← hperm.mem_iff, hrest]
            exact List.mem_cons_self
        · rename_i hne
          exact (List.mem_erase_of_ne hne).mpr h.current
    · cases hrun
      exact h

theorem windowsOk_mergeAll (h : WindowsOk state) (hrun : guiWindowMergeAll area state window = some state') :
    WindowsOk state' := by
  unfold guiWindowMergeAll at hrun
  cases hw : state.tree.search window with
  | none =>
    rw [hw] at hrun
    cases hrun
  | some w =>
    rw [hw] at hrun
    dsimp only at hrun
    split at hrun
    · cases hrun
      obtain ⟨-, rfl⟩ := GuiWindowTree.search_some hw
      refine ⟨List.pairwise_singleton _ _, fun name hname => ?_, List.Perm.refl _, List.mem_singleton_self _⟩
      rw [GuiWindowTree.names_leaf, List.mem_singleton] at hname
      rw [hname]
      exact h.created _ (GuiWindowTree.mem_names_of_search hw)
    · cases hrun
      exact h

theorem windowsOk_run (h : WindowsOk state) {op : GuiWindowOp Buffer} (hrun : op.run look area state = some state') :
    WindowsOk state' := by
  cases op with
  | splitHorizontal window percentage => exact windowsOk_split h hrun
  | splitVertical window percentage => exact windowsOk_split h hrun
  | merge window => exact windowsOk_merge h hrun
  | mergeAll window => exact windowsOk_mergeAll h hrun
  | «switch» window =>
    obtain ⟨w, hw, rfl⟩ := Option.map_eq_some_iff.mp hrun
    exact ⟨h.nodup, h.created, h.list, GuiWindowTree.mem_names_of_search hw⟩
  | switchToBuffer window buffer =>
    obtain ⟨w, hw, rfl⟩ := Option.map_eq_some_iff.mp hrun
    refine windowsOk_tree h (GuiWindowTree.names_modify ?_ _)
    exact fun _ => rfl
  | resize parent isChild1 percentage =>
    cases hrun
    rw [guiWindowResize]
    split
    · exact windowsOk_tree h (GuiWindowTree.names_modifySplitPct _ _ _)
    · exact h
  | resizeDelta parent isChild1 deltaPercentage =>
    cases hrun
    rw [guiWindowResizeDelta]
    split
    · exact windowsOk_tree h (GuiWindowTree.names_modifySplitPct _ _ _)
    · exact h
  | balance =>
    cases hrun
    exact windowsOk_tree h (GuiWindowTree.names_balance _)
  | refresh windowAutoZoom =>
    have hplace := windowsOk_tree h (GuiWindowTree.names_place state.tree
      (guiWindowAutoResize look false none (state.tree.map GuiWindow.pos) area).2)
    rw [GuiWindowOp.run, guiWindowRefreshWindows] at hrun
    dsimp only at hrun
    split at hrun
    · exact windowsOk_mergeAll hplace hrun
    · cases hrun
      exact hplace

/-- The windows are right in all states of a run. -/
theorem windowsOk_runs (h : WindowsOk state) (ops : List (GuiWindowOp Buffer))
    (hrun : ops.foldlM (GuiWindowOp.run look area) state = some state') : WindowsOk state' := by
  induction ops generalizing state with
  | nil =>
    cases hrun
    exact h
  | cons op ops ih =>
    rw [List.foldlM_cons, Option.bind_eq_bind, Option.bind_eq_some_iff] at hrun
    obtain ⟨state₁, hop, hrun⟩ := hrun
    exact ih (windowsOk_run h hop) hrun

end

end Wirc

import WhoreIrc.Impl.GuiLayout

/-!
# A layout that is restored

What is done to windows between the time when a layout is stored and the time
when it is applied, and what is the same then.
-/

namespace Wirc

open Framework

/-- What changes windows. The child that is resized is the first or the second one of the node at a path. -/
inductive GuiWindowOp (Buffer : Type)
  | splitHorizontal (window : Nat) (percentage : Int)
  | splitVertical (window : Nat) (percentage : Int)
  | merge (window : Nat)
  | mergeAll (window : Nat)
  | switch (window : Nat)
  | switchToBuffer (window : Nat) (buffer : Buffer)
  | resize (parent : List Bool) (isChild1 : Bool) (percentage : Int)
  | resizeDelta (parent : List Bool) (isChild1 : Bool) (deltaPercentage : Int)
  | balance
  | refresh (windowAutoZoom : Bool)

section

variable {Buffer : Type} (look : GuiWindowLook) (area : Rect)

def GuiWindowOp.run (state : GuiWindows Buffer) : GuiWindowOp Buffer → Option (GuiWindows Buffer)
  | .splitHorizontal window percentage => guiWindowSplitHorizontal look state window percentage
  | .splitVertical window percentage => guiWindowSplitVertical look state window percentage
  | .merge window => guiWindowMerge look state window
  | .mergeAll window => guiWindowMergeAll area state window
  | .switch window => guiWindowSwitch state window
  | .switchToBuffer window buffer => guiWindowSetBuffer state window buffer
  | .resize parent isChild1 percentage => some (guiWindowResize look area state parent isChild1 percentage)
  | .resizeDelta parent isChild1 deltaPercentage => some (guiWindowResizeDelta look area state parent isChild1 deltaPercentage)
  | .balance => some { state with tree := state.tree.balance }
  | .refresh windowAutoZoom => guiWindowRefreshWindows look area windowAutoZoom state

/-- The windows of a tree. -/
def GuiWindowTree.names (tree : GuiWindowTree (GuiWindow Buffer)) : List Nat := tree.windows.map GuiWindow.window

/-- Each window is in one leaf of the tree and in the list, and one of them is the current one. -/
structure WindowsOk (state : GuiWindows Buffer) : Prop where
  nodup : state.tree.names.Nodup
  created : ∀ window ∈ state.tree.names, window < state.created
  list : state.guiWindows.Perm state.tree.names
  current : state.currentWindow ∈ state.tree.names

/-- The tree with the buffer of each window, and which window is the current one. -/
def displayedTree (state : GuiWindows Buffer) : GuiWindowTree (Buffer × Bool) :=
  state.tree.map fun window => (window.buffer, window.window = state.currentWindow)

/-- The splits of a layout succeed in a window at a position. -/
def LayoutFits : GuiLayoutWindow → GuiWindowPos → Prop
  | .leaf .., _ => True
  | .node _ splitPct splitHoriz child1 child2, pos =>
    ∃ newPos oldPos, guiLayoutSplitPos look splitHoriz splitPct pos = some (newPos, oldPos) ∧
      LayoutFits child1 oldPos ∧ LayoutFits child2 newPos

/-- The names of a buffer are those of no other open buffer that comes before it. -/
def FoundByName (pluginName name : Buffer → Str) (guiBuffers : List Buffer) (buffer : Buffer) : Prop :=
  guiBuffers.find? (fun buffer' => pluginName buffer = pluginName buffer' ∧ name buffer = name buffer') = some buffer

end

end Wirc

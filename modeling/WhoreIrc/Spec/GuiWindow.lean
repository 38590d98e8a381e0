import WhoreIrc.Impl.GuiWindow
import WhoreIrc.Spec.GuiLayout

/-!
# Windows that tile an area

What is on the screen is read from the positions and the sizes of the windows:
the rectangle that a subtree takes, and for each node the line between the
rectangles of its two children.
-/

namespace Wirc

open Framework

def GuiWindowPos.rect (window : GuiWindowPos) : Rect :=
  ⟨window.winX, window.winY, window.winWidth, window.winHeight⟩

namespace GuiWindowTree

/-- The rectangle of a subtree: the first child is at the bottom or on the left. -/
def rect : GuiWindowTree GuiWindowPos → Rect
  | .leaf window => window.rect
  | .node _ splitHorizontal child1 child2 =>
    if splitHorizontal then
      ⟨child2.rect.x, child2.rect.y, child2.rect.width, child1.rect.y + child1.rect.height - child2.rect.y⟩
    else ⟨child1.rect.x, child1.rect.y, child2.rect.x + child2.rect.width - child1.rect.x, child1.rect.height⟩

/-- What is between the rectangles of two children. -/
def lineBetween (splitHorizontal : Bool) (rect1 rect2 : Rect) : Rect :=
  if splitHorizontal then
    ⟨rect2.x, rect2.y + rect2.height, rect2.width, rect1.y - (rect2.y + rect2.height)⟩
  else ⟨rect1.x + rect1.width, rect1.y, rect2.x - (rect1.x + rect1.width), rect1.height⟩

/-- The lines between the two children of each node. -/
def separatorLines : GuiWindowTree GuiWindowPos → List Rect
  | .leaf _ => []
  | .node _ splitHorizontal child1 child2 =>
    lineBetween splitHorizontal child1.rect child2.rect :: (child1.separatorLines ++ child2.separatorLines)

end GuiWindowTree

/-- The windows of a tree and the lines between them tile an area. -/
structure TilesArea (tree : GuiWindowTree GuiWindowPos) (area : Rect) : Prop where
  size : ∀ window ∈ tree.windows, 1 ≤ window.winWidth ∧ 2 ≤ window.winHeight
  inside : ∀ window ∈ tree.windows, ∀ cell, window.rect.Has cell → area.Has cell
  disjoint : tree.windows.Pairwise fun window window' => ∀ cell, ¬ (window.rect.Has cell ∧ window'.rect.Has cell)
  rest : ∀ cell, area.Has cell → (∀ window ∈ tree.windows, ¬ window.rect.Has cell) →
    tree.separatorLines.countP (fun line => line.Has cell) = 1
  thin : ∀ line ∈ tree.separatorLines, line.width ≤ 1 ∨ line.height ≤ 1

/-!
## Windows that are laid out, and split or merged

A tree is laid out on an area when its windows are where `gui_window_auto_resize`
puts them (`LaidOut`). What is asked of a split and of a merge is that they leave
such a tree (`SplitOrMerge.Right`).
-/

section

variable {Buffer : Type} (look : GuiWindowLook)

/-- The windows are where `gui_window_auto_resize` puts them on an area. -/
structure LaidOut (area : Rect) (tree : GuiWindowTree (GuiWindow Buffer)) : Prop where
  fits : (guiWindowAutoResize look false none (tree.map GuiWindow.pos) area).1 = 0
  places : (guiWindowAutoResize look false none (tree.map GuiWindow.pos) area).2.windows.map GuiWindowPos.rect =
    tree.windows.map fun window => window.pos.rect

/-- What is done to a window. -/
inductive SplitOrMerge
  | splitHorizontal (percentage : Int)
  | splitVertical (percentage : Int)
  | merge

namespace SplitOrMerge

def run (state : GuiWindows Buffer) (window : Nat) : SplitOrMerge → Option (GuiWindows Buffer)
  | .splitHorizontal percentage => guiWindowSplitHorizontal look state window percentage
  | .splitVertical percentage => guiWindowSplitVertical look state window percentage
  | .merge => guiWindowMerge look state window

/-- The tests of a split fail, or the sister is not a window. -/
def Refused (state : GuiWindows Buffer) (window : Nat) : SplitOrMerge → Prop
  | .splitHorizontal percentage =>
    ∃ w, state.tree.search window = some w ∧ guiWindowSplitHorizontalPos look percentage w.pos = none
  | .splitVertical percentage =>
    ∃ w, state.tree.search window = some w ∧ guiWindowSplitVerticalPos look percentage w.pos = none
  | .merge => ∀ sister, state.tree.sister window ≠ some (.leaf sister)

/-- The new tree is laid out on the area, and nothing is changed if it is refused. -/
def Right (area : Rect) (state : GuiWindows Buffer) (window : Nat) (op : SplitOrMerge) : Prop :=
  ∃ state', op.run look state window = some state' ∧ (op.Refused look state window → state' = state) ∧
    (¬ op.Refused look state window → LaidOut look area state'.tree)

/-- The separators are those that the code counts: none where one window is put
above another, and the same in both directions where windows are merged. -/
def SeparatorsCounted : SplitOrMerge → Prop
  | .splitHorizontal _ => look.separatorHorizontal = false
  | .splitVertical _ => True
  | .merge => look.separatorHorizontal = look.separatorVertical

end SplitOrMerge

end

end Wirc

import WhoreIrc.Framework.Rect

/-!
# The tree of windows (`gui/gui-window.c`, `gui/curses/gui-curses-window.c`)

A leaf of the tree is a window, and a node splits its area between its two
children. The sizes of a terminal are far below those whose product with 100
does not fit in an `int`. The interface is initialized (`gui_init_ok`).
-/

namespace Wirc

open Framework

/-- The position and the size of a `t_gui_window`. -/
structure GuiWindowPos where
  winX : Int
  winY : Int
  winWidth : Int
  winHeight : Int
  winWidthPct : Int
  winHeightPct : Int
  deriving DecidableEq

/-- `struct t_gui_window_tree`, with what is known of the window in each leaf. -/
inductive GuiWindowTree (Window : Type)
  | leaf (window : Window)
  | node (splitPct : Int) (splitHorizontal : Bool) (child1 child2 : GuiWindowTree Window)

namespace GuiWindowTree

variable {Window Window' : Type}

/-- The windows, from left to right in the tree. -/
def windows : GuiWindowTree Window → List Window
  | .leaf window => [window]
  | .node _ _ child1 child2 => child1.windows ++ child2.windows

/-- The tree with other windows in its leaves. -/
def map (f : Window → Window') : GuiWindowTree Window → GuiWindowTree Window'
  | .leaf window => .leaf (f window)
  | .node splitPct splitHorizontal child1 child2 => .node splitPct splitHorizontal (child1.map f) (child2.map f)

end GuiWindowTree

/-- The options that show a line between windows. -/
structure GuiWindowLook where
  separatorHorizontal : Bool
  separatorVertical : Bool

/-- What a child reads of its parent node. -/
structure GuiWindowParent where
  splitPct : Int
  splitHorizontal : Bool
  isChild1 : Bool

section

variable (look : GuiWindowLook)

/-- The areas of the two children of a node, in `gui_window_auto_resize`. -/
def guiWindowSplitAreas (splitPct : Int) (splitHorizontal : Bool) (area : Rect) : Rect × Rect :=
  if splitHorizontal then
    let separator := if look.separatorHorizontal then 1 else 0
    let size1 := ((area.height - separator) * splitPct).tdiv 100
    let size2 := area.height - size1 - separator
    (⟨area.x, area.y + size1 + separator, area.width, size2⟩, ⟨area.x, area.y, area.width, size1⟩)
  else
    let separator := if look.separatorVertical then 1 else 0
    let size1 := (area.width * splitPct).tdiv 100
    let size2 := area.width - size1 - separator
    (⟨area.x, area.y, size1, area.height⟩, ⟨area.x + size1 + separator, area.y, size2, area.height⟩)

/-- A window in its area, with the percentages of its parent node. -/
def guiWindowPlace (parent : Option GuiWindowParent) (area : Rect) (window : GuiWindowPos) : GuiWindowPos :=
  let window := { window with winX := area.x, winY := area.y, winWidth := area.width, winHeight := area.height }
  match parent with
  | none => window
  | some parent =>
    if parent.splitHorizontal then
      { window with
        winWidthPct := 100
        winHeightPct := if parent.isChild1 then 100 - parent.splitPct else parent.splitPct }
    else
      { window with
        winWidthPct := if parent.isChild1 then parent.splitPct else 100 - parent.splitPct
        winHeightPct := 100 }

/-- `gui_window_auto_resize`: what it returns, and the windows after it. -/
def guiWindowAutoResize (simulate : Bool) :
    Option GuiWindowParent → GuiWindowTree GuiWindowPos → Rect → Int × GuiWindowTree GuiWindowPos
  | parent, .leaf window, area =>
    if area.width < 1 ∨ area.height < 2 then (-1, .leaf window)
    else (0, .leaf (if simulate then window else guiWindowPlace parent area window))
  | _, .node splitPct splitHorizontal child1 child2, area =>
    let areas := guiWindowSplitAreas look splitPct splitHorizontal area
    let resized1 := guiWindowAutoResize simulate (some ⟨splitPct, splitHorizontal, true⟩) child1 areas.1
    if resized1.1 < 0 then (-1, .node splitPct splitHorizontal resized1.2 child2)
    else
      let resized2 := guiWindowAutoResize simulate (some ⟨splitPct, splitHorizontal, false⟩) child2 areas.2
      (if resized2.1 < 0 then -1 else 0, .node splitPct splitHorizontal resized1.2 resized2.2)

end

end Wirc

import WhoreIrc.Framework.Chain
import WhoreIrc.Impl.CString
import WhoreIrc.Impl.GuiWindow

/-!
# Windows that are split and merged (`gui/gui-window.c`, `gui/curses/gui-curses-window.c`)

The windows are in the leaves of the tree, and in the order of the list of
windows. A window is named by how many were created before it, and memory is
never short. Positions are those that the functions compute: the chat area, bars
and the Curses windows are left out. `none` is where the window given is not open.
-/

namespace Wirc

open Framework

/-- `struct t_gui_window`. -/
structure GuiWindow (Buffer : Type) where
  window : Nat
  pos : GuiWindowPos
  buffer : Buffer
  layoutPluginName : Option Str
  layoutBufferName : Option Str

/-- `gui_windows_tree`, `gui_windows` and `gui_current_window`. -/
structure GuiWindows (Buffer : Type) where
  tree : GuiWindowTree (GuiWindow Buffer)
  guiWindows : List Nat
  currentWindow : Nat
  created : Nat

namespace GuiWindowTree

variable {Buffer : Type} (window : Nat)

/-- The window of a leaf. -/
def search : GuiWindowTree (GuiWindow Buffer) → Option (GuiWindow Buffer)
  | .leaf window' => if window'.window = window then some window' else none
  | .node _ _ child1 child2 => (child1.search).or child2.search

/-- The leaf of a window becomes a tree. -/
def replace : GuiWindowTree (GuiWindow Buffer) → GuiWindowTree (GuiWindow Buffer) → GuiWindowTree (GuiWindow Buffer)
  | .leaf window', tree => if window'.window = window then tree else .leaf window'
  | .node splitPct splitHorizontal child1 child2, tree =>
    .node splitPct splitHorizontal (child1.replace tree) (child2.replace tree)

/-- The window of a leaf is changed. -/
def modify (f : GuiWindow Buffer → GuiWindow Buffer) :
    GuiWindowTree (GuiWindow Buffer) → GuiWindowTree (GuiWindow Buffer) :=
  map fun window' => if window'.window = window then f window' else window'

/-- The tree is a leaf (`tree->window`). -/
def isLeaf : GuiWindowTree (GuiWindow Buffer) → Bool
  | .leaf _ => true
  | .node .. => false

/-- The tree is the leaf of the window. -/
def isLeafOf : GuiWindowTree (GuiWindow Buffer) → Bool
  | .leaf window' => window'.window = window
  | .node .. => false

/-- The other child of the parent node of a window. -/
def sister : GuiWindowTree (GuiWindow Buffer) → Option (GuiWindowTree (GuiWindow Buffer))
  | .leaf _ => none
  | .node _ _ child1 child2 =>
    if child1.isLeafOf window then some child2
    else if child2.isLeafOf window then some child1
    else (child1.sister).or child2.sister

/-- `gui_window_tree_node_to_leaf`, of the parent node of a window. -/
def nodeToLeaf (leaf : GuiWindow Buffer) : GuiWindowTree (GuiWindow Buffer) → GuiWindowTree (GuiWindow Buffer)
  | .leaf window' => .leaf window'
  | .node splitPct splitHorizontal child1 child2 =>
    if child1.isLeafOf window || child2.isLeafOf window then .leaf leaf
    else .node splitPct splitHorizontal (child1.nodeToLeaf leaf) (child2.nodeToLeaf leaf)

/-- The windows of a tree at other positions. -/
def place : GuiWindowTree (GuiWindow Buffer) → GuiWindowTree GuiWindowPos → GuiWindowTree (GuiWindow Buffer)
  | .leaf window, .leaf pos => .leaf { window with pos }
  | .node splitPct splitHorizontal child1 child2, .node _ _ pos1 pos2 =>
    .node splitPct splitHorizontal (child1.place pos1) (child2.place pos2)
  | tree, _ => tree

/-- `split_pct` of a node is changed: the node at `path`, where `true` is the first child. -/
def modifySplitPct (f : (splitPct : Int) → (splitHorizontal : Bool) → Int) : (path : List Bool) →
    GuiWindowTree (GuiWindow Buffer) → GuiWindowTree (GuiWindow Buffer)
  | _, .leaf window => .leaf window
  | [], .node splitPct splitHorizontal child1 child2 => .node (f splitPct splitHorizontal) splitHorizontal child1 child2
  | true :: path, .node splitPct splitHorizontal child1 child2 =>
    .node splitPct splitHorizontal (child1.modifySplitPct f path) child2
  | false :: path, .node splitPct splitHorizontal child1 child2 =>
    .node splitPct splitHorizontal child1 (child2.modifySplitPct f path)

/-- `gui_window_balance_count`. -/
def balanceCount (splitHorizontal : Bool) : GuiWindowTree (GuiWindow Buffer) → Int
  | .leaf _ => 0
  | .node _ splitHorizontal' child1 child2 =>
    (if splitHorizontal' = splitHorizontal ∧ (child1.isLeaf ∨ child2.isLeaf) then 1 else 0) +
      child1.balanceCount splitHorizontal + child2.balanceCount splitHorizontal

/-- `gui_window_balance`. -/
def balance : GuiWindowTree (GuiWindow Buffer) → GuiWindowTree (GuiWindow Buffer)
  | .leaf window => .leaf window
  | .node _ splitHorizontal child1 child2 =>
    let countLeft := child1.balanceCount splitHorizontal + 1
    let countRight := child2.balanceCount splitHorizontal + 1
    let newSplitPct :=
      if countRight > countLeft then (countLeft * 100).tdiv (countLeft + countRight)
      else (countRight * 100).tdiv (countLeft + countRight)
    let newSplitPct := max 1 (min 99 newSplitPct)
    let newSplitPct :=
      if splitHorizontal ∧ countRight > countLeft ∨ !splitHorizontal ∧ countLeft > countRight then 100 - newSplitPct
      else newSplitPct
    .node newSplitPct splitHorizontal child1.balance child2.balance

end GuiWindowTree

section

variable {Buffer : Type} (look : GuiWindowLook)

/-- `gui_window_new`, with a parent window. -/
def guiWindowNew (state : GuiWindows Buffer) (parentWindow : GuiWindow Buffer) (buffer : Buffer) (pos : GuiWindowPos) :
    GuiWindows Buffer :=
  let splitHorizontal := pos.winWidthPct = 100
  let splitPct := if splitHorizontal then pos.winHeightPct else pos.winWidthPct
  { tree := state.tree.replace parentWindow.window
      (.node splitPct splitHorizontal (.leaf parentWindow) (.leaf ⟨state.created, pos, buffer, none, none⟩))
    guiWindows := state.guiWindows ++ [state.created]
    currentWindow := state.currentWindow
    created := state.created + 1 }

/-- The tests of `gui_window_split_horizontal`, and where the new window (at the top) and the old one are then. -/
def guiWindowSplitHorizontalPos (percentage : Int) (pos : GuiWindowPos) : Option (GuiWindowPos × GuiWindowPos) :=
  let separator := if look.separatorHorizontal then 1 else 0
  let height1 := ((pos.winHeight - separator) * percentage).tdiv 100
  let height2 := pos.winHeight - height1 - separator
  if height1 ≥ 2 ∧ height2 ≥ 2 ∧ percentage > 0 ∧ percentage < 100 then
    some (⟨pos.winX, pos.winY, pos.winWidth, height1, 100, percentage⟩,
      { pos with winY := pos.winY + height1, winHeight := height2, winHeightPct := 100 - percentage })
  else none

/-- The tests of `gui_window_split_vertical`, and where the new window (on the right) and the old one are then. -/
def guiWindowSplitVerticalPos (percentage : Int) (pos : GuiWindowPos) : Option (GuiWindowPos × GuiWindowPos) :=
  let separator := if look.separatorVertical then 1 else 0
  let width1 := (pos.winWidth * percentage).tdiv 100
  let width2 := pos.winWidth - width1 - separator
  if width1 ≥ 1 ∧ width2 ≥ 1 ∧ percentage > 0 ∧ percentage < 100 then
    some (⟨pos.winX + width1 + separator, pos.winY, width2, pos.winHeight, percentage, 100⟩,
      { pos with winWidth := width1, winWidthPct := 100 - percentage })
  else none

/-- `gui_window_split_horizontal` and `gui_window_split_vertical`, with their tests. -/
def guiWindowSplit (split : GuiWindowPos → Option (GuiWindowPos × GuiWindowPos)) (state : GuiWindows Buffer)
    (window : Nat) : Option (GuiWindows Buffer) :=
  match state.tree.search window with
  | none => none
  | some window' =>
    match split window'.pos with
    | none => some state
    | some (newPos, pos) =>
      let newWindow := state.created
      let state := guiWindowNew state window' window'.buffer newPos
      some { state with tree := state.tree.modify window fun window => { window with pos }, currentWindow := newWindow }

def guiWindowSplitHorizontal (state : GuiWindows Buffer) (window : Nat) (percentage : Int) :
    Option (GuiWindows Buffer) :=
  guiWindowSplit (guiWindowSplitHorizontalPos look percentage) state window

def guiWindowSplitVertical (state : GuiWindows Buffer) (window : Nat) (percentage : Int) : Option (GuiWindows Buffer) :=
  guiWindowSplit (guiWindowSplitVerticalPos look percentage) state window

/-- What `gui_window_free` leaves in the list of windows, `window` being kept. -/
def guiWindowFree (state : GuiWindows Buffer) (freed window : Nat) : GuiWindows Buffer :=
  let guiWindows := state.guiWindows.erase freed
  { state with
    guiWindows
    currentWindow := if state.currentWindow = freed then guiWindows.headD window else state.currentWindow }

/-- Where a window is when it is merged with its sister. -/
def guiWindowMergePos (pos sister : GuiWindowPos) : GuiWindowPos :=
  let merged :=
    if pos.winY = sister.winY then
      -- horizontal merge
      { pos with
        winWidth := pos.winWidth + (sister.winWidth + if look.separatorHorizontal then 1 else 0)
        winWidthPct := pos.winWidthPct + sister.winWidthPct }
    else
      -- vertical merge
      { pos with
        winHeight := pos.winHeight + (sister.winHeight + if look.separatorVertical then 1 else 0)
        winHeightPct := pos.winHeightPct + sister.winHeightPct }
  { merged with winX := min pos.winX sister.winX, winY := min pos.winY sister.winY }

/-- `gui_window_merge`. -/
def guiWindowMerge (state : GuiWindows Buffer) (window : Nat) : Option (GuiWindows Buffer) :=
  match state.tree.search window with
  | none => none
  | some window' =>
    match state.tree.sister window with
    | some (.leaf sister) =>
      let merged := { window' with pos := guiWindowMergePos look window'.pos sister.pos }
      some { guiWindowFree state sister.window window with tree := state.tree.nodeToLeaf window merged }
    | _ => some state

variable (area : Rect)

/-- `gui_window_merge_all`: all other windows are freed. The area is that of the
terminal without the root bars. -/
def guiWindowMergeAll (state : GuiWindows Buffer) (window : Nat) : Option (GuiWindows Buffer) :=
  match state.tree.search window with
  | none => none
  | some window' =>
    if state.guiWindows.length ≥ 2 then
      some { state with
        tree := .leaf { window' with pos := ⟨area.x, area.y, area.width, area.height, 100, 100⟩ }
        guiWindows := [window]
        currentWindow := window }
    else some state

/-- The windows of a tree that can be laid out. -/
def guiWindowLaidOut (tree : GuiWindowTree (GuiWindow Buffer)) : Bool :=
  (guiWindowAutoResize look true none (tree.map GuiWindow.pos) area).1 ≥ 0

/-- `gui_window_resize`, of the child of the node at a path. -/
def guiWindowResize (state : GuiWindows Buffer) (parent : List Bool) (isChild1 : Bool) (percentage : Int) :
    GuiWindows Buffer :=
  let tree := state.tree.modifySplitPct
    (fun _ splitHorizontal => if splitHorizontal != isChild1 then percentage else 100 - percentage) parent
  if guiWindowLaidOut look area tree then { state with tree } else state

/-- `gui_window_resize_delta`. -/
def guiWindowResizeDelta (state : GuiWindows Buffer) (parent : List Bool) (isChild1 : Bool) (deltaPercentage : Int) :
    GuiWindows Buffer :=
  let tree := state.tree.modifySplitPct
    (fun splitPct splitHorizontal =>
      max 1 (min 99 (if splitHorizontal != isChild1 then splitPct + deltaPercentage else splitPct - deltaPercentage)))
    parent
  if guiWindowLaidOut look area tree then { state with tree } else state

/-- `gui_window_refresh_windows`. -/
def guiWindowRefreshWindows (windowAutoZoom : Bool) (state : GuiWindows Buffer) : Option (GuiWindows Buffer) :=
  let resized := guiWindowAutoResize look false none (state.tree.map GuiWindow.pos) area
  let state := { state with tree := state.tree.place resized.2 }
  if resized.1 < 0 ∧ windowAutoZoom then guiWindowMergeAll area state state.currentWindow else some state

/-- `gui_window_switch`. -/
def guiWindowSwitch (state : GuiWindows Buffer) (window : Nat) : Option (GuiWindows Buffer) :=
  (state.tree.search window).map fun _ => { state with currentWindow := window }

/-- `gui_window_switch_to_buffer`: what the window displays. -/
def guiWindowSetBuffer (state : GuiWindows Buffer) (window : Nat) (buffer : Buffer) : Option (GuiWindows Buffer) :=
  (state.tree.search window).map fun _ =>
    { state with tree := state.tree.modify window fun window => { window with buffer } }

end

/-!
## Scroll lists of windows (`gui/gui-window.c`)

Each window has a list of scroll structures, and the first one is for the buffer
that it displays. Memory is never short: a new structure is at the first address
that was never used. `none` is where the code would read memory that is not in use.
-/

/-- What is scrolled in a `struct t_gui_window_scroll`; lines are named by numbers. -/
structure GuiWindowScrollPos where
  firstLineDisplayed : Bool
  startLine : Option Nat
  startLinePos : Int
  scrolling : Bool
  startCol : Int
  linesAfter : Int
  textSearchStartLine : Option Nat
  deriving DecidableEq

/-- `struct t_gui_window_scroll`. -/
structure GuiWindowScroll (Buffer : Type) where
  buffer : Buffer
  pos : GuiWindowScrollPos

/-- The scroll structures, and `window->scroll` of each window. -/
structure GuiScrolls (Buffer : Type) where
  memory : Heap (GuiWindowScroll Buffer)
  scroll : Nat → Option Addr
  allocated : Nat

/-- What `gui_window_scroll_init` sets. -/
def guiWindowScrollInitPos : GuiWindowScrollPos := ⟨false, none, 0, false, 0, 0, none⟩

section

variable {Buffer : Type} [DecidableEq Buffer] (state : GuiScrolls Buffer) (window : Nat)

/-- `gui_window_scroll_search`. -/
def guiWindowScrollSearch (buffer : Buffer) : Option (Option Addr) :=
  state.memory.find (fun scroll => scroll.buffer = buffer) state.allocated (state.scroll window)

/-- A list of one structure, for a new window. -/
def guiWindowScrollNew (buffer : Buffer) : GuiScrolls Buffer where
  memory := state.memory.store state.allocated ⟨⟨buffer, guiWindowScrollInitPos⟩, none, none⟩
  scroll := Function.update state.scroll window (some state.allocated)
  allocated := state.allocated + 1

/-- `gui_window_scroll_free`. -/
def guiWindowScrollFree (scroll : Addr) : Option (GuiScrolls Buffer) :=
  match state.memory scroll with
  | none => none
  | some node =>
    some { state with
      memory := ((state.memory.setNext node.prev node.next).setPrev node.next node.prev).free scroll
      scroll :=
        if state.scroll window = some scroll then Function.update state.scroll window node.next else state.scroll }

/-- `gui_window_scroll_free_all`. -/
def guiWindowScrollFreeAll : (rounds : Nat) → GuiScrolls Buffer → Option (GuiScrolls Buffer)
  | rounds, state =>
    match rounds, state.scroll window with
    | _, none => some state
    | 0, some _ => none
    | rounds + 1, some scroll => (guiWindowScrollFree state window scroll).bind (guiWindowScrollFreeAll rounds)

/-- The loop of `gui_window_scroll_remove_not_scrolled`. -/
def guiWindowScrollRemoveLoop : (rounds : Nat) → GuiScrolls Buffer → (ptrScroll : Option Addr) →
    Option (GuiScrolls Buffer)
  | _, state, none => some state
  | 0, _, some _ => none
  | rounds + 1, state, some ptrScroll =>
    match state.memory ptrScroll with
    | none => none
    | some node =>
      if node.data.pos = guiWindowScrollInitPos then
        (guiWindowScrollFree state window ptrScroll).bind fun state => guiWindowScrollRemoveLoop rounds state node.next
      else guiWindowScrollRemoveLoop rounds state node.next

/-- `gui_window_scroll_remove_not_scrolled`. -/
def guiWindowScrollRemoveNotScrolled : Option (GuiScrolls Buffer) :=
  match (state.scroll window).bind state.memory with
  | none => none
  | some node => guiWindowScrollRemoveLoop window state.allocated state node.next

/-- The scroll structure at `ptrScroll` is moved in first position. -/
def guiWindowScrollMoveFirst (ptrScroll : Addr) (node : Node (GuiWindowScroll Buffer)) : GuiScrolls Buffer :=
  let first := state.scroll window
  { state with
    memory := ((((state.memory.setNext node.prev node.next).setPrev node.next node.prev).setPrev first
      (some ptrScroll)).setPrev (some ptrScroll) none).setNext (some ptrScroll) first
    scroll := Function.update state.scroll window (some ptrScroll) }

/-- A new scroll structure is added at first position. -/
def guiWindowScrollAddFirst (buffer : Buffer) : GuiScrolls Buffer :=
  let newScroll := state.allocated
  let first := state.scroll window
  { memory := (state.memory.store newScroll ⟨⟨buffer, guiWindowScrollInitPos⟩, none, first⟩).setPrev first (some newScroll)
    scroll := Function.update state.scroll window (some newScroll)
    allocated := state.allocated + 1 }

/-- `gui_window_scroll_switch`. -/
def guiWindowScrollSwitch (buffer : Buffer) : Option (GuiScrolls Buffer) :=
  match guiWindowScrollSearch state window buffer with
  | none => none
  | some none =>
    match state.scroll window with
    | none => none
    | some _ => guiWindowScrollRemoveNotScrolled (guiWindowScrollAddFirst state window buffer) window
  | some (some ptrScroll) =>
    if state.scroll window = some ptrScroll then some state
    else
      match state.memory ptrScroll with
      | none => none
      | some node => guiWindowScrollRemoveNotScrolled (guiWindowScrollMoveFirst state window ptrScroll node) window

/-- `gui_window_scroll_remove_buffer`. -/
def guiWindowScrollRemoveBuffer (buffer : Buffer) : Option (GuiScrolls Buffer) :=
  match guiWindowScrollSearch state window buffer with
  | none => none
  | some none => some state
  | some (some ptrScroll) => guiWindowScrollFree state window ptrScroll

/-- What is scrolled in the structure at an address is changed. -/
def guiWindowScrollSetPos (scroll : Addr) (f : GuiWindowScrollPos → GuiWindowScrollPos) : Option (GuiScrolls Buffer) :=
  match state.memory scroll with
  | none => none
  | some node => some { state with memory := state.memory.setData scroll { node.data with pos := f node.data.pos } }

end

end Wirc

import WhoreIrc.Framework.Run
import WhoreIrc.Impl.GuiBuffer
import WhoreIrc.Spec.GuiLayout

/-!
# Scroll lists that are right

`ScreenOk`: the scroll list of each window against the buffer that it displays and
the open buffers.
-/

namespace Wirc

open Framework

/-- What changes the windows, their scroll lists and the open buffers. -/
inductive GuiScreenOp (Buffer : Type)
  | new (parentWindow : Nat) (buffer : Buffer) (pos : GuiWindowPos)
  | splitHorizontal (env : GuiBufferEnv Buffer) (look : GuiWindowLook) (window : Nat) (percentage : Int)
  | splitVertical (env : GuiBufferEnv Buffer) (look : GuiWindowLook) (window : Nat) (percentage : Int)
  | merge (env : GuiBufferEnv Buffer) (look : GuiWindowLook) (window : Nat)
  | mergeAll (env : GuiBufferEnv Buffer) (area : Rect) (window : Nat)
  | switch (env : GuiBufferEnv Buffer) (window : Nat)
  | switchToBuffer (env : GuiBufferEnv Buffer) (window : Nat) (buffer : Buffer)
  | scroll (window : Nat) (buffer : Buffer) (pos : GuiWindowScrollPos)
  | close (env : GuiBufferEnv Buffer) (buffer : Buffer)

section

variable {Buffer : Type} [DecidableEq Buffer]

/-- An operation; `none` with a window or a buffer that is not open. -/
def GuiScreenOp.run (screen : GuiScreen Buffer) : GuiScreenOp Buffer → Option (GuiScreen Buffer)
  | .new parentWindow buffer pos =>
    if buffer ∈ screen.buffers.guiBuffers then guiScreenNew screen parentWindow buffer pos else none
  | .splitHorizontal env look window percentage =>
    guiScreenSplit env (guiWindowSplitHorizontalPos look percentage) screen window
  | .splitVertical env look window percentage =>
    guiScreenSplit env (guiWindowSplitVerticalPos look percentage) screen window
  | .merge env look window => guiScreenMerge env look screen window
  | .mergeAll env area window => guiScreenMergeAll env area screen window
  | .switch env window => guiScreenSwitch env screen window
  | .switchToBuffer env window buffer =>
    if buffer ∈ screen.buffers.guiBuffers then guiWindowSwitchToBuffer env screen window buffer else none
  | .scroll window buffer pos => guiScreenScroll screen window buffer pos
  | .close env buffer => if buffer ∈ screen.buffers.guiBuffers then guiBufferClose env screen buffer else none

/-! ## What is right -/

/-- The scroll list of a window that displays a buffer. -/
structure WindowScrollOk (guiBuffers : List Buffer) (displayed : Option Buffer)
    (entries : List (Addr × GuiWindowScroll Buffer)) : Prop where
  first : ∃ x xs, entries = x :: xs ∧ displayed = some x.2.buffer
  onePerBuffer : (entries.map fun x => x.2.buffer).Nodup
  isOpen : ∀ x ∈ entries, x.2.buffer ∈ guiBuffers

/-- The scroll structures are in the lists of the windows. -/
structure ScrollLists (scrolls : GuiScrolls Buffer) (entries : Nat → List (Addr × GuiWindowScroll Buffer)) : Prop where
  linked : Lists scrolls.memory entries
  first : ∀ window, scrolls.scroll window = firstPtr (entries window) none
  fresh : ∀ a, scrolls.allocated ≤ a → scrolls.memory a = none
  bound : ∀ window, (entries window).length ≤ scrolls.allocated

/-- The buffers are in the order of their numbers, and those that were visited are open. -/
structure BuffersOk (buffers : GuiBuffers Buffer) : Prop where
  nodup : buffers.guiBuffers.Nodup
  sorted : buffers.guiBuffers.Pairwise fun x y => buffers.number x ≤ buffers.number y
  visitedNodup : buffers.guiBuffersVisited.Nodup
  visitedOpen : ∀ buffer ∈ buffers.guiBuffersVisited, buffer ∈ buffers.guiBuffers

structure ScreenListsOk (screen : GuiScreen Buffer) (entries : Nat → List (Addr × GuiWindowScroll Buffer)) : Prop where
  windows : WindowsOk screen.windows
  buffers : BuffersOk screen.buffers
  scrolls : ScrollLists screen.scrolls entries
  closed : ∀ window, window ∉ screen.windows.tree.names → entries window = []
  each : ∀ w ∈ screen.windows.tree.windows, WindowScrollOk screen.buffers.guiBuffers w.buffer (entries w.window)

def ScreenOk (screen : GuiScreen Buffer) : Prop := ∃ entries, ScreenListsOk screen entries

/-! ## When it stays so -/

/-- The buffer that a window displays. -/
def displayedBuffer (screen : GuiScreen Buffer) (window : Nat) : Option Buffer :=
  (screen.windows.tree.search window).bind (·.buffer)

/-- A window has a scroll structure for a buffer. -/
def Remembers (screen : GuiScreen Buffer) (window : Nat) (buffer : Buffer) : Prop :=
  ∃ a, guiWindowScrollSearch screen.scrolls window buffer = some (some a)

/-- The windows and buffers given are open, a window is not switched to another buffer
merged with its own, and a buffer that is closed is remembered only by windows that
display it, when there is another one. -/
def KeepsScrolls (screen : GuiScreen Buffer) : GuiScreenOp Buffer → Prop
  | .new parentWindow buffer _ => parentWindow ∈ screen.windows.tree.names ∧ buffer ∈ screen.buffers.guiBuffers
  | .splitHorizontal _ _ window _ => window ∈ screen.windows.tree.names
  | .splitVertical _ _ window _ => window ∈ screen.windows.tree.names
  | .merge _ _ window => window ∈ screen.windows.tree.names
  | .mergeAll _ _ window => window ∈ screen.windows.tree.names
  | .switch _ window => window ∈ screen.windows.tree.names
  | .switchToBuffer _ window buffer =>
    buffer ∈ screen.buffers.guiBuffers ∧ ∃ displayed, displayedBuffer screen window = some displayed ∧
      (displayed = buffer ∨ screen.buffers.number displayed ≠ screen.buffers.number buffer)
  | .scroll window _ _ => window ∈ screen.windows.tree.names
  | .close env buffer =>
    buffer ∈ screen.buffers.guiBuffers ∧ ∀ window, Remembers screen window buffer →
      displayedBuffer screen window = some buffer ∧ env.weechatQuit = false ∧ 2 ≤ screen.buffers.guiBuffers.length

end

end Wirc

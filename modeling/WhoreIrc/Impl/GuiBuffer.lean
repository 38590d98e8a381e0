import WhoreIrc.Framework.SortedInsert
import WhoreIrc.Impl.CString
import WhoreIrc.Impl.GuiWindows

/-!
# Buffers in windows (`gui/gui-buffer.c`, `gui/curses/gui-curses-window.c`)

The open buffers are in the order of their list, and so are the visited ones. What
is done to the windows is that of `GuiWindows`, with the scroll lists beside it: a
window whose buffer is NULL displays none. The interface is initialized
(`gui_init_ok`). Lines, bars, hooks and what else a buffer has are left out.
-/

namespace Wirc

open Framework

/-- `GUI_BUFFER_NUMBER_MAX`. -/
def guiBufferNumberMax : Int := 2147483647 - 10000

/-- `gui_buffers` and `gui_buffers_visited`. -/
structure GuiBuffers (Buffer : Type) where
  guiBuffers : List Buffer
  number : Buffer → Int
  guiBuffersVisited : List Buffer
  guiBuffersVisitedIndex : Int

/-- Windows, their scroll lists and the buffers. -/
structure GuiScreen (Buffer : Type) where
  windows : GuiWindows (Option Buffer)
  scrolls : GuiScrolls Buffer
  buffers : GuiBuffers Buffer

/-- What the functions read of buffers (their type, and whether they are hidden), and
the options and variables. -/
structure GuiBufferEnv (Buffer : Type) where
  typeFree : Buffer → Bool
  hidden : Buffer → Bool
  scrollBottomAfterSwitch : Bool
  jumpPreviousBufferWhenClosing : Bool
  bufferAutoRenumber : Bool
  maxVisitedBuffers : Nat
  guiBuffersVisitedFrozen : Bool
  weechatQuit : Bool
  /-- What `gui_bar_window_remove_unused_bars` or `gui_bar_window_add_missing_bars` returns for a window. -/
  barsChanged : Bool

section

variable {Buffer : Type} [DecidableEq Buffer]

/-! ## Visited buffers -/

/-- `gui_buffer_visited_remove`, of the visited buffers that are not in `kept`. -/
def guiBufferVisitedRemove (buffers : GuiBuffers Buffer) (kept : List Buffer) : GuiBuffers Buffer :=
  { buffers with
    guiBuffersVisited := kept
    guiBuffersVisitedIndex :=
      if kept.length < buffers.guiBuffersVisited.length ∧ buffers.guiBuffersVisitedIndex ≥ kept.length then -1
      else buffers.guiBuffersVisitedIndex }

/-- `gui_buffer_visited_remove_by_buffer`. -/
def guiBufferVisitedRemoveByBuffer (buffers : GuiBuffers Buffer) (buffer : Buffer) : GuiBuffers Buffer :=
  guiBufferVisitedRemove buffers (buffers.guiBuffersVisited.erase buffer)

/-- `gui_buffer_visited_add`. -/
def guiBufferVisitedAdd (maxVisitedBuffers : Nat) (buffers : GuiBuffers Buffer) (buffer : Buffer) : GuiBuffers Buffer :=
  let visited := buffers.guiBuffersVisited.erase buffer
  -- remove old buffers visited if list is too long
  let visited := visited.drop (visited.length - maxVisitedBuffers)
  { buffers with guiBuffersVisited := visited ++ [buffer], guiBuffersVisitedIndex := -1 }

/-- `gui_buffer_visited_get_index_previous`. -/
def guiBufferVisitedGetIndexPrevious (buffers : GuiBuffers Buffer) : Int :=
  let count : Int := buffers.guiBuffersVisited.length
  if count < 2 ∨ buffers.guiBuffersVisitedIndex = 0 then -1
  else if buffers.guiBuffersVisitedIndex < 0 then count - 2
  else buffers.guiBuffersVisitedIndex - 1

/-- `gui_buffer_visited_search_by_number`. -/
def guiBufferVisitedSearchByNumber (buffers : GuiBuffers Buffer) (number : Int) : Option Buffer :=
  if number < 0 then none else buffers.guiBuffersVisited[number.toNat]?

/-! ## Numbers of buffers -/

/-- `gui_buffer_count_merged_buffers`. -/
def guiBufferCountMergedBuffers (buffers : GuiBuffers Buffer) (number : Int) : Nat :=
  buffers.guiBuffers.countP fun buffer => buffers.number buffer = number

/-- The buffers before and after a buffer in the list. -/
def guiBuffersAround (buffers : GuiBuffers Buffer) (buffer : Buffer) : List Buffer × List Buffer :=
  (buffers.guiBuffers.takeWhile (· ≠ buffer), (buffers.guiBuffers.dropWhile (· ≠ buffer)).tail)

/-- `gui_buffer_get_next_active_buffer`. -/
def guiBufferGetNextActiveBuffer (env : GuiBufferEnv Buffer) (buffers : GuiBuffers Buffer) (buffer : Buffer)
    (allowHiddenBuffer : Bool) : Option Buffer :=
  let around := guiBuffersAround buffers buffer
  let merged := fun ptrBuffer => buffers.number ptrBuffer = buffers.number buffer
  let allowed := fun ptrBuffer => allowHiddenBuffer || !env.hidden ptrBuffer
  ((around.2.takeWhile (fun ptrBuffer => merged ptrBuffer)).find? allowed).or
    (around.1.find? fun ptrBuffer => merged ptrBuffer && allowed ptrBuffer)

/-- `gui_buffer_shift_numbers`, of the buffers after `prev`. -/
def guiBufferShiftNumbers (number : Buffer → Int) (prev : Buffer) : List Buffer → Buffer → Int
  | [] => number
  | ptrBuffer :: rest =>
    if number ptrBuffer > number prev then number
    else guiBufferShiftNumbers (Function.update number ptrBuffer (number ptrBuffer + 1)) ptrBuffer rest

/-- The number that `gui_buffer_unmerge` gives. -/
def guiBufferUnmergeNumber (bufferAutoRenumber : Bool) (bufferNumber lastNumber number : Int) : Int :=
  let number := min number guiBufferNumberMax
  if number < 1 ∨ number = bufferNumber then bufferNumber + 1
  else if bufferAutoRenumber ∧ number > lastNumber + 1 then lastNumber + 1
  else number

/-- `gui_buffer_unmerge`. -/
def guiBufferUnmerge (bufferAutoRenumber : Bool) (buffers : GuiBuffers Buffer) (buffer : Buffer) (number : Int) :
    GuiBuffers Buffer :=
  if buffers.guiBuffers.length < 2 ∨ guiBufferCountMergedBuffers buffers (buffers.number buffer) < 2 then buffers
  else
    match buffers.guiBuffers.getLast? with
    | none => buffers
    | some lastGuiBuffer =>
      let number := guiBufferUnmergeNumber bufferAutoRenumber (buffers.number buffer) (buffers.number lastGuiBuffer) number
      let guiBuffers :=
        insertBefore (fun ptrBuffer => buffers.number ptrBuffer ≥ number) buffer (buffers.guiBuffers.erase buffer)
      let moved := { buffers with guiBuffers, number := Function.update buffers.number buffer number }
      let next := (guiBuffersAround moved buffer).2
      { moved with
        number :=
          if next.head?.any fun nextBuffer => moved.number nextBuffer = number then
            guiBufferShiftNumbers moved.number buffer next
          else moved.number }

/-! ## Windows with their scroll lists -/

/-- What is scrolled in the first structure of a window is changed. -/
def guiScreenSetFirstPos (screen : GuiScreen Buffer) (window : Nat) (f : GuiWindowScrollPos → GuiWindowScrollPos) :
    Option (GuiScreen Buffer) :=
  match screen.scrolls.scroll window with
  | none => none
  | some scroll => (guiWindowScrollSetPos screen.scrolls scroll f).map fun scrolls => { screen with scrolls }

/-- `gui_window_switch_to_buffer`, when the number of the buffer is another one. -/
def guiWindowSwitchScroll (env : GuiBufferEnv Buffer) (screen : GuiScreen Buffer) (window : Nat)
    (oldBuffer buffer : Buffer) : Option (GuiScreen Buffer) := do
  let scrolls ← guiWindowScrollSwitch screen.scrolls window buffer
  let buffers :=
    if env.guiBuffersVisitedFrozen then screen.buffers
    else guiBufferVisitedAdd env.maxVisitedBuffers (guiBufferVisitedAdd env.maxVisitedBuffers screen.buffers oldBuffer) buffer
  let screen := { screen with scrolls, buffers }
  if !env.typeFree buffer && env.scrollBottomAfterSwitch then
    guiScreenSetFirstPos screen window fun pos => { pos with startLine := none, startLinePos := 0, scrolling := false }
  else some screen

/-- `gui_window_switch_to_buffer`. -/
def guiWindowSwitchToBuffer (env : GuiBufferEnv Buffer) (screen : GuiScreen Buffer) (window : Nat) (buffer : Buffer) :
    Option (GuiScreen Buffer) := do
  let window' ← screen.windows.tree.search window
  let oldBuffer ← window'.buffer
  let screen ←
    if screen.buffers.number oldBuffer ≠ screen.buffers.number buffer then
      guiWindowSwitchScroll env screen window oldBuffer buffer
    else some screen
  let windows ← guiWindowSetBuffer screen.windows window (some buffer)
  let screen := { screen with windows }
  if env.typeFree buffer then
    guiScreenSetFirstPos screen window fun pos => { pos with scrolling := false, linesAfter := 0 }
  else some screen

/-- `gui_window_switch_to_buffer`, to the buffer that the window displays. -/
def guiWindowSwitchToOwnBuffer (env : GuiBufferEnv Buffer) (screen : GuiScreen Buffer) (window : Nat) :
    Option (GuiScreen Buffer) := do
  let window' ← screen.windows.tree.search window
  guiWindowSwitchToBuffer env screen window (← window'.buffer)

/-- `gui_window_switch`. -/
def guiScreenSwitch (env : GuiBufferEnv Buffer) (screen : GuiScreen Buffer) (window : Nat) :
    Option (GuiScreen Buffer) := do
  if screen.windows.currentWindow = window then some screen
  else
    let screen ←
      if env.barsChanged then guiWindowSwitchToOwnBuffer env screen screen.windows.currentWindow else some screen
    let windows ← Wirc.guiWindowSwitch screen.windows window
    guiWindowSwitchToOwnBuffer env { screen with windows } window

/-- `gui_window_new`. -/
def guiScreenNew (screen : GuiScreen Buffer) (parentWindow : Nat) (buffer : Buffer) (pos : GuiWindowPos) :
    Option (GuiScreen Buffer) := do
  let parentWindow ← screen.windows.tree.search parentWindow
  some { screen with
    windows := guiWindowNew screen.windows parentWindow (some buffer) pos
    scrolls := guiWindowScrollNew screen.scrolls screen.windows.created buffer }

/-- `gui_window_new` without a parent window: the first window. -/
def guiScreenFirst (buffers : GuiBuffers Buffer) (buffer : Buffer) (pos : GuiWindowPos) : GuiScreen Buffer where
  windows := ⟨.leaf ⟨0, pos, some buffer, none, none⟩, [0], 0, 1⟩
  scrolls := guiWindowScrollNew ⟨fun _ => none, fun _ => none, 0⟩ 0 buffer
  buffers := buffers

/-- `gui_window_split_horizontal` and `gui_window_split_vertical`: `gui_window_new`, then `gui_window_switch`. -/
def guiScreenSplit (env : GuiBufferEnv Buffer) (split : GuiWindowPos → Option (GuiWindowPos × GuiWindowPos))
    (screen : GuiScreen Buffer) (window : Nat) : Option (GuiScreen Buffer) := do
  let window' ← screen.windows.tree.search window
  match split window'.pos with
  | none => some screen
  | some (newPos, pos) =>
    let newWindow := screen.windows.created
    let screen ← guiScreenNew screen window (← window'.buffer) newPos
    let windows := { screen.windows with tree := screen.windows.tree.modify window fun window => { window with pos } }
    guiScreenSwitch env { screen with windows } newWindow

/-- The scroll lists of the windows that are freed. -/
def guiScreenFree (screen : GuiScreen Buffer) (windows : GuiWindows (Option Buffer)) : Option (GuiScreen Buffer) := do
  let freed := screen.windows.guiWindows.filter (· ∉ windows.guiWindows)
  let scrolls ← freed.foldlM (fun scrolls window => guiWindowScrollFreeAll window scrolls.allocated scrolls) screen.scrolls
  some { screen with windows, scrolls }

/-- `gui_window_merge`. -/
def guiScreenMerge (env : GuiBufferEnv Buffer) (look : GuiWindowLook) (screen : GuiScreen Buffer) (window : Nat) :
    Option (GuiScreen Buffer) := do
  let windows ← guiWindowMerge look screen.windows window
  if windows.guiWindows.length < screen.windows.guiWindows.length then
    guiWindowSwitchToOwnBuffer env (← guiScreenFree screen windows) window
  else some screen

/-- `gui_window_merge_all`. -/
def guiScreenMergeAll (env : GuiBufferEnv Buffer) (area : Rect) (screen : GuiScreen Buffer) (window : Nat) :
    Option (GuiScreen Buffer) := do
  let windows ← guiWindowMergeAll area screen.windows window
  if windows.guiWindows.length < screen.windows.guiWindows.length then
    guiWindowSwitchToOwnBuffer env (← guiScreenFree screen windows) window
  else some screen

/-- A scroll of a window: what is scrolled changes in its structure for a buffer, if there is one. -/
def guiScreenScroll (screen : GuiScreen Buffer) (window : Nat) (buffer : Buffer) (pos : GuiWindowScrollPos) :
    Option (GuiScreen Buffer) := do
  let _ ← screen.windows.tree.search window
  match ← guiWindowScrollSearch screen.scrolls window buffer with
  | none => some screen
  | some scroll => some { screen with scrolls := ← guiWindowScrollSetPos screen.scrolls scroll fun _ => pos }

/-! ## A buffer that is closed -/

/-- The visited buffer to display in place of a buffer that is closed. -/
def guiBufferVisitedBuffer (env : GuiBufferEnv Buffer) (screen : GuiScreen Buffer) (buffer : Buffer) : Option Buffer :=
  let current := (screen.windows.tree.search screen.windows.currentWindow).bind (·.buffer)
  if env.jumpPreviousBufferWhenClosing ∧ current = some buffer then
    (guiBufferVisitedSearchByNumber screen.buffers (guiBufferVisitedGetIndexPrevious screen.buffers)).filter (· ≠ buffer)
  else none

/-- The buffer that a window displays in place of the one that is closed. -/
def guiBufferToDisplay (buffers : GuiBuffers Buffer) (backToBuffer visitedBuffer : Option Buffer) (buffer : Buffer) :
    Option Buffer :=
  ((backToBuffer.or visitedBuffer).or (guiBuffersAround buffers buffer).1.getLast?).or buffers.guiBuffers.getLast?

/-- A turn of the loop on windows in `gui_buffer_close`. -/
def guiBufferCloseWindow (env : GuiBufferEnv Buffer) (backToBuffer visitedBuffer : Option Buffer) (buffer : Buffer)
    (screen : GuiScreen Buffer) (window : Nat) : Option (GuiScreen Buffer) := do
  let window' ← screen.windows.tree.search window
  if window'.buffer = some buffer ∧ screen.buffers.guiBuffers.length ≥ 2 then
    let screen ← guiWindowSwitchToBuffer env screen window
      (← guiBufferToDisplay screen.buffers backToBuffer visitedBuffer buffer)
    let scrolls ← guiWindowScrollRemoveBuffer screen.scrolls window buffer
    some { screen with scrolls }
  else some screen

/-- What `gui_buffer_close` does to the list of buffers and to the windows at the end. -/
def guiBufferRemove (env : GuiBufferEnv Buffer) (screen : GuiScreen Buffer) (buffer : Buffer) : GuiScreen Buffer :=
  let buffers := guiBufferVisitedRemoveByBuffer screen.buffers buffer
  let next := (guiBuffersAround buffers buffer).2
  let guiBuffers := buffers.guiBuffers.erase buffer
  { screen with
    buffers := { buffers with
      guiBuffers
      number := fun ptrBuffer =>
        if env.bufferAutoRenumber ∧ ptrBuffer ∈ next then buffers.number ptrBuffer - 1 else buffers.number ptrBuffer }
    windows := { screen.windows with
      tree := screen.windows.tree.map fun window =>
        if window.buffer = some buffer then { window with buffer := guiBuffers.head? } else window } }

/-- `gui_buffer_close`. -/
def guiBufferClose (env : GuiBufferEnv Buffer) (screen : GuiScreen Buffer) (buffer : Buffer) :
    Option (GuiScreen Buffer) := do
  let merged := guiBufferCountMergedBuffers screen.buffers (screen.buffers.number buffer) > 1
  let backToBuffer :=
    if merged then
      (guiBufferGetNextActiveBuffer env screen.buffers buffer false).or
        (guiBufferGetNextActiveBuffer env screen.buffers buffer true)
    else none
  let lastNumber := (screen.buffers.guiBuffers.getLast?.map screen.buffers.number).getD 0
  let buffers :=
    if merged then guiBufferUnmerge env.bufferAutoRenumber screen.buffers buffer (lastNumber + 1) else screen.buffers
  let screen := { screen with buffers }
  let screen ←
    if env.weechatQuit then some screen
    else
      screen.windows.guiWindows.foldlM
        (guiBufferCloseWindow env backToBuffer (guiBufferVisitedBuffer env screen buffer) buffer) screen
  some (guiBufferRemove env screen buffer)

end

/-! ## Numbers of buffers in a range

What `gui_buffer_renumber` does to the numbers, and the buffers that the signal
`buffer_moved` is sent for; its callbacks do not change the list. `none` is where
the first or the last buffer of an empty list would be read.
-/

/-- What `gui_buffer_search_range` sets. -/
structure GuiBufferRange (Buffer : Type) where
  firstBuffer : Option Buffer
  lastBuffer : Option Buffer
  differentNumbers : Int

section

variable {Buffer : Type}

/-- The loop of `gui_buffer_search_range`. -/
def guiBufferSearchRangeLoop (number : Buffer → Int) (number1 number2 : Int) :
    List Buffer → GuiBufferRange Buffer → (prevNumber : Int) → GuiBufferRange Buffer
  | [], range, _ => range
  | ptrBuffer :: rest, range, prevNumber =>
    if number ptrBuffer ≤ number2 then
      let firstBuffer :=
        if range.firstBuffer.isNone ∧ number ptrBuffer ≥ number1 then some ptrBuffer else range.firstBuffer
      let differentNumbers :=
        if firstBuffer.isSome ∧ number ptrBuffer ≠ prevNumber then range.differentNumbers + 1 else range.differentNumbers
      guiBufferSearchRangeLoop number number1 number2 rest ⟨firstBuffer, some ptrBuffer, differentNumbers⟩
        (number ptrBuffer)
    else range

/-- `gui_buffer_search_range`. -/
def guiBufferSearchRange (buffers : GuiBuffers Buffer) (number1 number2 : Int) : GuiBufferRange Buffer :=
  if number1 < 1 ∨ number2 < 1 ∨ number1 > number2 then ⟨none, none, 0⟩
  else guiBufferSearchRangeLoop buffers.number number1 number2 buffers.guiBuffers ⟨none, none, 0⟩ (-1)

variable [DecidableEq Buffer]

/-- The inner loop of `gui_buffer_renumber`: the buffers from `ptrBuffer` on that have the number
`number` get `currentNumber`. With the numbers, the last of these buffers and those after it. -/
def guiBufferRenumberGroup (number currentNumber : Int) (numbers : Buffer → Int) (ptrBuffer2 : Buffer) :
    List Buffer → (Buffer → Int) × Buffer × List Buffer
  | [] => (numbers, ptrBuffer2, [])
  | ptrBuffer :: rest =>
    if numbers ptrBuffer = number then
      guiBufferRenumberGroup number currentNumber (Function.update numbers ptrBuffer currentNumber) ptrBuffer rest
    else (numbers, ptrBuffer2, ptrBuffer :: rest)

theorem guiBufferRenumberGroup_length_le (number currentNumber : Int) (numbers : Buffer → Int) (ptrBuffer2 : Buffer)
    (rest : List Buffer) :
    (guiBufferRenumberGroup number currentNumber numbers ptrBuffer2 rest).2.2.length ≤ rest.length := by
  induction rest generalizing numbers ptrBuffer2 with
  | nil => exact Nat.le_refl _
  | cons ptrBuffer rest ih =>
    rw [guiBufferRenumberGroup]
    split
    · exact Nat.le_succ_of_le (ih ..)
    · exact Nat.le_refl _

/-- The loop of `gui_buffer_renumber`, with the buffers that the signal was sent for. -/
def guiBufferRenumberLoop (lastBuffer : Buffer) (numbers : Buffer → Int) (currentNumber : Int) (moved : List Buffer) :
    List Buffer → (Buffer → Int) × List Buffer
  | [] => (numbers, moved)
  | ptrBuffer :: rest =>
    let number := numbers ptrBuffer
    let moved := if number ≠ currentNumber then moved ++ [ptrBuffer] else moved
    -- the first buffer always has its own number
    let group := guiBufferRenumberGroup number currentNumber (Function.update numbers ptrBuffer currentNumber) ptrBuffer rest
    if group.2.1 = lastBuffer then (group.1, moved)
    else guiBufferRenumberLoop lastBuffer group.1 (toInt (currentNumber + 1)) moved group.2.2
termination_by rest => rest.length
decreasing_by exact Nat.lt_succ_of_le (guiBufferRenumberGroup_length_le ..)

/-- What `gui_buffer_renumber` does with the numbers of the first and of the last buffer. -/
def guiBufferRenumberRange (buffers : GuiBuffers Buffer) (number1 number2 startNumber : Int) :
    GuiBuffers Buffer × List Buffer :=
  let range := guiBufferSearchRange buffers number1 number2
  match range.firstBuffer, range.lastBuffer with
  | some firstBuffer, some lastBuffer =>
    let startNumber :=
      if startNumber < 1 then buffers.number firstBuffer
      else if startNumber > guiBufferNumberMax then guiBufferNumberMax
      else startNumber
    let prevBuffer := (guiBuffersAround buffers firstBuffer).1.getLast?
    let nextBuffer := (guiBuffersAround buffers lastBuffer).2.head?
    if prevBuffer.any fun prevBuffer => startNumber ≤ buffers.number prevBuffer then (buffers, [])
    else if nextBuffer.any fun nextBuffer =>
        toInt (toInt (startNumber + range.differentNumbers) - 1) ≥ buffers.number nextBuffer then
      (buffers, [])
    else
      let renumbered := guiBufferRenumberLoop lastBuffer buffers.number startNumber []
        (firstBuffer :: (guiBuffersAround buffers firstBuffer).2)
      ({ buffers with number := renumbered.1 }, renumbered.2)
  | _, _ => (buffers, [])

/-- `gui_buffer_renumber`. -/
def guiBufferRenumber (buffers : GuiBuffers Buffer) (number1 number2 startNumber : Int) :
    Option (GuiBuffers Buffer × List Buffer) :=
  if 1 ≤ number1 ∧ 1 ≤ number2 ∧ number1 > number2 then some (buffers, [])
  else
    (if number1 < 1 then buffers.guiBuffers.head?.map buffers.number else some number1).bind fun number1 =>
      (if number2 < 1 then buffers.guiBuffers.getLast?.map buffers.number else some number2).map fun number2 =>
        guiBufferRenumberRange buffers number1 number2 startNumber

end

end Wirc

import WhoreIrc.Impl.GuiWindows

/-!
# Layout of windows (`gui/gui-layout.c`)
-/

namespace Wirc

open Framework

/-- `struct t_gui_layout_window`, as it is stored: a window, or a node with two children. -/
inductive GuiLayoutWindow
  | leaf (internalId : Int) (pluginName bufferName : Str)
  | node (internalId splitPct : Int) (splitHoriz : Bool) (child1 child2 : GuiLayoutWindow)

/-- The windows of a `struct t_gui_layout`. -/
structure GuiLayout where
  layoutWindows : GuiLayoutWindow
  internalId : Int
  internalIdCurrentWindow : Int

section

variable {Buffer : Type} (pluginName name : Buffer → Str)

/-- `gui_layout_window_store_tree`: the layout, and the next internal id and that of the current window. -/
def guiLayoutWindowStoreTree (currentWindow : Nat) :
    GuiWindowTree (GuiWindow Buffer) → (internalId internalIdCurrentWindow : Int) → GuiLayout
  | .leaf window, internalId, internalIdCurrentWindow =>
    ⟨.leaf internalId (pluginName window.buffer) (name window.buffer), internalId + 1,
      if window.window = currentWindow then internalId else internalIdCurrentWindow⟩
  | .node splitPct splitHorizontal child1 child2, internalId, internalIdCurrentWindow =>
    let layout1 := guiLayoutWindowStoreTree currentWindow child1 (internalId + 1) internalIdCurrentWindow
    let layout2 := guiLayoutWindowStoreTree currentWindow child2 layout1.internalId layout1.internalIdCurrentWindow
    ⟨.node internalId splitPct splitHorizontal layout1.layoutWindows layout2.layoutWindows, layout2.internalId,
      layout2.internalIdCurrentWindow⟩

/-- `gui_layout_window_store`. -/
def guiLayoutWindowStore (state : GuiWindows Buffer) : GuiLayout :=
  guiLayoutWindowStoreTree pluginName name state.currentWindow state.tree 1 (-1)

/-- `gui_window_set_layout_plugin_name` and `gui_window_set_layout_buffer_name`. -/
def guiWindowSetLayoutNames (state : GuiWindows Buffer) (window : Nat) (pluginName bufferName : Option Str) :
    GuiWindows Buffer :=
  { state with tree := state.tree.modify window fun window =>
      { window with layoutPluginName := pluginName, layoutBufferName := bufferName } }

/-- The split of a node. -/
def guiLayoutSplitPos (look : GuiWindowLook) (splitHoriz : Bool) (splitPct : Int) (pos : GuiWindowPos) :
    Option (GuiWindowPos × GuiWindowPos) :=
  if splitHoriz then guiWindowSplitHorizontalPos look splitPct pos else guiWindowSplitVerticalPos look splitPct pos

/-- `gui_layout_window_apply_tree`: the windows and `current_window`. -/
def guiLayoutWindowApplyTree (look : GuiWindowLook) (internalIdCurrentWindow : Int) :
    GuiLayoutWindow → GuiWindows Buffer → (currentWindow : Option Nat) → Option (GuiWindows Buffer × Option Nat)
  | .leaf internalId pluginName bufferName, state, currentWindow =>
    some (guiWindowSetLayoutNames state state.currentWindow (some pluginName) (some bufferName),
      if internalId = internalIdCurrentWindow then some state.currentWindow else currentWindow)
  | .node internalId splitPct splitHoriz child1 child2, state, currentWindow =>
    if splitPct ≠ 0 then do
      let oldWindow := state.currentWindow
      let state ← guiWindowSplit (guiLayoutSplitPos look splitHoriz splitPct) state state.currentWindow
      let (state, currentWindow) ← guiLayoutWindowApplyTree look internalIdCurrentWindow child2 state currentWindow
      let state ← guiWindowSwitch state oldWindow
      guiLayoutWindowApplyTree look internalIdCurrentWindow child1 state currentWindow
    else
      some (guiWindowSetLayoutNames state state.currentWindow none none,
        if internalId = internalIdCurrentWindow then some state.currentWindow else currentWindow)

variable (guiBuffers : List Buffer)

/-- The buffer that a window displays in the layout, if it is open. -/
def guiLayoutWindowBuffer (window : GuiWindow Buffer) : Option Buffer :=
  match window.layoutPluginName, window.layoutBufferName with
  | some layoutPluginName, some layoutBufferName =>
    guiBuffers.find? fun buffer => layoutPluginName = pluginName buffer ∧ layoutBufferName = name buffer
  | _, _ => none

/-- A turn of `gui_layout_window_assign_all_buffers`. -/
def guiLayoutWindowAssignBuffer (state : GuiWindows Buffer) (window : Nat) : Option (GuiWindows Buffer) :=
  match state.tree.search window with
  | none => none
  | some window' =>
    match guiLayoutWindowBuffer pluginName name guiBuffers window' with
    | none => some state
    | some buffer => guiWindowSetBuffer state window buffer

/-- `gui_layout_window_assign_all_buffers`. -/
def guiLayoutWindowAssignAllBuffers (state : GuiWindows Buffer) : Option (GuiWindows Buffer) :=
  state.guiWindows.foldlM (guiLayoutWindowAssignBuffer pluginName name guiBuffers) state

/-- `gui_layout_window_apply`. -/
def guiLayoutWindowApply (look : GuiWindowLook) (area : Rect) (layout : GuiLayout) (internalIdCurrentWindow : Int)
    (state : GuiWindows Buffer) : Option (GuiWindows Buffer) := do
  let state ← guiWindowMergeAll area state state.currentWindow
  let oldWindow := state.currentWindow
  let (state, currentWindow) ←
    guiLayoutWindowApplyTree look internalIdCurrentWindow layout.layoutWindows state none
  let state ← guiLayoutWindowAssignAllBuffers pluginName name guiBuffers state
  guiWindowSwitch state (currentWindow.getD oldWindow)

end

end Wirc

import WhoreIrc.Framework.Chain
import WhoreIrc.Impl.CString

/-!
# History of commands (`gui/gui-history.c`, `gui/gui-input.c`)

Each buffer has a history, and there is a global one. The address that `malloc`
may give is an argument of what allocates. The line of input is only its text:
what is done on it between two calls is a change of this text. `none` is where
the code would read an entry that was freed.
-/

namespace Wirc

open Framework

/-- The histories: that of a buffer, or the global one. -/
inductive GuiHistoryOwner (Buffer : Type)
  | buffer (buffer : Buffer)
  | global
  deriving DecidableEq

/-- `history`, `last_history`, `ptr_history` and `num_history` of a buffer, or the
global variables. -/
structure GuiHistoryList where
  ends : ListEnds
  ptrHistory : Option Addr
  numHistory : Int
  deriving DecidableEq

structure GuiHistories (Buffer : Type) where
  lists : GuiHistoryOwner Buffer → GuiHistoryList
  memory : Heap Str
  /-- `buffer->input` and `buffer->input_buffer`. -/
  input : Buffer → Bool
  inputBuffer : Buffer → Str

section

variable {Buffer : Type} [DecidableEq Buffer]

def GuiHistories.setList (state : GuiHistories Buffer) (owner : GuiHistoryOwner Buffer) (list : GuiHistoryList)
    (memory : Heap Str) : GuiHistories Buffer :=
  { state with lists := Function.update state.lists owner list, memory }

def GuiHistories.setPtr (state : GuiHistories Buffer) (owner : GuiHistoryOwner Buffer) (ptrHistory : Option Addr) :
    GuiHistories Buffer :=
  state.setList owner { state.lists owner with ptrHistory } state.memory

def GuiHistories.setText (state : GuiHistories Buffer) (history : Addr) (text : Str) : GuiHistories Buffer :=
  { state with memory := state.memory.setData history text }

def GuiHistories.setInput (state : GuiHistories Buffer) (buffer : Buffer) (text : Str) : GuiHistories Buffer :=
  { state with inputBuffer := Function.update state.inputBuffer buffer text }

variable (maxCommands : Int)

/-- The end of both functions below: removes the oldest entry if there are more than
`maxCommands`. `removed` is how the number of entries changes then. -/
def guiHistoryRemoveLast (removed : Int) (list : GuiHistoryList) (memory : Heap Str) :
    Option (GuiHistoryList × Heap Str) :=
  if maxCommands > 0 ∧ list.numHistory > maxCommands then do
    let last ← list.ends.last
    let node ← memory last
    let prevHistory ← node.prev
    let ptrHistory := if list.ptrHistory = some last then some prevHistory else list.ptrHistory
    let (memory, ends) ← unlinkNode memory list.ends last
    some (⟨ends, ptrHistory, list.numHistory + removed⟩, memory)
  else some (list, memory)

/-- The newest entry has this text already. -/
def guiHistoryIsNewest (state : GuiHistories Buffer) (owner : GuiHistoryOwner Buffer) (string : Str) : Option Bool :=
  match (state.lists owner).ends.first with
  | none => some false
  | some history => (state.memory history).map fun node => decide (node.data = string)

/-- What `gui_history_buffer_add` and `gui_history_global_add` do for their list. -/
def guiHistoryListAdd (removed : Int) (state : GuiHistories Buffer) (owner : GuiHistoryOwner Buffer) (string : Str)
    (newHistory : Addr) : Option (GuiHistories Buffer) := do
  let list := state.lists owner
  if ← guiHistoryIsNewest state owner string then some state
  else
    match state.memory.malloc newHistory with
    | none => some state
    | some newHistory =>
      let (memory, ends) := linkFirst state.memory list.ends newHistory string
      let (list, memory) ← guiHistoryRemoveLast maxCommands removed
        { list with ends, numHistory := list.numHistory + 1 } memory
      some (state.setList owner list memory)

/-- `gui_history_buffer_add`: `num_history` is incremented when an entry is removed. -/
def guiHistoryBufferAdd (state : GuiHistories Buffer) (buffer : Buffer) (string : Str) (newHistory : Addr) :
    Option (GuiHistories Buffer) :=
  guiHistoryListAdd maxCommands 1 state (.buffer buffer) string newHistory

/-- `gui_history_global_add`. -/
def guiHistoryGlobalAdd (state : GuiHistories Buffer) (string : Str) (newHistory : Addr) :
    Option (GuiHistories Buffer) :=
  guiHistoryListAdd maxCommands (-1) state .global string newHistory

/-- What a call of `gui_history_add` gets from the rest of the program: the string of
the modifier `history_add` (NULL without one), and the two addresses. -/
structure GuiHistoryAddEnv where
  string2 : Option Str
  bufferHistory : Addr
  globalHistory : Addr

/-- `gui_history_add`. -/
def guiHistoryAdd (state : GuiHistories Buffer) (buffer : Buffer) (string : Str) (env : GuiHistoryAddEnv) :
    Option (GuiHistories Buffer) :=
  if env.string2 = some [] then some state
  else do
    let string := env.string2.getD string
    let state ← guiHistoryBufferAdd maxCommands state buffer string env.bufferHistory
    guiHistoryGlobalAdd maxCommands state string env.globalHistory

/-- What `*ptr_history` becomes in `gui_input_history_previous`: NULL if nothing is recalled. -/
def guiInputHistoryPreviousPtr (state : GuiHistories Buffer) (owner : GuiHistoryOwner Buffer) : Option (Option Addr) :=
  match (state.lists owner).ptrHistory with
  | some ptrHistory => (state.memory ptrHistory).map fun node => node.next
  | none => some (state.lists owner).ends.first

/-- Puts the input in the history before an older entry is recalled: in place of the text
of the entry `prevHistory`, or as a new entry if there is none. -/
def guiInputHistoryKeep (state : GuiHistories Buffer) (buffer : Buffer) (prevHistory : Option Addr)
    (env : GuiHistoryAddEnv) : Option (GuiHistories Buffer) :=
  if state.inputBuffer buffer = [] then some state
  else
    match prevHistory with
    | some prevHistory => some (state.setText prevHistory (state.inputBuffer buffer))
    | none => guiHistoryAdd maxCommands state buffer (state.inputBuffer buffer) env

/-- `gui_input_history_previous`, in a window that displays `buffer`. -/
def guiInputHistoryPrevious (state : GuiHistories Buffer) (buffer : Buffer) (owner : GuiHistoryOwner Buffer)
    (env : GuiHistoryAddEnv) : Option (GuiHistories Buffer) :=
  if !state.input buffer then some state
  else do
    match ← guiInputHistoryPreviousPtr state owner with
    | none => some state
    | some ptrHistory =>
      let state := state.setPtr owner (some ptrHistory)
      let node ← state.memory ptrHistory
      let state ← guiInputHistoryKeep maxCommands state buffer node.prev env
      let ptrHistory ← (state.lists owner).ptrHistory
      let node ← state.memory ptrHistory
      some (state.setInput buffer node.data)

/-- `gui_input_history_next`, in a window that displays `buffer`. -/
def guiInputHistoryNext (state : GuiHistories Buffer) (buffer : Buffer) (owner : GuiHistoryOwner Buffer)
    (env : GuiHistoryAddEnv) : Option (GuiHistories Buffer) :=
  if !state.input buffer then some state
  else
    let inputBuffer := state.inputBuffer buffer
    match (state.lists owner).ptrHistory with
    | some ptrHistory => do
      -- replace text in history with current input
      let state := state.setText ptrHistory inputBuffer
      let node ← state.memory ptrHistory
      let state := state.setPtr owner node.prev
      match node.prev with
      | some ptrHistory => (state.memory ptrHistory).map fun node => state.setInput buffer node.data
      | none => some (state.setInput buffer [])
    | none =>
      -- add line to history then clear input
      if inputBuffer ≠ [] then
        (guiHistoryAdd maxCommands state buffer inputBuffer env).map fun state => state.setInput buffer []
      else some state

/-- `gui_input_history_local_previous` and `gui_input_history_global_previous`, when a
window displays the buffer. -/
def guiInputHistoryLocalPrevious (state : GuiHistories Buffer) (buffer : Buffer) (env : GuiHistoryAddEnv) :
    Option (GuiHistories Buffer) :=
  guiInputHistoryPrevious maxCommands state buffer (.buffer buffer) env

def guiInputHistoryGlobalPrevious (state : GuiHistories Buffer) (buffer : Buffer) (env : GuiHistoryAddEnv) :
    Option (GuiHistories Buffer) :=
  guiInputHistoryPrevious maxCommands state buffer .global env

/-- `gui_input_history_local_next` and `gui_input_history_global_next`. -/
def guiInputHistoryLocalNext (state : GuiHistories Buffer) (buffer : Buffer) (env : GuiHistoryAddEnv) :
    Option (GuiHistories Buffer) :=
  guiInputHistoryNext maxCommands state buffer (.buffer buffer) env

def guiInputHistoryGlobalNext (state : GuiHistories Buffer) (buffer : Buffer) (env : GuiHistoryAddEnv) :
    Option (GuiHistories Buffer) :=
  guiInputHistoryNext maxCommands state buffer .global env

/-- What `gui_input_return` does to the histories, when the input is sent. -/
def guiInputReturn (state : GuiHistories Buffer) (buffer : Buffer) (env : GuiHistoryAddEnv) :
    Option (GuiHistories Buffer) :=
  (guiHistoryAdd maxCommands state buffer (state.inputBuffer buffer) env).map fun state =>
    ((state.setInput buffer []).setPtr (.buffer buffer) none).setPtr .global none

end

end Wirc

import Mathlib.Data.List.Chain
import WhoreIrc.Framework.Run
import WhoreIrc.Impl.GuiHistory

/-!
# Histories that are consistent

`HistoriesConsistent`: each history is a linked list of entries, with its number
of entries, its bound, and the entry that is recalled.
-/

namespace Wirc

open Framework

/-! ## Runs -/

/-- What changes the histories and the lines of input. -/
inductive GuiHistoryOp (Buffer : Type)
  | add (buffer : Buffer) (string : Str) (env : GuiHistoryAddEnv)
  | localPrevious (buffer : Buffer) (env : GuiHistoryAddEnv)
  | globalPrevious (buffer : Buffer) (env : GuiHistoryAddEnv)
  | localNext (buffer : Buffer) (env : GuiHistoryAddEnv)
  | globalNext (buffer : Buffer) (env : GuiHistoryAddEnv)
  | inputReturn (buffer : Buffer) (env : GuiHistoryAddEnv)
  /-- Anything else that changes a line of input. -/
  | input (buffer : Buffer) (text : Str)

section

variable {Buffer : Type} [DecidableEq Buffer] (maxCommands : Int)

/-- No history has an entry yet. -/
def guiHistoriesInit (input : Buffer → Bool) : GuiHistories Buffer :=
  ⟨fun _ => ⟨⟨none, none⟩, none, 0⟩, fun _ => none, input, fun _ => []⟩

def guiHistoryStep (state : GuiHistories Buffer) : GuiHistoryOp Buffer → Option (GuiHistories Buffer)
  | .add buffer string env => guiHistoryAdd maxCommands state buffer string env
  | .localPrevious buffer env => guiInputHistoryLocalPrevious maxCommands state buffer env
  | .globalPrevious buffer env => guiInputHistoryGlobalPrevious maxCommands state buffer env
  | .localNext buffer env => guiInputHistoryLocalNext maxCommands state buffer env
  | .globalNext buffer env => guiInputHistoryGlobalNext maxCommands state buffer env
  | .inputReturn buffer env => guiInputReturn maxCommands state buffer env
  | .input buffer text => some (state.setInput buffer text)

/-! ## What is consistent -/

/-- The pointers and the number of entries of a history with the entries `xs`, the newest first. -/
structure HistoryListOk (list : GuiHistoryList) (xs : List (Addr × Str)) : Prop where
  ends : list.ends = endsOf xs
  count : list.numHistory = xs.length
  bound : 0 < maxCommands → (xs.length : Int) ≤ maxCommands
  differ : (xs.map Prod.snd).IsChain (· ≠ ·)
  ptr : ∀ a, list.ptrHistory = some a → a ∈ addrs xs

def HistoriesConsistent (state : GuiHistories Buffer) : Prop :=
  ∃ entries : GuiHistoryOwner Buffer → List (Addr × Str), Lists state.memory entries ∧
    ∀ owner, HistoryListOk maxCommands (state.lists owner) (entries owner)

/-! ## Steps that keep them consistent -/

/-- The text of the newest entry. -/
def newestText (state : GuiHistories Buffer) (owner : GuiHistoryOwner Buffer) : Option Str :=
  (state.lists owner).ends.first.bind fun history => (state.memory history).map Node.data

/-- If the text is added to the history of the buffer, there is room for one more entry. -/
def HistoryRoom (state : GuiHistories Buffer) (buffer : Buffer) (string : Str) (env : GuiHistoryAddEnv) : Prop :=
  env.string2 ≠ some [] → newestText state (.buffer buffer) ≠ some (env.string2.getD string) →
    state.memory env.bufferHistory = none → 0 < maxCommands → (state.lists (.buffer buffer)).numHistory < maxCommands

/-- The text is not that of an entry next to this one. -/
def NewText (state : GuiHistories Buffer) (history : Addr) (text : Str) : Prop :=
  ∀ node, state.memory history = some node → ∀ a, (node.prev = some a ∨ node.next = some a) →
    ∀ node', state.memory a = some node' → node'.data ≠ text

/-- The entry that `gui_input_history_previous` recalls. -/
def previousEntry (state : GuiHistories Buffer) (owner : GuiHistoryOwner Buffer) : Option Addr :=
  match (state.lists owner).ptrHistory with
  | some ptrHistory => (state.memory ptrHistory).bind Node.next
  | none => (state.lists owner).ends.first

/-- The entry whose text the line of input replaces, if there is one, and otherwise whether
the line is added. -/
def PreviousFits (state : GuiHistories Buffer) (buffer : Buffer) (owner : GuiHistoryOwner Buffer)
    (env : GuiHistoryAddEnv) : Prop :=
  state.inputBuffer buffer ≠ [] → ∀ entry node, previousEntry state owner = some entry →
    state.memory entry = some node →
      (∀ a, node.prev = some a → NewText state a (state.inputBuffer buffer)) ∧
        (node.prev = none → HistoryRoom maxCommands state buffer (state.inputBuffer buffer) env)

def NextFits (state : GuiHistories Buffer) (buffer : Buffer) (owner : GuiHistoryOwner Buffer)
    (env : GuiHistoryAddEnv) : Prop :=
  (∀ a, (state.lists owner).ptrHistory = some a → NewText state a (state.inputBuffer buffer)) ∧
    ((state.lists owner).ptrHistory = none → state.inputBuffer buffer ≠ [] →
      HistoryRoom maxCommands state buffer (state.inputBuffer buffer) env)

/-- No entry is removed from the history of a buffer, and no entry gets the text of
one next to it. -/
def HistoryStepFits (state : GuiHistories Buffer) : GuiHistoryOp Buffer → Prop
  | .add buffer string env => HistoryRoom maxCommands state buffer string env
  | .localPrevious buffer env => state.input buffer = true → PreviousFits maxCommands state buffer (.buffer buffer) env
  | .globalPrevious buffer env => state.input buffer = true → PreviousFits maxCommands state buffer .global env
  | .localNext buffer env => state.input buffer = true → NextFits maxCommands state buffer (.buffer buffer) env
  | .globalNext buffer env => state.input buffer = true → NextFits maxCommands state buffer .global env
  | .inputReturn buffer env => HistoryRoom maxCommands state buffer (state.inputBuffer buffer) env
  | .input _ _ => True

/-- The steps of a run do so, from no entries on. -/
def HistoryRunFits (input : Buffer → Bool) (ops : List (GuiHistoryOp Buffer)) : Prop :=
  AlongM (guiHistoryStep maxCommands) (HistoryStepFits maxCommands) (guiHistoriesInit input) ops

end

end Wirc

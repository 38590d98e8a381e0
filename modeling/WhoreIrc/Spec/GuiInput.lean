import WhoreIrc.Impl.GuiHistory
import WhoreIrc.Impl.GuiInput

/-!
# What the input of a buffer keeps

The bytes, the sizes in bytes and in characters, and the position of the cursor
agree.
-/

namespace Wirc

open Framework

/-- The bytes of one valid character. -/
def IsValidChar (c : Str) : Prop := ∃ b t, c = b :: t ∧ t.length + 1 = utf8LeadSize b ∧ utf8CharIsValid b t = true

/-- The bytes of memory for an input. -/
def inputAlloc (size : Nat) : Nat := size / 256 * 256 + 256

namespace GuiInput

variable (buffer : GuiInput)

/-- The input is valid UTF-8, and its sizes and its position are right. -/
structure Consistent : Prop where
  memory : (buffer.inputBuffer.length : Int) = buffer.inputBufferAlloc
  valid : utf8IsValid buffer.text = none
  size : buffer.inputBufferSize = buffer.text.1.length
  alloc : buffer.inputBufferSize < buffer.inputBufferAlloc
  length : buffer.inputBufferLength = utf8Strlen buffer.text
  pos_nonneg : 0 ≤ buffer.inputBufferPos
  pos_le : buffer.inputBufferPos ≤ buffer.inputBufferLength

/-- `ptr_input_undo` is in the list of undos. -/
def UndoListed : Prop := ∀ ptr ∈ buffer.ptrInputUndo, ptr < buffer.inputUndo.length

end GuiInput

/-!
## Browsing a history

What is expected of the calls that recall the entries of one history, without a change
of the input between them.
-/

section

variable {Buffer : Type} [DecidableEq Buffer]

/-- A call that recalls an older or a newer entry. -/
inductive GuiHistoryMove
  | previous (env : GuiHistoryAddEnv)
  | next (env : GuiHistoryAddEnv)

def guiHistoryMove (maxCommands : Int) (buffer : Buffer) (owner : GuiHistoryOwner Buffer) (state : GuiHistories Buffer) :
    GuiHistoryMove → Option (GuiHistories Buffer)
  | .previous env => guiInputHistoryPrevious maxCommands state buffer owner env
  | .next env => guiInputHistoryNext maxCommands state buffer owner env

/-- The text of the entry that is pointed, empty if the pointer is NULL. -/
def pointedText (state : GuiHistories Buffer) (owner : GuiHistoryOwner Buffer) : Str :=
  (((state.lists owner).ptrHistory.bind state.memory).map Node.data).getD []

/-- The entries are the same, and the input is the text of the one that is pointed. -/
structure HistoryBrowsed (buffer : Buffer) (owner : GuiHistoryOwner Buffer) (state state' : GuiHistories Buffer) :
    Prop where
  memory : state'.memory = state.memory
  ends : (state'.lists owner).ends = (state.lists owner).ends
  count : (state'.lists owner).numHistory = (state.lists owner).numHistory
  others : ∀ other, other ≠ owner → state'.lists other = state.lists other
  input : state'.inputBuffer buffer = pointedText state' owner

end

/-!
## Moves by words in the input

What is expected of the two moves of the cursor by words, for any set of word chars.
-/

section

variable (env : GuiInputEnv) (buffer : GuiInput)

/-- The char at a position of the input is a word char. -/
def isWordCharAt (pos : Nat) : Bool := env.isWordCharInput (utf8AddOffset buffer.text.1 pos)

/-- `gui_input_move_next_word`, many times. -/
def moveNextWords : (times : Nat) → GuiInput → Option GuiInput
  | 0, buffer => some buffer
  | times + 1, buffer => (guiInputMoveNextWord env buffer).bind (moveNextWords times)

/-- `gui_input_move_previous_word`, many times. -/
def movePreviousWords : (times : Nat) → GuiInput → GuiInput
  | 0, buffer => buffer
  | times + 1, buffer => movePreviousWords times (guiInputMovePreviousWord env buffer)

/-- A word char that is passed is in a word, of which the last char is passed. -/
def WordComplete (buffer' : GuiInput) : Prop :=
  ∀ i : Nat, buffer.inputBufferPos ≤ i → i < buffer'.inputBufferPos → isWordCharAt env buffer i = true →
    (∀ j : Nat, i ≤ j → j < buffer'.inputBufferPos → isWordCharAt env buffer j = true) ∧
      (buffer'.inputBufferPos < buffer.inputBufferLength → isWordCharAt env buffer buffer'.inputBufferPos.toNat = false)

/-- Each move makes progress, and repeated moves reach the end and the beginning of the input. -/
structure WordMovesRight : Prop where
  next : ∃ buffer', guiInputMoveNextWord env buffer = some buffer' ∧ WordComplete env buffer buffer' ∧
    (buffer.inputBufferPos < buffer.inputBufferLength → buffer.inputBufferPos < buffer'.inputBufferPos)
  previous : 0 < buffer.inputBufferPos →
    (guiInputMovePreviousWord env buffer).inputBufferPos < buffer.inputBufferPos
  reachEnd : ∃ times buffer', moveNextWords env times buffer = some buffer' ∧
    buffer'.inputBufferPos = buffer.inputBufferLength
  reachBeginning : ∃ times, (movePreviousWords env times buffer).inputBufferPos = 0

end

end Wirc

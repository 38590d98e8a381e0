import WhoreIrc.Impl.Utf8

/-!
# Input of a buffer (`gui/gui-input.c`, and the undos of `gui/gui-buffer.c`)

The bytes at `input_buffer` are a list, and `none` is returned where the code
would write outside of them. A pointer into the input is its distance to the
first byte. Allocations succeed; signals and the clipboard are left out.
-/

namespace Wirc

def guiBufferInputBlockSize : Int := 256

/-- `struct t_gui_input_undo`, in the list of undos. -/
structure GuiInputUndo where
  data : CStr
  pos : Int
  deriving DecidableEq

/-- The input of a buffer, and its undos: `ptr_input_undo` is the place of an undo in
the list. -/
structure GuiInput where
  input : Bool
  inputBuffer : List Byte
  inputBufferAlloc : Int
  inputBufferSize : Int
  inputBufferLength : Int
  inputBufferPos : Int
  inputUndoSnap : Option GuiInputUndo
  inputUndo : List GuiInputUndo
  ptrInputUndo : Option Nat
  inputUndoCount : Int
  deriving DecidableEq

/-- What an operation reads: the bytes of memory that `realloc` adds, the options, and
what the modifier `input_text_content` returns. -/
structure GuiInputEnv where
  garbage : Nat → Byte
  isWordCharInput : Str → Bool
  inputUndoMax : Nat
  cursorMode : Bool
  modifier : CStr → Option CStr

/-! ## Memory -/

/-- `realloc`. -/
def reallocBytes (garbage : Nat → Byte) (bytes : List Byte) (size : Nat) : List Byte :=
  bytes.take size ++ (List.range (size - bytes.length)).map garbage

/-- Writes bytes at a place. -/
def writeBytes (memory : List Byte) (pos : Nat) (bytes : List Byte) : Option (List Byte) :=
  if pos + bytes.length ≤ memory.length then some (memory.take pos ++ (bytes ++ memory.drop (pos + bytes.length)))
  else none

/-- `memmove (memory + dest, memory + src, n)`. -/
def moveBytes (memory : List Byte) (dest src n : Nat) : Option (List Byte) :=
  if src + n ≤ memory.length then writeBytes memory dest ((memory.drop src).take n) else none

namespace GuiInput

/-- The C string `input_buffer`. -/
def text (buffer : GuiInput) : CStr := cString buffer.inputBuffer

/-- Writes bytes in `input_buffer`. -/
def write (buffer : GuiInput) (pos : Int) (bytes : List Byte) : Option GuiInput :=
  if 0 ≤ pos then
    (writeBytes buffer.inputBuffer pos.toNat bytes).map fun inputBuffer => { buffer with inputBuffer }
  else none

/-- Moves bytes in `input_buffer`. -/
def move (buffer : GuiInput) (dest src n : Nat) : Option GuiInput :=
  (moveBytes buffer.inputBuffer dest src n).map fun inputBuffer => { buffer with inputBuffer }

end GuiInput

/-- `gui_buffer_input_buffer_init`, of a new buffer. -/
def guiBufferInputBufferInit (garbage : Nat → Byte) : GuiInput where
  input := true
  inputBuffer := 0 :: (List.range 255).map garbage
  inputBufferAlloc := guiBufferInputBlockSize
  inputBufferSize := 0
  inputBufferLength := 0
  inputBufferPos := 0
  inputUndoSnap := none
  inputUndo := []
  ptrInputUndo := none
  inputUndoCount := 0

section

variable (env : GuiInputEnv) (buffer : GuiInput)

/-! ## Undos -/

/-- `gui_buffer_undo_snap`. -/
def guiBufferUndoSnap : GuiInput :=
  { buffer with inputUndoSnap := if env.inputUndoMax > 0 then some ⟨buffer.text, buffer.inputBufferPos⟩ else none }

/-- `gui_buffer_undo_snap_free`. -/
def guiBufferUndoSnapFree : GuiInput := { buffer with inputUndoSnap := none }

/-- `gui_buffer_undo_free`. -/
def guiBufferUndoFree (undo : Nat) : GuiInput :=
  { buffer with
    inputUndo := buffer.inputUndo.eraseIdx undo
    ptrInputUndo := buffer.ptrInputUndo.bind fun ptr =>
      if ptr = undo then
        -- the next undo, which takes this place, or else the previous one
        if undo + 1 < buffer.inputUndo.length then some undo
        else if undo = 0 then none else some (undo - 1)
      else if undo < ptr then some (ptr - 1)
      else some ptr
    inputUndoCount := buffer.inputUndoCount - 1 }

/-- Frees all undos after `ptr_input_undo`, the `count` last ones. -/
def guiBufferUndoFreeNext (ptr : Nat) : (count : Nat) → GuiInput → GuiInput
  | 0, buffer => buffer
  | count + 1, buffer => guiBufferUndoFreeNext ptr count (guiBufferUndoFree buffer (ptr + 1))

/-- Removes the oldest undo if the max number of undos is reached. -/
def guiBufferUndoFreeOldest : GuiInput :=
  if 0 < buffer.inputUndoCount ∧ (env.inputUndoMax : Int) + 1 ≤ buffer.inputUndoCount then guiBufferUndoFree buffer 0
  else buffer

/-- Removes all undos after the current one. -/
def guiBufferUndoFreeAfter : GuiInput :=
  match buffer.ptrInputUndo with
  | some ptr => guiBufferUndoFreeNext ptr (buffer.inputUndo.length - (ptr + 1)) buffer
  | none => buffer

/-- The snapshot is the same as the current undo. -/
def guiBufferUndoIsCurrent : Bool :=
  match buffer.ptrInputUndo.bind fun ptr => buffer.inputUndo[ptr]?, buffer.inputUndoSnap with
  | some undo, some snap => undo.data = snap.data
  | _, _ => false

/-- Adds an undo at the end of the list, with the snapshot or else the current input. -/
def guiBufferUndoPush : GuiInput :=
  { buffer with
    inputUndo := buffer.inputUndo ++ [buffer.inputUndoSnap.getD ⟨buffer.text, buffer.inputBufferPos⟩]
    ptrInputUndo := some buffer.inputUndo.length
    inputUndoCount := buffer.inputUndoCount + 1 }

/-- `gui_buffer_undo_add`. -/
def guiBufferUndoAdd : GuiInput :=
  if env.inputUndoMax = 0 then guiBufferUndoSnapFree buffer
  else if buffer.inputUndoSnap.map GuiInputUndo.data = some buffer.text then
    -- nothing has changed since snapshot
    guiBufferUndoSnapFree buffer
  else
    let buffer := guiBufferUndoFreeAfter (guiBufferUndoFreeOldest env buffer)
    if guiBufferUndoIsCurrent buffer then guiBufferUndoSnapFree buffer
    else guiBufferUndoSnapFree (guiBufferUndoPush buffer)

/-! ## Changes of the input -/

/-- `gui_input_optimize_size`: whether the size is set. -/
def guiInputOptimizeSize (newSize newLength : Int) : Bool × GuiInput :=
  if buffer.input then
    let optimalSize := newSize.tdiv guiBufferInputBlockSize * guiBufferInputBlockSize + guiBufferInputBlockSize
    let buffer := if buffer.inputBufferAlloc ≠ optimalSize then
        { buffer with
          inputBuffer := reallocBytes env.garbage buffer.inputBuffer optimalSize.toNat
          inputBufferAlloc := optimalSize }
      else buffer
    (true, { buffer with inputBufferSize := newSize, inputBufferLength := newLength })
  else (false, buffer)

/-- `gui_input_replace_input`. -/
def guiInputReplaceInput (newInput : CStr) : Option GuiInput :=
  let inputUtf8 := utf8Normalize newInput (ch '?')
  match guiInputOptimizeSize env buffer inputUtf8.length (utf8Strlen inputUtf8) with
  | (true, buffer) => do
    let buffer ← buffer.write 0 (inputUtf8 ++ [0])
    return { buffer with inputBufferPos := min buffer.inputBufferPos buffer.inputBufferLength }
  | (false, buffer) => some buffer

/-- Executes the modifier `input_text_content`, and changes the input if needed. -/
def guiInputModifierExec : Option GuiInput :=
  match env.modifier buffer.text with
  | some newInput => if newInput ≠ buffer.text then guiInputReplaceInput env buffer newInput else some buffer
  | none => some buffer

/-- `gui_input_text_changed_modifier_and_signal`. -/
def guiInputTextChangedModifierAndSignal (saveUndo : Bool) : Option GuiInput :=
  if env.cursorMode then some buffer
  else guiInputModifierExec env (if saveUndo then guiBufferUndoAdd env buffer else buffer)

/-- `gui_input_set_pos`. -/
def guiInputSetPos (pos : Int) : GuiInput :=
  if 0 ≤ pos ∧ buffer.inputBufferPos ≠ pos then { buffer with inputBufferPos := min pos buffer.inputBufferLength }
  else buffer

/-- The place of a character of the input. -/
def guiInputAddOffset (pos : Int) : Nat := off buffer.text.1 (utf8AddOffset buffer.text.1 pos.toNat)

/-- The place after the character at a place. -/
def guiInputNextChar (ptr : Nat) : Nat := ptr + utf8CharSize (buffer.text.1.drop ptr)

/-- `strlen`, from a place on. -/
def guiInputStrlen (ptr : Nat) : Nat := (buffer.text.1.drop ptr).length

/-- `gui_input_insert_string`. -/
def guiInputInsertString (string : CStr) (pos : Int) : Option GuiInput :=
  let pos := if pos = -1 then buffer.inputBufferPos else pos
  let stringUtf8 := utf8Normalize string (ch '?')
  let size := stringUtf8.length
  let length := utf8Strlen stringUtf8
  match guiInputOptimizeSize env buffer (buffer.inputBufferSize + size) (buffer.inputBufferLength + length) with
  | (true, buffer) => do
    let buffer ← buffer.write buffer.inputBufferSize [0]
    -- move end of string to the right
    let ptrStart := guiInputAddOffset buffer pos
    let buffer ← buffer.move (ptrStart + size) ptrStart (guiInputStrlen buffer ptrStart)
    -- insert new string
    let buffer ← buffer.write (guiInputAddOffset buffer pos) stringUtf8
    return { buffer with inputBufferPos := buffer.inputBufferPos + length }
  | (false, buffer) => some buffer

/-- Deletes what is between two places; the cursor moves if the size can be set. -/
def guiInputDelete (start stop : Nat) (lengthDeleted moved : Int) : Option GuiInput := do
  let buffer ← buffer.move start stop (guiInputStrlen buffer stop)
  match guiInputOptimizeSize env buffer (buffer.inputBufferSize - (stop - start : Int))
      (buffer.inputBufferLength - lengthDeleted) with
  | (true, buffer) => do
    let buffer ← buffer.write buffer.inputBufferSize [0]
    return { buffer with inputBufferPos := buffer.inputBufferPos - moved }
  | (false, buffer) => some buffer

/-! ## Words -/

/-- `while (ptr && P) ptr = utf8_prev_char (string, ptr)`. -/
def utf8WhilePrev (string : Str) (P : Str → Bool) : (ptr : Option Nat) → Option Nat
  | none => none
  | some ptr =>
    if P (string.drop ptr) then
      match _h : utf8PrevChar string ptr with
      | some prev => utf8WhilePrev string P (some prev)
      | none => none
    else some ptr
termination_by ptr => ptr.getD 0
decreasing_by exact utf8PrevChar_lt _h

/-- `while (ptr[0] && P) ptr = utf8_next_char (ptr)`, with the number of characters. -/
def utf8WhileNext (string : Str) (P : Str → Bool) (ptr length : Nat) : Nat × Nat :=
  if _h : string.drop ptr ≠ [] ∧ P (string.drop ptr) then
    utf8WhileNext string P (ptr + utf8CharSize (string.drop ptr)) (length + 1)
  else (ptr, length)
termination_by string.length - ptr
decreasing_by
  have hpos := utf8CharSize_pos (string.drop ptr)
  have hlt : ptr < string.length := Nat.lt_of_not_le fun hle => _h.1 (List.drop_eq_nil_of_le hle)
  omega

/-- The last character of the word before a place, and the one before the word. -/
def guiInputPreviousWord (start : Nat) : Option Nat × Option Nat :=
  -- move to the left until we reach a word char
  let string := utf8WhilePrev buffer.text.1 (fun s => !env.isWordCharInput s) (some start)
  -- move to the left to skip the whole word
  (string, utf8WhilePrev buffer.text.1 env.isWordCharInput string)

/-! ## Operations -/

/-- `gui_input_delete_previous_char`. -/
def guiInputDeletePreviousChar : Option GuiInput :=
  if buffer.input ∧ 0 < buffer.inputBufferPos then do
    let buffer := guiBufferUndoSnap env buffer
    let pos := guiInputAddOffset buffer buffer.inputBufferPos
    let posLast ← utf8PrevChar buffer.text.1 pos
    let buffer ← guiInputDelete env buffer posLast pos 1 1
    guiInputTextChangedModifierAndSignal env buffer true
  else some buffer

/-- `gui_input_delete_next_char`. -/
def guiInputDeleteNextChar : Option GuiInput :=
  if buffer.input ∧ buffer.inputBufferPos < buffer.inputBufferLength then do
    let buffer := guiBufferUndoSnap env buffer
    let pos := guiInputAddOffset buffer buffer.inputBufferPos
    let buffer ← guiInputDelete env buffer pos (guiInputNextChar buffer pos) 1 0
    guiInputTextChangedModifierAndSignal env buffer true
  else some buffer

/-- `gui_input_delete_previous_word`. -/
def guiInputDeletePreviousWord : Option GuiInput :=
  if buffer.input ∧ 0 < buffer.inputBufferPos then do
    let buffer := guiBufferUndoSnap env buffer
    let start := guiInputAddOffset buffer (buffer.inputBufferPos - 1)
    let string := ((guiInputPreviousWord env buffer start).2.map (guiInputNextChar buffer)).getD 0
    let stop := guiInputNextChar buffer start
    let lengthDeleted := utf8Strnlen (buffer.text.1.drop string) (stop - string)
    let buffer ← guiInputDelete env buffer string stop lengthDeleted lengthDeleted
    guiInputTextChangedModifierAndSignal env buffer true
  else some buffer

/-- `gui_input_delete_next_word`. -/
def guiInputDeleteNextWord : Option GuiInput :=
  if buffer.input then do
    let buffer := guiBufferUndoSnap env buffer
    let start := guiInputAddOffset buffer buffer.inputBufferPos
    let skipped := utf8WhileNext buffer.text.1 (fun s => !env.isWordCharInput s) start 0
    let stop := utf8WhileNext buffer.text.1 env.isWordCharInput skipped.1 skipped.2
    let buffer ← guiInputDelete env buffer start stop.1 stop.2 0
    guiInputTextChangedModifierAndSignal env buffer true
  else some buffer

/-- `gui_input_delete_beginning_of_line`. -/
def guiInputDeleteBeginningOfLine : Option GuiInput :=
  if buffer.input ∧ 0 < buffer.inputBufferPos then do
    let buffer := guiBufferUndoSnap env buffer
    let start := guiInputAddOffset buffer buffer.inputBufferPos
    let lengthDeleted := utf8Strnlen buffer.text.1 start
    let buffer ← guiInputDelete env buffer 0 start lengthDeleted buffer.inputBufferPos
    guiInputTextChangedModifierAndSignal env buffer true
  else some buffer

/-- `gui_input_delete_end_of_line`. -/
def guiInputDeleteEndOfLine : Option GuiInput :=
  if buffer.input then do
    let buffer := guiBufferUndoSnap env buffer
    let buffer ← buffer.write (guiInputAddOffset buffer buffer.inputBufferPos) [0]
    let buffer := (guiInputOptimizeSize env buffer buffer.text.1.length (utf8Strlen buffer.text.1)).2
    guiInputTextChangedModifierAndSignal env buffer true
  else some buffer

/-- `gui_input_delete_line`. -/
def guiInputDeleteLine : Option GuiInput :=
  if buffer.input then do
    let buffer := guiBufferUndoSnap env buffer
    let buffer ← match guiInputOptimizeSize env buffer 0 0 with
      | (true, buffer) => (buffer.write 0 [0]).map fun buffer => { buffer with inputBufferPos := 0 }
      | (false, buffer) => some buffer
    guiInputTextChangedModifierAndSignal env buffer true
  else some buffer

/-- `sizeof (saved_char)`. -/
def savedCharSize : Nat := 5

/-- `gui_input_transpose_chars`. -/
def guiInputTransposeChars : Option GuiInput :=
  if buffer.input ∧ 0 < buffer.inputBufferPos ∧ 1 < buffer.inputBufferLength then do
    let buffer := guiBufferUndoSnap env buffer
    let buffer := if buffer.inputBufferPos = buffer.inputBufferLength then
        { buffer with inputBufferPos := buffer.inputBufferPos - 1 }
      else buffer
    let start := guiInputAddOffset buffer buffer.inputBufferPos
    let prevChar ← utf8PrevChar buffer.text.1 start
    let sizePrevChar := start - prevChar
    let sizeStartChar := utf8CharSize (buffer.text.1.drop start)
    if savedCharSize < sizePrevChar then none
    else
      let savedChar := (buffer.inputBuffer.drop prevChar).take sizePrevChar
      let buffer ← buffer.move prevChar start sizeStartChar
      let buffer ← buffer.write (prevChar + sizeStartChar : Nat) savedChar
      guiInputTextChangedModifierAndSignal env { buffer with inputBufferPos := buffer.inputBufferPos + 1 } true
  else some buffer

/-- `gui_input_move_beginning_of_line`. -/
def guiInputMoveBeginningOfLine : GuiInput :=
  if buffer.input ∧ 0 < buffer.inputBufferPos then { buffer with inputBufferPos := 0 } else buffer

/-- `gui_input_move_end_of_line`. -/
def guiInputMoveEndOfLine : GuiInput :=
  if buffer.input ∧ buffer.inputBufferPos < buffer.inputBufferLength then
    { buffer with inputBufferPos := buffer.inputBufferLength }
  else buffer

/-- `gui_input_move_previous_char`. -/
def guiInputMovePreviousChar : GuiInput :=
  if buffer.input ∧ 0 < buffer.inputBufferPos then { buffer with inputBufferPos := buffer.inputBufferPos - 1 } else buffer

/-- `gui_input_move_next_char`. -/
def guiInputMoveNextChar : GuiInput :=
  if buffer.input ∧ buffer.inputBufferPos < buffer.inputBufferLength then
    { buffer with inputBufferPos := buffer.inputBufferPos + 1 }
  else buffer

/-- `gui_input_move_previous_word`. -/
def guiInputMovePreviousWord : GuiInput :=
  if buffer.input ∧ 0 < buffer.inputBufferPos then
    let start := guiInputAddOffset buffer (buffer.inputBufferPos - 1)
    let words := guiInputPreviousWord env buffer start
    if words.1.isSome then
      { buffer with inputBufferPos := utf8Pos buffer.text.1 ((words.2.map (guiInputNextChar buffer)).getD 0) }
    else { buffer with inputBufferPos := 0 }
  else buffer

/-- `gui_input_move_next_word`; `none` if it goes before the first byte. -/
def guiInputMoveNextWord : Option GuiInput :=
  if buffer.input ∧ buffer.inputBufferPos < buffer.inputBufferLength then
    let start := guiInputAddOffset buffer buffer.inputBufferPos
    let pos := (utf8WhileNext buffer.text.1 (fun s => !env.isWordCharInput s) start 0).1
    if buffer.text.1.drop pos ≠ [] then
      let pos := (utf8WhileNext buffer.text.1 env.isWordCharInput pos 0).1
      if buffer.text.1.drop pos ≠ [] then some { buffer with inputBufferPos := utf8Pos buffer.text.1 pos }
      else some { buffer with inputBufferPos := buffer.inputBufferLength }
    else
      (utf8PrevChar buffer.text.1 pos).map fun pos => { buffer with inputBufferPos := utf8Pos buffer.text.1 pos }
  else some buffer

/-- `gui_input_undo_use`. -/
def guiInputUndoUse (undo : GuiInputUndo) : Option GuiInput :=
  if undo.data ≠ buffer.text then do
    let buffer ← guiInputReplaceInput env buffer undo.data
    guiInputTextChangedModifierAndSignal env (guiInputSetPos buffer undo.pos) false
  else some buffer

/-- `gui_input_undo`. -/
def guiInputUndo : Option GuiInput :=
  match buffer.ptrInputUndo with
  | none => some buffer
  | some ptr =>
    -- save current input content in undo list, at the end of list
    let buffer :=
      if ptr + 1 = buffer.inputUndo.length ∧ (buffer.inputUndo[ptr]?.map GuiInputUndo.data).getD buffer.text ≠ buffer.text then
        guiBufferUndoAdd env (guiBufferUndoSnapFree buffer)
      else buffer
    match buffer.ptrInputUndo with
    | some (ptr + 1) => do
      let undo ← buffer.inputUndo[ptr]?
      guiInputUndoUse env { buffer with ptrInputUndo := some ptr } undo
    | _ => some buffer

/-- `gui_input_redo`. -/
def guiInputRedo : Option GuiInput :=
  match buffer.ptrInputUndo with
  | none => some buffer
  | some ptr =>
    match buffer.inputUndo[ptr + 1]? with
    | some undo => guiInputUndoUse env { buffer with ptrInputUndo := some (ptr + 1) } undo
    | none => some buffer

end

/-! ## Any operation -/

/-- The operations on the input of a buffer. -/
inductive GuiInputOp
  | replaceInput (newInput : CStr)
  | insertString (string : CStr) (pos : Int)
  | setPos (pos : Int)
  | deletePreviousChar
  | deleteNextChar
  | deletePreviousWord
  | deleteNextWord
  | deleteBeginningOfLine
  | deleteEndOfLine
  | deleteLine
  | transposeChars
  | moveBeginningOfLine
  | moveEndOfLine
  | movePreviousChar
  | moveNextChar
  | movePreviousWord
  | moveNextWord
  | undo
  | redo
  deriving DecidableEq

def guiInputStep (env : GuiInputEnv) (buffer : GuiInput) : GuiInputOp → Option GuiInput
  | .replaceInput newInput => guiInputReplaceInput env buffer newInput
  | .insertString string pos => guiInputInsertString env buffer string pos
  | .setPos pos => some (guiInputSetPos buffer pos)
  | .deletePreviousChar => guiInputDeletePreviousChar env buffer
  | .deleteNextChar => guiInputDeleteNextChar env buffer
  | .deletePreviousWord => guiInputDeletePreviousWord env buffer
  | .deleteNextWord => guiInputDeleteNextWord env buffer
  | .deleteBeginningOfLine => guiInputDeleteBeginningOfLine env buffer
  | .deleteEndOfLine => guiInputDeleteEndOfLine env buffer
  | .deleteLine => guiInputDeleteLine env buffer
  | .transposeChars => guiInputTransposeChars env buffer
  | .moveBeginningOfLine => some (guiInputMoveBeginningOfLine buffer)
  | .moveEndOfLine => some (guiInputMoveEndOfLine buffer)
  | .movePreviousChar => some (guiInputMovePreviousChar buffer)
  | .moveNextChar => some (guiInputMoveNextChar buffer)
  | .movePreviousWord => some (guiInputMovePreviousWord env buffer)
  | .moveNextWord => guiInputMoveNextWord env buffer
  | .undo => guiInputUndo env buffer
  | .redo => guiInputRedo env buffer

end Wirc

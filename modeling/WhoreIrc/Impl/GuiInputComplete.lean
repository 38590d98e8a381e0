import WhoreIrc.Impl.Alias
import WhoreIrc.Impl.GuiCompletion
import WhoreIrc.Impl.GuiInput

/-!
# Completion in the input (`gui/gui-completion.c`, `gui/gui-input.c`)

The word to complete is found in the input of a buffer, and replaced there. The
words for a context come from hooks and templates, they are a parameter. `none` is
where the code would read or write outside of `input_buffer`. What is displayed and
the signals are left out.
-/

namespace Wirc

/-- The command before the argument to complete. -/
structure GuiCompletionCommand where
  baseCommand : Str
  baseCommandArgIndex : Nat
  args : Option Str

/-- What a function that builds the list of words sets. -/
structure GuiCompletionBuilt where
  list : List GuiCompletionWord
  context : GuiCompletionContext
  addSpace : Bool
  reversePartialCompletion : Bool

/-- What a completion depends on: options, and the lists of `gui_completion_build_list`,
of the commands, of the filenames and of the default template. -/
structure GuiCompletionEnv where
  config : GuiCompletionConfig
  commandChars : Str
  commandInline : Bool
  baseWordUntilCursor : Bool
  buildList : GuiCompletionCommand → GuiCompletion → GuiCompletionBuilt
  commandList : GuiCompletion → List GuiCompletionWord
  filenameList : GuiCompletion → GuiCompletionBuilt
  defaultList : GuiCompletion → GuiCompletionBuilt

/-- `gui_completion_buffer_init`. -/
def guiCompletionBufferInit : GuiCompletion where
  context := .null
  baseWord := []
  baseWordPos := 0
  position := -1
  direction := 0
  addSpace := true
  forcePartialCompletion := false
  reversePartialCompletion := false
  list := []
  wordFound := none
  wordFoundIsNick := false
  positionReplace := 0
  diffSize := 0
  diffLength := 0
  partialList := []

/-- The list is built. -/
def guiCompletionSetList (completion : GuiCompletion) (built : GuiCompletionBuilt) : GuiCompletion :=
  { completion with
    list := built.list
    context := built.context
    addSpace := built.addSpace
    reversePartialCompletion := built.reversePartialCompletion }

section

variable (env : GuiCompletionEnv) (data : Str) (size pos : Nat)

/-! ## Context -/

/-- `strchr (ptr_data, ' ')`. -/
def strchrSpace (ptrData : Nat) : Option Nat := ((data.drop ptrData).idxOf? (ch ' ')).map (ptrData + ·)

/-- `while ((ptr_data < data + pos) && (ptr_data[0] == ' ')) ptr_data++`. -/
def skipDataSpaces (ptrData : Nat) : Nat := ptrData + (((data.take pos).drop ptrData).takeWhile (· = ch ' ')).length

/-- `ptr_command`, if data starts with a command. -/
def guiCompletionFirstCommand : Option Nat :=
  if stringIsCommandChar env.commandChars data then
    let ptrData := utf8NextCharPos data 0
    let ptrData :=
      if ptrData < pos ∧ stringIsCommandChar env.commandChars (data.drop ptrData) then utf8NextCharPos data ptrData
      else ptrData
    if stringIsCommandChar env.commandChars (data.drop ptrData) then none else some ptrData
  else none

/-- `ptr_command`, for the last command in data; each round takes one byte at least. -/
def guiCompletionInlineCommand : (rounds : Nat) → (ptrData : Nat) → (ptrCommand : Option Nat) → Option Nat
  | 0, _, ptrCommand => ptrCommand
  | rounds + 1, ptrData, ptrCommand =>
    if ptrData < pos then
      match strchrSpace data ptrData with
      | none => ptrCommand
      | some ptrData =>
        let ptrData := skipDataSpaces data pos ptrData
        if ptrData < pos ∧ stringIsCommandChar env.commandChars (data.drop ptrData) then
          let ptrData := utf8NextCharPos data ptrData
          guiCompletionInlineCommand rounds ptrData
            (if stringIsCommandChar env.commandChars (data.drop ptrData) then ptrCommand else some ptrData)
        else guiCompletionInlineCommand rounds ptrData ptrCommand
    else ptrCommand

/-- `ptr_command`. -/
def guiCompletionPtrCommand : Option Nat :=
  match guiCompletionFirstCommand env data pos with
  | some ptrCommand => some ptrCommand
  | none => if env.commandInline then guiCompletionInlineCommand env data pos pos 0 none else none

/-- The argument number and the string with arguments; each round takes one byte at least. -/
def guiCompletionArgs : (rounds : Nat) → (ptrData : Nat) → (commandArg : Nat) → (args : Option Str) → Nat × Option Str
  | 0, _, commandArg, args => (commandArg, args)
  | rounds + 1, ptrData, commandArg, args =>
    if ptrData < pos then
      match strchrSpace data ptrData with
      | none => (commandArg, args)
      | some ptrData =>
        let ptrData := skipDataSpaces data pos ptrData
        guiCompletionArgs rounds ptrData (commandArg + 1) (some (args.getD (data.drop ptrData)))
    else (commandArg, args)

/-- `while ((pos_end < size) && (data[pos_end] != ' ')) pos_end += utf8_char_size (data + pos_end)`. -/
def guiCompletionCommandEnd : (rounds : Nat) → (posEnd : Nat) → Nat
  | 0, posEnd => posEnd
  | rounds + 1, posEnd =>
    if posEnd < size ∧ data.getD posEnd 0 ≠ ch ' ' then
      guiCompletionCommandEnd rounds (posEnd + utf8CharSize (data.drop posEnd))
    else posEnd

/-- `base_command`, for `ptr_command`. -/
def guiCompletionBaseCommand (posStart : Nat) : Str :=
  let posEnd := guiCompletionCommandEnd data size size posStart
  let posEnd :=
    if data.getD posEnd 0 = ch ' ' then
      posEnd - utf8CharSize (data.drop ((utf8PrevChar data posEnd).getD 0))
    else posEnd
  if posStart ≤ posEnd then (data.drop posStart).take (posEnd - posStart + 1) else []

/-! ## Base word -/

/-- `while ((i >= 0) && (data[i] != ' ')) i--`, with the place after `i`. -/
def guiCompletionWordStart : (stop : Nat) → Nat
  | 0 => 0
  | i + 1 => if data.getD i 0 = ch ' ' then i + 1 else guiCompletionWordStart i

/-- `pos_start`, before it is moved after a command char. -/
def guiCompletionPosStart : Nat :=
  if data.getD pos 0 = ch ' ' then
    if pos > 0 ∧ data.getD (pos - 1) 0 ≠ ch ' ' then guiCompletionWordStart data pos else pos
  else guiCompletionWordStart data (pos + 1)

/-- The place after `pos_end`. -/
def guiCompletionPosEnd : Nat :=
  if env.baseWordUntilCursor then pos else pos + (((data.take size).drop pos).takeWhile (· ≠ ch ' ')).length

/-- The word to complete is set, for the context. -/
def guiCompletionBaseWord (completion : GuiCompletion) : GuiCompletion :=
  if size > 0 then
    let posStart := guiCompletionPosStart data pos
    let posEnd := guiCompletionPosEnd env data size pos
    let posStart :=
      if completion.context = .command then
        let posStart := posStart + 1
        if stringIsCommandChar env.commandChars (data.drop posStart) then posStart + utf8CharSize (data.drop posStart)
        else posStart
      else posStart
    if posStart < posEnd then
      { completion with
        baseWordPos := posStart
        positionReplace := posStart
        baseWord := (data.drop posStart).take (posEnd - posStart) }
    else { completion with baseWordPos := posStart, positionReplace := pos, baseWord := [] }
  else { completion with baseWordPos := 0, positionReplace := pos, baseWord := [] }

/-- `gui_completion_find_context`. -/
def guiCompletionFindContext : GuiCompletion :=
  let completion :=
    match guiCompletionPtrCommand env data pos with
    | none => guiCompletionBaseWord env data size pos { guiCompletionBufferInit with context := .auto }
    | some ptrCommand =>
      let (commandArg, args) := guiCompletionArgs data pos pos ptrCommand 0 none
      if commandArg > 0 then
        let completion := guiCompletionBaseWord env data size pos { guiCompletionBufferInit with context := .commandArg }
        guiCompletionSetList completion
          (env.buildList ⟨guiCompletionBaseCommand data size ptrCommand, commandArg, args⟩ completion)
      else guiCompletionBaseWord env data size pos { guiCompletionBufferInit with context := .command }
  -- auto completion with nothing as base word is disabled
  if completion.context = .auto ∧ completion.baseWord = [] then { completion with context := .null } else completion

/-! ## Search -/

/-- The list of `gui_completion_auto`. -/
def guiCompletionAutoList (completion : GuiCompletion) : GuiCompletion :=
  if completion.list = [] then
    guiCompletionSetList completion
      (if completion.baseWord.head? = some (ch '/') ∨ completion.baseWord.head? = some (ch '~') then
        env.filenameList completion
      else env.defaultList completion)
  else completion

/-- The list of `gui_completion_search`, before `gui_completion_complete`. -/
def guiCompletionContextList (completion : GuiCompletion) : GuiCompletion :=
  match completion.context with
  | .null => completion
  | .command => if completion.list = [] then { completion with list := env.commandList completion } else completion
  | .commandArg =>
    if completion.list = [] then guiCompletionAutoList env { completion with context := .auto } else completion
  | .auto => guiCompletionAutoList env completion

/-- `gui_completion_search`. -/
def guiCompletionSearch (completion : GuiCompletion) (direction : Int) : GuiCompletion :=
  let completion := { completion with direction }
  -- if new completion => look for base word
  let completion :=
    if (pos : Int) ≠ completion.position then
      { guiCompletionFindContext env data size pos with forcePartialCompletion := decide (direction < 0) }
    else completion
  let oldWordFound := completion.wordFound
  if completion.context = .null then completion
  else
    let completion := guiCompletionComplete env.config (guiCompletionContextList env completion)
    match completion.wordFound with
    | some wordFound =>
      let old := oldWordFound.getD completion.baseWord
      { completion with
        diffSize := wordFound.length - old.length
        diffLength := utf8Strlen wordFound - utf8Strlen old }
    | none => completion

end

/-! ## Input -/

/-- Reads a byte of `input_buffer`. -/
def GuiInput.read (buffer : GuiInput) (pos : Int) : Option Byte :=
  if 0 ≤ pos then buffer.inputBuffer[pos.toNat]? else none

/-- The loop that makes room, from the last byte down to `start`. -/
def guiInputMoveRight (diffSize start : Int) : (count : Nat) → GuiInput → Option GuiInput
  | 0, buffer => some buffer
  | count + 1, buffer => do
    let c ← buffer.read (start + count - diffSize)
    let buffer ← buffer.write (start + count) [c]
    guiInputMoveRight diffSize start count buffer

/-- The loop that closes a gap, from the byte `i` up. -/
def guiInputMoveLeft (diffSize : Int) : (count : Nat) → (i : Int) → GuiInput → Option GuiInput
  | 0, _, buffer => some buffer
  | count + 1, i, buffer => do
    let c ← buffer.read (i - diffSize)
    let buffer ← buffer.write i [c]
    guiInputMoveLeft diffSize count (i + 1) buffer

section

variable (env : GuiInputEnv) (buffer : GuiInput)

/-- The bytes after the word found are moved, and the size of the input is set. -/
def guiInputCompleteMove (completion : GuiCompletion) (wordFound : Str) : Option GuiInput :=
  let start := completion.positionReplace + wordFound.length
  if completion.diffSize > 0 then
    match guiInputOptimizeSize env buffer (buffer.inputBufferSize + completion.diffSize)
        (buffer.inputBufferLength + completion.diffLength) with
    | (true, buffer) => do
      let buffer ← buffer.write buffer.inputBufferSize [0]
      guiInputMoveRight completion.diffSize start (buffer.inputBufferSize - start).toNat buffer
    | (false, buffer) => some buffer
  else do
    let buffer ← guiInputMoveLeft completion.diffSize (buffer.inputBufferSize - start).toNat start buffer
    let buffer := { buffer with inputBufferLength := buffer.inputBufferLength + completion.diffLength }
    match guiInputOptimizeSize env buffer (buffer.inputBufferSize + completion.diffSize) buffer.inputBufferLength with
    | (true, buffer) => buffer.write buffer.inputBufferSize [0]
    | (false, buffer) => some buffer

/-- `utf8_real_pos (buffer->input_buffer, buffer->input_buffer_pos)`. -/
def guiInputRealPos : Nat := utf8RealPos buffer.text.1 buffer.inputBufferPos.toNat

/-- A space, as a C string. -/
def spaceString : CStr := ⟨lit " ", by decide⟩

/-- Adds a space after the word found, or goes after the one that is there. -/
def guiInputCompleteSpace : Option GuiInput := do
  let c ← buffer.read (guiInputRealPos buffer)
  if c ≠ ch ' ' then guiInputInsertString env buffer spaceString buffer.inputBufferPos
  else some { buffer with inputBufferPos := buffer.inputBufferPos + 1 }

/-- `gui_input_complete`. -/
def guiInputComplete (completion : GuiCompletion) : Option (GuiInput × GuiCompletion) :=
  match completion.wordFound with
  | none => some (buffer, completion)
  | some wordFound => do
    -- replace word with new completed word into input buffer
    let buffer ← guiInputCompleteMove env buffer completion wordFound
    let buffer ← buffer.write completion.positionReplace wordFound
    let buffer :=
      { buffer with
        inputBufferPos := utf8Pos buffer.text.1 completion.positionReplace.toNat + utf8Strlen wordFound }
    -- position is < 0 if only one word was found to complete
    let completion :=
      if 0 ≤ completion.position then { completion with position := guiInputRealPos buffer } else completion
    -- add space if needed after completion
    if completion.addSpace then
      let buffer ← guiInputCompleteSpace env buffer
      return (buffer,
        if 0 ≤ completion.position then { completion with position := completion.position + 1 } else completion)
    else return (buffer, completion)

/-- `gui_input_complete_next`, where `textSearch` is whether a text is searched in the buffer. -/
def guiInputCompleteNext (completionEnv : GuiCompletionEnv) (textSearch : Bool)
    (state : GuiInput × GuiCompletion) : Option (GuiInput × GuiCompletion) :=
  if state.1.input ∧ textSearch = false then do
    let buffer := guiBufferUndoSnap env state.1
    let completion := guiCompletionSearch completionEnv buffer.text.1 buffer.inputBufferSize.toNat (guiInputRealPos buffer)
      state.2 1
    let (buffer, completion) ← guiInputComplete env buffer completion
    let buffer ← guiInputTextChangedModifierAndSignal env buffer true
    return (buffer, completion)
  else some state

end

end Wirc

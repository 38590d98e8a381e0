import WhoreIrc.Impl.GuiBuffer

/-!
# Buffers that are created, moved and merged (`gui/gui-buffer.c`)

What the functions do to the list of buffers and to their numbers. Lines, windows
and signals are left out. A buffer is a pointer: that of a buffer that is created
is not one of an open buffer.
-/

namespace Wirc

open Framework

/-- `GUI_BUFFERS_MAX`. -/
def guiBuffersMax : Nat := 10000

/-- The numbers that `gui_layout_buffer_get_number` gives a buffer, which are of type int. -/
structure GuiLayoutPlace where
  layoutNumber : Int
  layoutNumberMergeOrder : Int
  layoutNumber_le : layoutNumber ≤ 2147483647

/-- The place of a buffer that is not in the layout. -/
def GuiLayoutPlace.outside : GuiLayoutPlace := ⟨0, 0, by decide⟩

/-- The open buffers with their places in the layout. -/
structure GuiBufferList (Buffer : Type) where
  buffers : GuiBuffers Buffer
  layout : Buffer → GuiLayoutPlace

/-- The buffers from a first one to a last one, with those before and after them. -/
structure GuiBufferSegment (Buffer : Type) where
  before : List Buffer
  group : List Buffer
  after : List Buffer

section

variable {Buffer : Type} [DecidableEq Buffer]

/-- Where a buffer is in the list, from it to `lastBuffer`. -/
def guiBufferSegment (list : List Buffer) (firstBuffer lastBuffer : Buffer) : GuiBufferSegment Buffer :=
  let rest := list.dropWhile (· ≠ firstBuffer)
  { before := list.takeWhile (· ≠ firstBuffer)
    group := rest.takeWhile (· ≠ lastBuffer) ++ [lastBuffer]
    after := (rest.dropWhile (· ≠ lastBuffer)).tail }

/-- The numbers of the buffers of a group become `number`. -/
def guiBufferSetNumbers (numbers : Buffer → Int) (group : List Buffer) (number : Int) : Buffer → Int :=
  fun ptrBuffer => if ptrBuffer ∈ group then number else numbers ptrBuffer

/-- The buffers `next` after `buffer` are shifted if the first one has its number. -/
def guiBufferShiftNext (numbers : Buffer → Int) (buffer : Buffer) (next : List Buffer) : Buffer → Int :=
  if next.head?.any fun nextBuffer => numbers nextBuffer = numbers buffer then guiBufferShiftNumbers numbers buffer next
  else numbers

/-! ## Merged buffers -/

/-- `gui_buffer_merge`, of buffers of which `formatted` have the type `GUI_BUFFER_TYPE_FORMATTED`. -/
def guiBufferMerge (bufferAutoRenumber : Bool) (formatted : Buffer → Bool) (buffers : GuiBuffers Buffer)
    (buffer targetBuffer : Buffer) : GuiBuffers Buffer :=
  if buffers.guiBuffers.length < 2 ∨ buffer = targetBuffer ∨ buffers.number buffer = buffers.number targetBuffer then buffers
  else if !formatted buffer || !formatted targetBuffer then buffers
  else
    let range := guiBufferSearchRange buffers (buffers.number buffer) (buffers.number buffer)
    let target := guiBufferSearchRange buffers (buffers.number targetBuffer) (buffers.number targetBuffer)
    match range.firstBuffer, range.lastBuffer, target.firstBuffer, target.lastBuffer with
    | some firstBuffer, some lastBuffer, some _, some lastTarget =>
      let segment := guiBufferSegment buffers.guiBuffers firstBuffer lastBuffer
      -- compute "number - 1" on next buffers if auto renumber is ON
      let number := fun ptrBuffer =>
        if bufferAutoRenumber ∧ ptrBuffer ∈ segment.after then buffers.number ptrBuffer - 1 else buffers.number ptrBuffer
      -- insert new merged buffers after target buffer
      let around := guiBuffersAround { buffers with guiBuffers := segment.before ++ segment.after } lastTarget
      { buffers with
        guiBuffers := around.1 ++ lastTarget :: (segment.group ++ around.2)
        number := guiBufferSetNumbers number segment.group (number targetBuffer) }
    | _, _, _, _ => buffers

/-! ## Buffers that are created -/

/-- The loop of `gui_buffer_find_pos`. -/
def guiBufferFindPosLoop (buffers : GuiBufferList Buffer) (place : GuiLayoutPlace) (prevBuffer : Option Buffer) :
    List Buffer → Option Buffer
  | [] => none
  | ptrBuffer :: rest =>
    let ptrPlace := buffers.layout ptrBuffer
    if (ptrPlace.layoutNumber < 1 ∨ place.layoutNumber < ptrPlace.layoutNumber ∨
          place.layoutNumber = ptrPlace.layoutNumber ∧ place.layoutNumberMergeOrder ≤ ptrPlace.layoutNumberMergeOrder) ∧
        -- not possible to insert a buffer between 2 merged buffers
        prevBuffer.all fun prevBuffer => buffers.buffers.number prevBuffer ≠ buffers.buffers.number ptrBuffer then
      some ptrBuffer
    else guiBufferFindPosLoop buffers place (some ptrBuffer) rest

/-- `gui_buffer_find_pos`, of a buffer with a place in the layout. -/
def guiBufferFindPos (buffers : GuiBufferList Buffer) (place : GuiLayoutPlace) : Option Buffer :=
  if place.layoutNumber < 1 then none else guiBufferFindPosLoop buffers place none buffers.buffers.guiBuffers

/-- The first available number in `gui_buffer_insert`, and the buffer after it. There is no number
before the first buffer: then `prevNumber` is 0. -/
def guiBufferFindGap (number : Buffer → Int) (prevNumber : Int) : List Buffer → Option (Buffer × Int)
  | [] => none
  | ptrBuffer :: rest =>
    if number ptrBuffer > prevNumber + 1 then some (ptrBuffer, prevNumber + 1)
    else guiBufferFindGap number (number ptrBuffer) rest

/-- Where `gui_buffer_insert` puts a buffer, and the number that is forced. -/
def guiBufferInsertPos (firstGap : Bool) (buffers : GuiBufferList Buffer) (place : GuiLayoutPlace) :
    Option (Buffer × Option Int) :=
  match guiBufferFindPos buffers place with
  | some posBuffer => some (posBuffer, none)
  | none =>
    if place.layoutNumber = 0 ∧ firstGap then
      (guiBufferFindGap buffers.buffers.number 0 buffers.buffers.guiBuffers).map fun gap => (gap.1, some gap.2)
    else none

/-- The buffer to merge with: the one at the position or the one before it, if the layout has
them at the same number. -/
def guiBufferInsertMergeBuffer (buffers : GuiBufferList Buffer) (place : GuiLayoutPlace) (posBuffer : Buffer) :
    Option Buffer :=
  if place.layoutNumber > 0 then
    if place.layoutNumber = (buffers.layout posBuffer).layoutNumber then some posBuffer
    else (guiBuffersAround buffers.buffers posBuffer).1.getLast?.filter fun prevBuffer =>
      place.layoutNumber = (buffers.layout prevBuffer).layoutNumber
  else none

/-- The number of a buffer that is put before `posBuffer`. -/
def guiBufferInsertNumber (bufferAutoRenumber : Bool) (buffers : GuiBuffers Buffer) (place : GuiLayoutPlace)
    (posBuffer : Buffer) (forceNumber : Option Int) : Int :=
  match forceNumber with
  | some forceNumber => forceNumber
  | none =>
    if !bufferAutoRenumber ∧ place.layoutNumber > 0 ∧ place.layoutNumber < buffers.number posBuffer ∧
        (guiBuffersAround buffers posBuffer).1.getLast?.all fun prevBuffer =>
          place.layoutNumber > buffers.number prevBuffer then
      place.layoutNumber
    else buffers.number posBuffer

/-- A buffer is added before `posBuffer`. -/
def guiBufferInsertBefore (bufferAutoRenumber : Bool) (buffers : GuiBuffers Buffer) (buffer : Buffer)
    (place : GuiLayoutPlace) (posBuffer : Buffer) (forceNumber : Option Int) : GuiBuffers Buffer :=
  let around := guiBuffersAround buffers posBuffer
  let number := Function.update buffers.number buffer
    (guiBufferInsertNumber bufferAutoRenumber buffers place posBuffer forceNumber)
  { buffers with
    guiBuffers := around.1 ++ buffer :: posBuffer :: around.2
    number := guiBufferShiftNext number buffer (posBuffer :: around.2) }

/-- A buffer is added to the end. -/
def guiBufferInsertEnd (bufferAutoRenumber : Bool) (buffers : GuiBuffers Buffer) (buffer : Buffer)
    (place : GuiLayoutPlace) : GuiBuffers Buffer :=
  let lastGuiBuffer := buffers.guiBuffers.getLast?
  let number :=
    if !bufferAutoRenumber ∧ place.layoutNumber > 0 ∧
        lastGuiBuffer.all fun lastGuiBuffer => place.layoutNumber > buffers.number lastGuiBuffer then place.layoutNumber
    else lastGuiBuffer.elim 1 fun lastGuiBuffer => buffers.number lastGuiBuffer + 1
  { buffers with
    guiBuffers := buffers.guiBuffers ++ [buffer]
    number := Function.update buffers.number buffer number }

/-- A buffer is added at its position, or to the end. -/
def guiBufferInsertAt (bufferAutoRenumber : Bool) (buffers : GuiBuffers Buffer) (buffer : Buffer) (place : GuiLayoutPlace) :
    Option (Buffer × Option Int) → GuiBuffers Buffer
  | some (posBuffer, forceNumber) => guiBufferInsertBefore bufferAutoRenumber buffers buffer place posBuffer forceNumber
  | none => guiBufferInsertEnd bufferAutoRenumber buffers buffer place

/-- The buffers to merge at the end of `gui_buffer_insert`: the one that was added with the previous
one, or the next one with it, if they have its layout number. -/
def guiBufferInsertMerged (buffers : GuiBufferList Buffer) (buffer : Buffer) : Option (Buffer × Buffer) :=
  let around := guiBuffersAround buffers.buffers buffer
  let sameNumber := fun ptrBuffer => (buffers.layout buffer).layoutNumber = (buffers.layout ptrBuffer).layoutNumber
  if (buffers.layout buffer).layoutNumber > 0 then
    ((around.1.getLast?.filter fun prevBuffer => sameNumber prevBuffer).map fun prevBuffer => (buffer, prevBuffer)).or
      ((around.2.head?.filter fun nextBuffer => sameNumber nextBuffer).map fun nextBuffer => (nextBuffer, buffer))
  else none

/-- `gui_buffer_insert`, of a buffer with a place in the layout. -/
def guiBufferInsert (bufferAutoRenumber firstGap : Bool) (formatted : Buffer → Bool) (buffers : GuiBufferList Buffer)
    (buffer : Buffer) (place : GuiLayoutPlace) : GuiBufferList Buffer :=
  let layout := Function.update buffers.layout buffer place
  let pos := guiBufferInsertPos firstGap buffers place
  let mergeBuffer := pos.bind fun pos => guiBufferInsertMergeBuffer buffers place pos.1
  let inserted := guiBufferInsertAt bufferAutoRenumber buffers.buffers buffer place (pos.filter fun _ => mergeBuffer.isNone)
  let merged := (mergeBuffer.map fun mergeBuffer => (buffer, mergeBuffer)).or
    (guiBufferInsertMerged ⟨inserted, layout⟩ buffer)
  { buffers := merged.elim inserted fun merged => guiBufferMerge bufferAutoRenumber formatted inserted merged.1 merged.2
    layout }

/-- `gui_buffer_new`, once the name is checked: there are at most `GUI_BUFFERS_MAX` buffers. -/
def guiBufferNew (bufferAutoRenumber firstGap : Bool) (formatted : Buffer → Bool) (buffers : GuiBufferList Buffer)
    (buffer : Buffer) (place : GuiLayoutPlace) : GuiBufferList Buffer :=
  if buffers.buffers.guiBuffers.length ≥ guiBuffersMax then buffers
  else guiBufferInsert bufferAutoRenumber firstGap formatted buffers buffer place

/-! ## Buffers that are moved -/

/-- What `gui_buffer_move_to_number` does with the first and the last buffer to move. -/
def guiBufferMoveSegment (bufferAutoRenumber : Bool) (buffers : GuiBuffers Buffer) (number : Int)
    (firstBuffer lastBuffer : Buffer) : GuiBuffers Buffer :=
  let segment := guiBufferSegment buffers.guiBuffers firstBuffer lastBuffer
  let others := segment.before ++ segment.after
  -- compute "number - 1" on next buffers if auto renumber is ON
  let numbers := fun ptrBuffer =>
    if bufferAutoRenumber ∧ ptrBuffer ∈ segment.after then buffers.number ptrBuffer - 1 else buffers.number ptrBuffer
  let before := others.takeWhile fun ptrBuffer => numbers ptrBuffer < number
  let after := others.dropWhile fun ptrBuffer => numbers ptrBuffer < number
  -- added to the end if the number is not found
  let number :=
    if after.isEmpty && bufferAutoRenumber then others.getLast?.elim number fun lastGuiBuffer => numbers lastGuiBuffer + 1
    else number
  { buffers with
    guiBuffers := before ++ (segment.group ++ after)
    number := guiBufferShiftNext (guiBufferSetNumbers numbers segment.group number) lastBuffer after }

/-- `gui_buffer_move_to_number`. -/
def guiBufferMoveToNumber (bufferAutoRenumber : Bool) (buffers : GuiBuffers Buffer) (buffer : Buffer) (number : Int) :
    GuiBuffers Buffer :=
  let number := min (max number 1) guiBufferNumberMax
  let range := guiBufferSearchRange buffers (buffers.number buffer) (buffers.number buffer)
  if bufferAutoRenumber ∧ buffers.guiBuffers.length < 2 then buffers
  else if number = buffers.number buffer then buffers
  else
    match range.firstBuffer, range.lastBuffer with
    | some firstBuffer, some lastBuffer =>
      if bufferAutoRenumber ∧ buffers.guiBuffers.head? = some firstBuffer ∧ buffers.guiBuffers.getLast? = some lastBuffer then
        buffers
      else guiBufferMoveSegment bufferAutoRenumber buffers number firstBuffer lastBuffer
    | _, _ => buffers

/-! ## Buffers that are closed -/

/-- What `gui_buffer_close` does to the list of buffers at the end. -/
def guiBufferRemoveBuffer (bufferAutoRenumber : Bool) (buffers : GuiBuffers Buffer) (buffer : Buffer) : GuiBuffers Buffer :=
  let next := (guiBuffersAround buffers buffer).2
  { guiBufferVisitedRemoveByBuffer buffers buffer with
    guiBuffers := buffers.guiBuffers.erase buffer
    number := fun ptrBuffer =>
      if bufferAutoRenumber ∧ ptrBuffer ∈ next then buffers.number ptrBuffer - 1 else buffers.number ptrBuffer }

/-- What `gui_buffer_close` does to the buffers: what the windows display instead is left out. -/
def guiBufferCloseBuffers (bufferAutoRenumber : Bool) (buffers : GuiBuffers Buffer) (buffer : Buffer) :
    GuiBuffers Buffer :=
  let lastNumber := (buffers.guiBuffers.getLast?.map buffers.number).getD 0
  guiBufferRemoveBuffer bufferAutoRenumber
    (if guiBufferCountMergedBuffers buffers (buffers.number buffer) > 1 then
      guiBufferUnmerge bufferAutoRenumber buffers buffer (lastNumber + 1)
    else buffers)
    buffer

/-! ## Runs -/

/-- What is done to buffers. A buffer is created with its place in the layout, with the option
`weechat.look.buffer_position` at `first_gap` or not, and with the types of buffers at that time. -/
inductive GuiBufferOp (Buffer : Type) where
  | new (buffer : Buffer) (place : GuiLayoutPlace) (firstGap : Bool) (formatted : Buffer → Bool)
  | close (buffer : Buffer)
  | moveToNumber (buffer : Buffer) (number : Int)
  | unmerge (buffer : Buffer) (number : Int)
  | renumber (number1 number2 startNumber : Int)

/-- The buffers without one, before the first is created. -/
def guiBufferListEmpty : GuiBufferList Buffer where
  buffers := ⟨[], fun _ => 0, [], -1⟩
  layout _ := .outside

/-- A step: `none` is one on a buffer that is not open, or the creation of one that is. -/
def guiBufferStep (bufferAutoRenumber : Bool) (buffers : GuiBufferList Buffer) : GuiBufferOp Buffer →
    Option (GuiBufferList Buffer)
  | .new buffer place firstGap formatted =>
    if buffer ∈ buffers.buffers.guiBuffers then none
    else some (guiBufferNew bufferAutoRenumber firstGap formatted buffers buffer place)
  | .close buffer =>
    if buffer ∈ buffers.buffers.guiBuffers then
      some { buffers with buffers := guiBufferCloseBuffers bufferAutoRenumber buffers.buffers buffer }
    else none
  | .moveToNumber buffer number =>
    if buffer ∈ buffers.buffers.guiBuffers then
      some { buffers with buffers := guiBufferMoveToNumber bufferAutoRenumber buffers.buffers buffer number }
    else none
  | .unmerge buffer number =>
    if buffer ∈ buffers.buffers.guiBuffers then
      some { buffers with buffers := guiBufferUnmerge bufferAutoRenumber buffers.buffers buffer number }
    else none
  | .renumber number1 number2 startNumber =>
    (guiBufferRenumber buffers.buffers number1 number2 startNumber).map fun renumbered =>
      { buffers with buffers := renumbered.1 }

end

end Wirc

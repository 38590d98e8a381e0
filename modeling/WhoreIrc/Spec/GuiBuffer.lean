import Mathlib.Data.Finset.Card
import Mathlib.Data.Finset.Dedup
import WhoreIrc.Impl.GuiBuffer
import WhoreIrc.Impl.GuiBufferInsert
import WhoreIrc.Spec.GuiScreen

/-!
# Renumbering buffers

Buffers with the same number are a group. What `gui_buffer_renumber` is expected
to do to the groups of a range, and when it does nothing.
-/

namespace Wirc

section

variable {Buffer : Type}

/-- The buffers are in the order of their numbers. -/
structure BuffersNumbered (buffers : GuiBuffers Buffer) : Prop where
  nonempty : buffers.guiBuffers ≠ []
  nodup : buffers.guiBuffers.Nodup
  sorted : buffers.guiBuffers.Pairwise fun x y => buffers.number x ≤ buffers.number y
  bounds : ∀ x ∈ buffers.guiBuffers, 1 ≤ buffers.number x ∧ buffers.number x ≤ 2147483647

/-- A number is before a range that has a first number, or after one that has a last number. -/
def BeforeRange (number1 number : Int) : Prop := 1 ≤ number1 ∧ number < number1

def AfterRange (number2 number : Int) : Prop := 1 ≤ number2 ∧ number2 < number

instance (number1 number : Int) : Decidable (BeforeRange number1 number) := inferInstanceAs (Decidable (_ ∧ _))

instance (number2 number : Int) : Decidable (AfterRange number2 number) := inferInstanceAs (Decidable (_ ∧ _))

def InRange (number1 number2 number : Int) : Prop := ¬ BeforeRange number1 number ∧ ¬ AfterRange number2 number

instance (number1 number2 number : Int) : Decidable (InRange number1 number2 number) :=
  inferInstanceAs (Decidable (_ ∧ _))

/-- The buffers in the range. -/
def buffersInRange (buffers : GuiBuffers Buffer) (number1 number2 : Int) : List Buffer :=
  buffers.guiBuffers.filter fun x => InRange number1 number2 (buffers.number x)

/-- The number of groups of some buffers. -/
def groupCount (number : Buffer → Int) (list : List Buffer) : Nat := (list.map number).toFinset.card

/-- The numbers of some buffers are those from `start` on, one for each of `count` groups. -/
def Consecutive (start : Int) (count : Nat) (numbers : List Int) : Prop :=
  ∀ n, n ∈ numbers ↔ start ≤ n ∧ n < start + count

/-- The start number that is asked for: the first one of the range below 1. -/
def startOf (buffers : GuiBuffers Buffer) (number1 number2 startNumber : Int) : Int :=
  if startNumber < 1 then ((buffersInRange buffers number1 number2).head?.map buffers.number).getD 0 else startNumber

/-- The groups of the range have consecutive numbers from `start` on, in the same order, and the
list increases from group to group. -/
structure Renumbered (buffers : GuiBuffers Buffer) (number1 number2 start : Int) (number : Buffer → Int) : Prop where
  consecutive : Consecutive start (groupCount buffers.number (buffersInRange buffers number1 number2))
    ((buffersInRange buffers number1 number2).map number)
  outside : ∀ x ∈ buffers.guiBuffers, ¬ InRange number1 number2 (buffers.number x) → number x = buffers.number x
  increasing : ∀ x ∈ buffers.guiBuffers, ∀ y ∈ buffers.guiBuffers, buffers.number x < buffers.number y ↔ number x < number y

/-- The new numbers are not greater than one before the range, or not lower than one after it, or
they are the old ones; or the range is empty. -/
def KeepsNumbers (buffers : GuiBuffers Buffer) (number1 number2 start : Int) : Prop :=
  buffersInRange buffers number1 number2 = [] ∨
    (∃ x ∈ buffers.guiBuffers, BeforeRange number1 (buffers.number x) ∧ start ≤ buffers.number x) ∨
    (∃ x ∈ buffers.guiBuffers, AfterRange number2 (buffers.number x) ∧
      buffers.number x ≤ start + groupCount buffers.number (buffersInRange buffers number1 number2) - 1) ∨
    Consecutive start (groupCount buffers.number (buffersInRange buffers number1 number2))
      ((buffersInRange buffers number1 number2).map buffers.number)

/-- What `gui_buffer_renumber` makes of the numbers. -/
structure RenumberRight (buffers : GuiBuffers Buffer) (number1 number2 start : Int) (number : Buffer → Int) : Prop where
  renumbered : (∀ x ∈ buffers.guiBuffers, number x = buffers.number x) ∨ Renumbered buffers number1 number2 start number
  keeps : (∀ x ∈ buffers.guiBuffers, number x = buffers.number x) ↔ KeepsNumbers buffers number1 number2 start

end

/-!
## Numbers of buffers are integers

A buffer number is of type int. A step that takes a number shifts those after it up to
the first free number, so that it needs one from its own on.
-/

section

variable {Buffer : Type}

/-- No number is greater than `INT_MAX`. -/
def NumbersFit (buffers : GuiBuffers Buffer) : Prop := ∀ x ∈ buffers.guiBuffers, buffers.number x ≤ 2147483647

/-- The numbers are sorted and of type int, and there are not too many buffers. -/
structure BuffersFit (buffers : GuiBuffers Buffer) : Prop extends BuffersOk buffers where
  positive : ∀ x ∈ buffers.guiBuffers, 1 ≤ buffers.number x
  fits : NumbersFit buffers
  count : buffers.guiBuffers.length ≤ guiBuffersMax

/-- A number from `number` to `INT_MAX` is not taken. -/
def NumberFree (buffers : GuiBuffers Buffer) (number : Int) : Prop :=
  ∃ m, number ≤ m ∧ m ≤ 2147483647 ∧ ∀ x ∈ buffers.guiBuffers, buffers.number x ≠ m

/-- There is a number after the last one. -/
def EndFits (buffers : GuiBuffers Buffer) : Prop :=
  ∀ lastGuiBuffer ∈ buffers.guiBuffers.getLast?, buffers.number lastGuiBuffer < 2147483647

variable [DecidableEq Buffer]

/-- The layout number of a buffer that is put before `posBuffer` is free there, or that of
`posBuffer` can be shifted. -/
def BeforeFits (buffers : GuiBuffers Buffer) (place : GuiLayoutPlace) (posBuffer : Buffer) : Prop :=
  (place.layoutNumber < buffers.number posBuffer ∧
      ∀ prevBuffer ∈ (guiBuffersAround buffers posBuffer).1.getLast?, buffers.number prevBuffer < place.layoutNumber) ∨
    NumberFree buffers (buffers.number posBuffer)

/-- A buffer is created in a gap, before another one, or at the end (also before it is merged). -/
def NewFits (firstGap : Bool) (buffers : GuiBufferList Buffer) (place : GuiLayoutPlace) : Prop :=
  match guiBufferInsertPos firstGap buffers place with
  | some (_, some _) => True
  | some (posBuffer, none) =>
    if (guiBufferInsertMergeBuffer buffers place posBuffer).isSome then EndFits buffers.buffers
    else BeforeFits buffers.buffers place posBuffer
  | none => EndFits buffers.buffers

/-- A step finds the numbers that it needs: one that puts a buffer at a number above
`GUI_BUFFER_NUMBER_MAX`, as the number is not brought down there. -/
def StepFits (buffers : GuiBufferList Buffer) : GuiBufferOp Buffer → Prop
  | .new _ place firstGap _ => buffers.buffers.guiBuffers.length < guiBuffersMax → NewFits firstGap buffers place
  | .close buffer =>
    1 < guiBufferCountMergedBuffers buffers.buffers (buffers.buffers.number buffer) → EndFits buffers.buffers
  | .unmerge buffer number =>
    1 < guiBufferCountMergedBuffers buffers.buffers (buffers.buffers.number buffer) →
      number < 1 ∨ min number guiBufferNumberMax = buffers.buffers.number buffer →
      NumberFree buffers.buffers (buffers.buffers.number buffer + 1)
  | .moveToNumber .. | .renumber .. => True

end

end Wirc

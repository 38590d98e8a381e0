import WhoreIrc.Impl.GuiInputComplete
import WhoreIrc.Spec.GuiInput

/-!
# Completion with one word after the other

A completion begins with a call where the cursor is not at its place; the next calls
go on with it. The text before and after the base word is expected to be kept, and
each call to put the next word of the list there, and the cursor after it.
-/

namespace Wirc

section

variable (completionEnv : GuiCompletionEnv) (buffer : GuiInput)

/-- The completion that begins in the input, with its base word and its words. -/
def guiCompletionStart : GuiCompletion :=
  guiCompletionContextList completionEnv
    { guiCompletionFindContext completionEnv buffer.text.1 buffer.inputBufferSize.toNat (guiInputRealPos buffer) with
      forcePartialCompletion := false }

/-- Two words or more match the base word, all nicks or all other words; there is no
partial completion, and the completion does not stop after the first nick. -/
structure CompletesWords (start : GuiCompletion) (nick : Bool) : Prop where
  context : start.context ≠ .null
  count : 2 ≤ start.list.length
  different : (start.list.map GuiCompletionWord.word).Nodup
  nicks : ∀ word ∈ start.list, word.nickCompletion = nick
  same : ∀ word ∈ start.list, guiCompletionMatches completionEnv.config start.baseWord nick word.word = true
  whole : guiCompletionPartial completionEnv.config start = false
  first : completionEnv.config.nickFirstOnly = false

/-- The base word and the words are made of characters: the text before the base word and
the words are valid UTF-8 strings. -/
structure CompletesChars (start : GuiCompletion) : Prop where
  before : utf8IsValid (buffer.text.1.take start.positionReplace.toNat) = none
  words : ∀ word ∈ start.list, utf8IsValid word.word = none ∧ 0 ∉ word.word

/-- A space is added after the words of the list. -/
def addsSpace (start : GuiCompletion) (nick : Bool) : Bool :=
  start.addSpace && !(nick && !completionEnv.config.nickAddSpace)

end

/-- The word of the list after a number of calls, at least one. -/
def completionWord (start : GuiCompletion) (calls : Nat) : Str :=
  ((start.list.map GuiCompletionWord.word)[(calls - 1) % start.list.length]?).getD []

/-- The text with a word between what is before and after the base word. -/
def completedText (before word after : Str) (space : Bool) : Str :=
  before ++ word ++ (if space ∧ after.head? ≠ some (ch ' ') then ch ' ' :: after else after)

section

variable (text : Str) (start : GuiCompletion) (space : Bool)

/-- The text after a number of calls. -/
def textAfterCalls : (calls : Nat) → Str
  | 0 => text
  | calls + 1 =>
    completedText (text.take start.positionReplace.toNat) (completionWord start (calls + 1))
      (text.drop (start.positionReplace.toNat + start.baseWord.length)) space

/-- The base word is in the text, the word is in its place, and the cursor is after it. -/
structure CompletedRight (calls : Nat) (buffer : GuiInput) : Prop where
  base : text = text.take start.positionReplace.toNat ++ start.baseWord ++
    text.drop (start.positionReplace.toNat + start.baseWord.length)
  text : buffer.text.1 = textAfterCalls text start space calls
  pos_nonneg : 0 ≤ buffer.inputBufferPos
  cursor : guiInputRealPos buffer =
    start.positionReplace.toNat + (completionWord start calls).length + (if space then 1 else 0)
  consistent : buffer.Consistent

/-- The word that is replaced by the next call. -/
def replacedWord : (calls : Nat) → Str
  | 0 => start.baseWord
  | calls + 1 => completionWord start (calls + 1)

/-- The next call reads the bytes in memory that are as far after the end of the text
as the new word is shorter than the word that it replaces. -/
def MoveFits (alloc : Int) (calls : Nat) : Prop :=
  (replacedWord start calls).length ≤ (completionWord start (calls + 1)).length ∨
    ((textAfterCalls text start space calls).length : Int) +
        ((replacedWord start calls).length - (completionWord start (calls + 1)).length) ≤
      if calls = 0 then alloc else inputAlloc (textAfterCalls text start space calls).length

end

/-- A number of calls of `gui_input_complete_next`. -/
def guiInputCompleteTimes (env : GuiInputEnv) (completionEnv : GuiCompletionEnv) :
    (calls : Nat) → GuiInput × GuiCompletion → Option (GuiInput × GuiCompletion)
  | 0, state => some state
  | calls + 1, state =>
    (guiInputCompleteTimes env completionEnv calls state).bind (guiInputCompleteNext env completionEnv false)

end Wirc

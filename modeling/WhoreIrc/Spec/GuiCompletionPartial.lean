import WhoreIrc.Framework.CommonStart
import WhoreIrc.Impl.GuiCompletion
import WhoreIrc.Spec.Utf8

/-!
# Partial completion

The words of a completion, as characters without case: what they have in common at
their beginning is the word found, and the list of the partial completions has an
item for each character that may come next (`PartialRight`).
-/

namespace Wirc

open Framework

/-- The items of the partial completions for what remains of the words: each is the
longest common beginning of those that begin with one character, with their number,
and there is one item for each character. -/
structure PartialItems (rests : List (List Str)) (items : List GuiCompletionWord) : Prop where
  item : ∀ item ∈ items, ∃ char, (lowerChars item.word).head? = some char ∧
    LongestCommon (lowerChars item.word) (rests.filter fun rest => rest.head? = some char) ∧
    item.count = ((rests.filter fun rest => rest.head? = some char).length : Int)
  one : ∀ rest ∈ rests, ∀ char, rest.head? = some char →
    (items.filter fun item => (lowerChars item.word).head? = some char).length = 1

/-- The words of a completion, as characters without case. -/
def completionChars (completion : GuiCompletion) : List (List Str) :=
  completion.list.map fun word => lowerChars word.word

/-- The word found is the longest common beginning of the words, with small letters,
and the partial completions are those of what remains of the words. -/
def PartialRight (before after : GuiCompletion) : Prop :=
  ∃ common, LongestCommon common (completionChars before) ∧ after.wordFound = some common.flatten ∧
    PartialItems ((completionChars before).map fun chars => chars.drop common.length) after.partialList

/-- The words in the direction of the completion. -/
def directedList (completion : GuiCompletion) : List GuiCompletionWord :=
  if completion.direction < 0 then completion.list.reverse else completion.list

/-- The completion stops at the common beginning, with the numbers of the items: they
are shown, the first word is not a nick that ends the completion, another word is
accepted as it is, and it has not less characters than the beginning has bytes. -/
def StopsAtCommon (config : GuiCompletionConfig) (completion : GuiCompletion) : Prop :=
  config.partialCompletionCount = true ∧
    ∃ word rest common, directedList completion = word :: rest ∧
      ¬ (word.nickCompletion = true ∧ config.nickFirstOnly = true) ∧
      (∃ other ∈ rest, guiCompletionMatches config completion.baseWord word.nickCompletion other.word = true) ∧
      LongestCommon common (completionChars completion) ∧ common.flatten.length ≤ utf8Strlen word.word

end Wirc

import WhoreIrc.Framework.SortedInsert
import WhoreIrc.Impl.StringMatch

/-!
# Completion of a word (`gui/gui-completion.c`)

The words that are found for the word to complete, one after the other or their
common prefix. An array of words is the list of its words, where `arraylist_add`
keeps no word that is the same without case. Allocations succeed; the bell and
the signals are left out.
-/

namespace Wirc

open Framework

/-- `struct t_gui_completion_word`. -/
structure GuiCompletionWord where
  word : Str
  nickCompletion : Bool
  count : Int
  deriving DecidableEq

inductive GuiCompletionContext
  | null | command | commandArg | auto
  deriving DecidableEq

/-- `struct t_gui_completion`. -/
structure GuiCompletion where
  context : GuiCompletionContext
  baseWord : Str
  baseWordPos : Int
  position : Int
  direction : Int
  addSpace : Bool
  forcePartialCompletion : Bool
  reversePartialCompletion : Bool
  list : List GuiCompletionWord
  wordFound : Option Str
  wordFoundIsNick : Bool
  positionReplace : Int
  diffSize : Int
  diffLength : Int
  partialList : List GuiCompletionWord

/-- The options of the completion. -/
structure GuiCompletionConfig where
  partialCompletionCommand : Bool
  partialCompletionCommandArg : Bool
  partialCompletionOther : Bool
  partialCompletionCount : Bool
  nickAddSpace : Bool
  nickFirstOnly : Bool
  nickCaseSensitive : Bool
  nickIgnoreChars : Str

/-! ## Words -/

/-- The first character, as the string `utf_char`. -/
def utfChar (string : Str) : Str := string.take (utf8CharSize string)

/-- `gui_completion_nick_has_ignored_chars`. -/
def guiCompletionNickHasIgnoredChars (ignoreChars string : Str) : Bool :=
  if _ : string = [] then false
  else (strstr ignoreChars (utfChar string)).isSome ||
    guiCompletionNickHasIgnoredChars ignoreChars (utf8NextChar string)
termination_by string.length
decreasing_by exact utf8NextChar_length_lt ‹_›

/-- `gui_completion_nick_strdup_ignore_chars`. -/
def guiCompletionNickStrdupIgnoreChars (ignoreChars string : Str) : Str :=
  if _ : string = [] then []
  else (if (strstr ignoreChars (utfChar string)).isSome then [] else utfChar string) ++
    guiCompletionNickStrdupIgnoreChars ignoreChars (utf8NextChar string)
termination_by string.length
decreasing_by exact utf8NextChar_length_lt ‹_›

/-- `strncmp`. -/
def strncmp (string1 string2 : Str) (max : Nat) : Int := strcmp (string1.take max) (string2.take max)

/-- The comparison for nicks, with case or without. -/
def guiCompletionNickCompare (config : GuiCompletionConfig) (baseWord nick : Str) (max : Nat) : Int :=
  if config.nickCaseSensitive then strncmp baseWord nick max else stringStrncasecmp baseWord nick max

/-- `gui_completion_nickncmp`. -/
def guiCompletionNickncmp (config : GuiCompletionConfig) (baseWord nick : Str) (max : Nat) : Int :=
  if config.nickIgnoreChars = [] ∨ baseWord = [] ∨ nick = [] ∨
      guiCompletionNickHasIgnoredChars config.nickIgnoreChars baseWord then
    guiCompletionNickCompare config baseWord nick max
  else
    let baseWord2 := guiCompletionNickStrdupIgnoreChars config.nickIgnoreChars baseWord
    let nick2 := guiCompletionNickStrdupIgnoreChars config.nickIgnoreChars nick
    guiCompletionNickCompare config baseWord2 nick2 (utf8Strlen baseWord2)

/-- The test of a word, with the comparison for nicks or for other words. -/
def guiCompletionMatches (config : GuiCompletionConfig) (baseWord : Str) (nickCompletion : Bool) (word : Str) : Bool :=
  if nickCompletion then guiCompletionNickncmp config baseWord word (utf8Strlen baseWord) = 0
  else stringStrncasecmp baseWord word (utf8Strlen baseWord) = 0

/-- `string_tolower`. -/
def stringTolower (string : Str) : Str :=
  match string with
  | [] => []
  | b :: s =>
    (if ch 'A' ≤ b && b ≤ ch 'Z' then b + 32 else b) :: s.take (utf8CharSize (b :: s) - 1) ++
      stringTolower (s.drop (utf8CharSize (b :: s) - 1))
termination_by string.length
decreasing_by
  rw [List.length_drop, List.length_cons]
  omega

/-! ## Partial completion -/

/-- The loop of `gui_completion_common_prefix_size` at the byte `pos` of the first item. -/
def guiCompletionCommonPrefixLoop (first : Str) (others : List Str) (pos : Nat) : Nat :=
  if _ : first.drop pos = [] then pos
  else if others.any fun word => word.drop pos = [] || utf8Charcasecmp (first.drop pos) (word.drop pos) ≠ 0 then pos
  else guiCompletionCommonPrefixLoop first others (pos + utf8CharSize (first.drop pos))
termination_by first.length - pos
decreasing_by
  have hsize := utf8CharSize_pos (first.drop pos)
  have hpos := List.length_pos_of_ne_nil ‹¬ first.drop pos = []›
  rw [List.length_drop] at hpos
  omega

/-- `gui_completion_common_prefix_size`, of a list that is not empty: the words that
do not begin with `utf_char` are ignored, but for the first one. -/
def guiCompletionCommonPrefixSize (list : List GuiCompletionWord) (utfChar : Option Str) : Nat :=
  match list.map GuiCompletionWord.word with
  | [] => 0
  | first :: others =>
    guiCompletionCommonPrefixLoop first
      (others.filter fun word => utfChar.all fun utfChar => utf8Charcasecmp utfChar word = 0) 0

/-- `arraylist_add`, in a list of words with no duplicates. -/
def guiCompletionArraylistAdd (sorted : Bool) (list : List GuiCompletionWord) (word : GuiCompletionWord) :
    List GuiCompletionWord :=
  let list := list.filter fun other => stringStrcasecmp other.word word.word ≠ 0
  if sorted then insertBefore (fun other => stringStrcasecmp word.word other.word < 0) word list else list ++ [word]

/-- `gui_completion_partial_list_add`. -/
def guiCompletionPartialListAdd (partialList : List GuiCompletionWord) (word : Str) (count : Int) :
    List GuiCompletionWord :=
  guiCompletionArraylistAdd false partialList ⟨word, false, count⟩

theorem utf8WideChar_utfChar (string : Str) : utf8WideChar (utfChar string) = utf8WideChar string := by
  have hsize : utf8CharSize (utfChar string) = utf8CharSize string := by
    cases string with
    | nil => rfl
    | cons b s =>
      obtain ⟨n, hn⟩ : ∃ n, utf8CharSize (b :: s) = n + 1 := ⟨_, (Nat.succ_pred (utf8CharSize_pos _).ne').symm⟩
      rw [utfChar, hn, List.take_succ_cons, utf8CharSize, List.length_take]
      rw [utf8CharSize] at hn
      omega
  unfold utf8WideChar
  rw [hsize, utfChar]
  generalize utf8CharSize string = n
  rcases string with _ | ⟨b0, _ | ⟨b1, _ | ⟨b2, _ | ⟨b3, s⟩⟩⟩⟩ <;> rcases n with _ | _ | _ | _ | _ | n <;> rfl

theorem utf8Charcasecmp_utfChar (string : Str) : utf8Charcasecmp (utfChar string) string = 0 := by
  rw [utf8Charcasecmp, utf8WideChar_utfChar]
  simp

/-- The words that do not begin with the character of the first word. -/
def guiCompletionOtherChar (list : List GuiCompletionWord) (utfChar : Str) : List GuiCompletionWord :=
  list.filter fun other => utf8Charcasecmp utfChar other.word ≠ 0

theorem guiCompletionOtherChar_length_lt (first : GuiCompletionWord) (rest : List GuiCompletionWord) :
    (guiCompletionOtherChar (first :: rest) (utfChar first.word)).length < (first :: rest).length := by
  rw [guiCompletionOtherChar, List.filter_cons_of_neg (by simp [utf8Charcasecmp_utfChar]), List.length_cons]
  exact Nat.lt_succ_of_le (List.length_filter_le ..)

/-- `while (list_temp->size > 0)` in `gui_completion_partial_build_list`. -/
def guiCompletionPartialLoop (config : GuiCompletionConfig) (partialList : List GuiCompletionWord) :
    (listTemp : List GuiCompletionWord) → List GuiCompletionWord
  | [] => partialList
  | first :: rest =>
    let char := utfChar first.word
    let commonPrefixSize := guiCompletionCommonPrefixSize (first :: rest) (some char)
    let listTemp := guiCompletionOtherChar (first :: rest) char
    let itemsCount := (first :: rest).length - listTemp.length
    let partialList :=
      if commonPrefixSize > 0 then
        guiCompletionPartialListAdd partialList (strndup first.word commonPrefixSize)
          (if config.partialCompletionCount then itemsCount else -1)
      else partialList
    guiCompletionPartialLoop config partialList listTemp
termination_by listTemp => listTemp.length
decreasing_by
  exact guiCompletionOtherChar_length_lt first rest

/-- `gui_completion_partial_build_list`. -/
def guiCompletionPartialBuildList (config : GuiCompletionConfig) (list : List GuiCompletionWord)
    (commonPrefixSize : Nat) : List GuiCompletionWord :=
  guiCompletionPartialLoop config []
    (list.foldl (fun listTemp word =>
      guiCompletionArraylistAdd true listTemp ⟨word.word.drop commonPrefixSize, false, 0⟩) [])

/-! ## Completion -/

/-- `gui_completion_stop`. -/
def guiCompletionStop (completion : GuiCompletion) : GuiCompletion :=
  { completion with context := .null, position := -1, partialList := [] }

/-- The value of `partial_completion`. -/
def guiCompletionPartial (config : GuiCompletionConfig) (completion : GuiCompletion) : Bool :=
  let partialCompletion :=
    completion.forcePartialCompletion ||
      match completion.context with
      | .command => config.partialCompletionCommand
      | .commandArg => config.partialCompletionCommandArg
      | _ => config.partialCompletionOther
  partialCompletion ^^ completion.reversePartialCompletion

/-- The common prefix size of `gui_completion_complete`. -/
def guiCompletionPrefixSize (config : GuiCompletionConfig) (completion : GuiCompletion) : Nat :=
  if guiCompletionPartial config completion ∧ completion.list ≠ [] then
    guiCompletionCommonPrefixSize completion.list none
  else 0

/-- A word is found: `rest` are the words after it. -/
def guiCompletionFound (config : GuiCompletionConfig) (completion : GuiCompletion) (otherCompletion : Nat)
    (word : GuiCompletionWord) (rest : List GuiCompletionWord) : GuiCompletion :=
  let completion :=
    { completion with
      wordFound := some word.word
      wordFoundIsNick := word.nickCompletion
      addSpace := if word.nickCompletion && !config.nickAddSpace then false else completion.addSpace }
  -- stop after first nick if user asked that
  if word.nickCompletion && config.nickFirstOnly then guiCompletionStop completion
  else
    let otherCompletion := otherCompletion +
      rest.countP fun word2 => guiCompletionMatches config completion.baseWord word.nickCompletion word2.word
    let completion :=
      { completion with
        position := if otherCompletion = 0 then -1 else if completion.position < 0 then 0 else completion.position }
    let commonPrefixSize := guiCompletionPrefixSize config completion
    -- stop after common prefix, if asked by user
    if guiCompletionPartial config completion ∧ utf8Strlen word.word ≥ commonPrefixSize ∧ otherCompletion > 0 then
      { completion with
        wordFound := some (stringTolower (word.word.take commonPrefixSize))
        wordFoundIsNick := false
        addSpace := false
        position := -1
        partialList := guiCompletionPartialBuildList config completion.list commonPrefixSize }
    else { completion with partialList := [] }

/-- The loop of `gui_completion_complete` over the words, in its direction; `none` if
no word is found. -/
def guiCompletionLoop (config : GuiCompletionConfig) (completion : GuiCompletion) :
    (wordFoundSeen : Bool) → (otherCompletion : Nat) → List GuiCompletionWord → Option GuiCompletion
  | _, _, [] => none
  | wordFoundSeen, otherCompletion, word :: rest =>
    let seen := wordFoundSeen || completion.wordFound = some word.word
    if guiCompletionMatches config completion.baseWord word.nickCompletion word.word then
      if completion.wordFound = none ∨ wordFoundSeen then
        some (guiCompletionFound config completion otherCompletion word rest)
      else guiCompletionLoop config completion seen (otherCompletion + 1) rest
    else guiCompletionLoop config completion seen otherCompletion rest

/-- `gui_completion_complete`, up to its call of itself. -/
def guiCompletionCompleteOnce (config : GuiCompletionConfig) (completion : GuiCompletion) : Option GuiCompletion :=
  if guiCompletionPartial config completion ∧
      completion.wordFound.any fun wordFound => utf8Strlen wordFound ≥ guiCompletionPrefixSize config completion then
    some completion
  else
    guiCompletionLoop config completion false 0
      (if completion.direction < 0 then completion.list.reverse else completion.list)

/-- `gui_completion_complete`: it calls itself without a word found, and then not again. -/
def guiCompletionComplete (config : GuiCompletionConfig) (completion : GuiCompletion) : GuiCompletion :=
  match guiCompletionCompleteOnce config completion with
  | some completion => completion
  | none =>
    -- complete again, starting from first matching item
    if completion.wordFound.isSome ∧ completion.position ≥ 0 then
      let completion := { completion with wordFound := none, wordFoundIsNick := false }
      (guiCompletionCompleteOnce config completion).getD completion
    else completion

end Wirc

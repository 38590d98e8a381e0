import WhoreIrc.Proof.GuiInputComplete
import WhoreIrc.Proof.StringChars

/-!
# Calls that complete with one word after the other

A call goes on with the completion when the cursor is at its place. The first call
finds the first word (`search_first`), a call after it the next one (`search_next`);
it puts the word in the place of the last one if there is room (`next_room`), and
else it reads outside of the memory (`next_outside`).
-/

namespace Wirc

section

variable {env : GuiInputEnv} {completionEnv : GuiCompletionEnv} {buffer : GuiInput} {start completion : GuiCompletion}
  {nick space : Bool}

/-! ## Words that are found -/

theorem completionWord_eq {calls : Nat} {word : GuiCompletionWord}
    (h : start.list[(calls - 1) % start.list.length]? = some word) : completionWord start calls = word.word := by
  rw [completionWord, List.getElem?_map, h]
  rfl

theorem CompletesWords.wordsMatch (h : CompletesWords completionEnv start nick) (hlist : completion.list = start.list)
    (hbase : completion.baseWord = start.baseWord)
    (hwhole : guiCompletionPartial completionEnv.config completion = guiCompletionPartial completionEnv.config start)
    (hdirection : 0 ≤ completion.direction) : WordsMatch completionEnv.config nick completion where
  nicks := hlist ▸ h.nicks
  same := by
    rw [hlist, hbase]
    exact h.same
  whole := hwhole.trans h.whole
  first := h.first
  direction := Int.not_lt.mpr hdirection

/-- The fields of the completion that begins. -/
theorem start_fields (hpos : guiInputRealPos buffer ≤ buffer.text.1.length)
    (hsize : buffer.inputBufferSize.toNat = buffer.text.1.length) :
    ∃ first stop, BaseWordAt buffer.text.1 (guiInputRealPos buffer) first stop (guiCompletionStart completionEnv buffer) ∧
      (guiCompletionStart completionEnv buffer).position = -1 ∧ (guiCompletionStart completionEnv buffer).direction = 0 ∧
      (guiCompletionStart completionEnv buffer).wordFound = none := by
  obtain ⟨first, stop, hat, hposition, hdirection, hfound⟩ := findContext_at completionEnv hpos
  have hsame := contextList_same completionEnv { guiCompletionFindContext completionEnv buffer.text.1
    buffer.text.1.length (guiInputRealPos buffer) with forcePartialCompletion := false }
  refine ⟨first, stop, ?_⟩
  rw [guiCompletionStart, hsize]
  exact ⟨⟨hat.le, hat.stop_le, hat.ends, hsame.place.trans hat.place, hsame.baseWord.trans hat.baseWord⟩,
    hsame.position.trans hposition, hsame.direction.trans hdirection, hsame.wordFound.trans hfound⟩

/-- The word found is put in the completion, with what it replaces. -/
theorem found_at (hspace : space = (completion.addSpace && !(nick && !completionEnv.config.nickAddSpace))) (word old : Str) :
    { completionFound completionEnv.config nick completion word with
      diffSize := (word.length : Int) - old.length
      diffLength := (utf8Strlen word : Int) - utf8Strlen old } =
      completionAt completion nick space word old (max completion.position 0) completion.direction := by
  rw [hspace]
  rfl

theorem contextList_null (h : completion.context = .null) : guiCompletionContextList completionEnv completion = completion := by
  rw [guiCompletionContextList, h]

/-- A search that finds a word, after the completion that begins or goes on. -/
theorem search_found {data : Str} {size pos : Nat} {going listed : GuiCompletion} {word : Str}
    (hgoing : (if (pos : Int) ≠ completion.position then
      { guiCompletionFindContext completionEnv data size pos with forcePartialCompletion := false }
      else { completion with direction := 1 }) = going)
    (hcontext : going.context ≠ .null) (hlisted : guiCompletionContextList completionEnv going = listed)
    (hspace : space = (listed.addSpace && !(nick && !completionEnv.config.nickAddSpace)))
    (hcomplete : guiCompletionComplete completionEnv.config listed = completionFound completionEnv.config nick listed word) :
    guiCompletionSearch completionEnv data size pos completion 1 =
      completionAt listed nick space word (going.wordFound.getD listed.baseWord) (max listed.position 0) listed.direction := by
  have hat := found_at hspace word (going.wordFound.getD listed.baseWord)
  rw [← hat, guiCompletionSearch]
  show (if _ then _ else _) = _
  have hdecide : decide ((1 : Int) < 0) = false := rfl
  dsimp only
  rw [hdecide, hgoing, if_neg hcontext, hlisted, hcomplete]
  rfl

/-- The first call finds the first word. -/
theorem search_first (hstart : start = guiCompletionStart completionEnv buffer)
    (hwords : CompletesWords completionEnv start nick) (hdirection : 0 ≤ start.direction)
    (hfound : start.wordFound = none) (hnew : completion.position ≠ guiInputRealPos buffer) :
    guiCompletionSearch completionEnv buffer.text.1 buffer.inputBufferSize.toNat (guiInputRealPos buffer) completion 1 =
      completionAt start nick (addsSpace completionEnv start nick) (completionWord start 1) start.baseWord
        (max start.position 0) start.direction := by
  obtain ⟨word, hword, hcomplete⟩ := complete_new (hwords.wordsMatch rfl rfl rfl hdirection) hfound hwords.count
  have hfirst : completionWord start 1 = word.word := completionWord_eq (by rw [Nat.sub_self, Nat.zero_mod, hword])
  have hsame := contextList_same completionEnv { guiCompletionFindContext completionEnv buffer.text.1
    buffer.inputBufferSize.toNat (guiInputRealPos buffer) with forcePartialCompletion := false }
  rw [hfirst, search_found (if_pos hnew.symm) ?_ hstart.symm rfl hcomplete]
  · rw [← hsame.wordFound, ← guiCompletionStart, ← hstart, hfound, Option.getD_none]
    rfl
  · intro hnull
    refine hwords.context ?_
    rw [hstart, guiCompletionStart, contextList_null hnull]
    exact hnull

/-- A call that goes on finds the next word. -/
theorem search_next (hwords : CompletesWords completionEnv start nick) {calls : Nat} (hcalls : 1 ≤ calls) {old : Str}
    {direction : Int} (data : Str) (size pos : Nat) :
    guiCompletionSearch completionEnv data size pos
        (completionAt start nick (addsSpace completionEnv start nick) (completionWord start calls) old pos direction) 1 =
      completionAt start nick (addsSpace completionEnv start nick) (completionWord start (calls + 1))
        (completionWord start calls) pos 1 := by
  have hcount := hwords.count
  have hlt : (calls - 1) % start.list.length < start.list.length := Nat.mod_lt _ (by omega)
  have hlast : completionWord start calls = (start.list[(calls - 1) % start.list.length]).word :=
    completionWord_eq (List.getElem?_eq_getElem hlt)
  let going := { completionAt start nick (addsSpace completionEnv start nick) (completionWord start calls) old pos direction
    with direction := 1 }
  have hmatch : WordsMatch completionEnv.config nick going := hwords.wordsMatch rfl rfl rfl Int.one_nonneg
  obtain ⟨word, hword, hcomplete⟩ := complete_next hmatch hwords.count hwords.different (Int.natCast_nonneg pos) hlt
    (congrArg some hlast)
  have hnext : completionWord start (calls + 1) = word.word := by
    refine completionWord_eq ?_
    rw [← hword]
    show _ = start.list[((calls - 1) % start.list.length + 1) % start.list.length]?
    rw [Nat.mod_add_mod, Nat.sub_add_cancel hcalls, Nat.add_sub_cancel]
  have hlist : start.list ≠ [] := List.ne_nil_of_length_pos (by omega)
  have hspace : addsSpace completionEnv start nick = (going.addSpace && !(nick && !completionEnv.config.nickAddSpace)) := by
    show _ = (addsSpace completionEnv start nick && _)
    rw [addsSpace, Bool.and_assoc, Bool.and_self]
  have hmax : max (pos : Int) 0 = pos := Int.max_eq_left (Int.natCast_nonneg pos)
  have hlisted : guiCompletionContextList completionEnv going = going := contextList_keeps completionEnv hlist
  have hcontext : going.context ≠ .null := hwords.context
  have hsearch := @search_found completionEnv (completionAt start nick (addsSpace completionEnv start nick)
    (completionWord start calls) old pos direction) nick _ data size pos going going word.word (if_neg (not_not.mpr rfl))
    hcontext hlisted hspace hcomplete
  rw [hnext]
  refine hsearch.trans ?_
  show completionAt _ _ _ _ _ (max (pos : Int) 0) _ = _
  rw [hmax]
  rfl

/-! ## A call -/

/-- The modifiers change nothing: the input is as it was. -/
theorem textChanged_same (hmodifier : ∀ text, ∀ new ∈ env.modifier text, new = text) (buffer : GuiInput) :
    ∃ buffer', guiInputTextChangedModifierAndSignal env buffer true = some buffer' ∧ buffer.SameInput buffer' := by
  rw [guiInputTextChangedModifierAndSignal]
  split
  · exact ⟨buffer, rfl, .refl buffer⟩
  · refine ⟨guiBufferUndoAdd env buffer, ?_, undoAdd_sameInput buffer⟩
    rw [if_pos rfl, guiInputModifierExec]
    split
    · rename_i newInput hnew
      rw [hmodifier _ newInput hnew, if_neg (not_not.mpr rfl)]
    · rfl

variable {before old word after : Str} {position direction : Int}

/-- The word found is put in the place of the last one, when there is room. -/
theorem next_room (hmodifier : ∀ text, ∀ new ∈ env.modifier text, new = text) (hinput : buffer.input = true)
    (hat : InputAt before old after buffer) (hplace : start.positionReplace = before.length)
    (hsearch : guiCompletionSearch completionEnv buffer.text.1 buffer.inputBufferSize.toNat (guiInputRealPos buffer)
      completion 1 = completionAt start nick space word old position direction)
    (hvalid : utf8IsValid word = none) (hzero : 0 ∉ word) (hposition : 0 ≤ position) (hroom : RoomFor buffer old word) :
    ∃ state, guiInputCompleteNext env completionEnv false (buffer, completion) = some state ∧
      CompletedWith start nick space before word after state := by
  have hsnap : buffer.SameInput (guiBufferUndoSnap env buffer) := ⟨rfl, rfl, rfl, rfl, rfl, rfl⟩
  obtain ⟨⟨buffer', completion'⟩, hcomplete, hwith⟩ :=
    @complete_at env _ start nick space _ _ _ _ position direction (hat.same hsnap) hplace hvalid hzero hposition hroom
  obtain ⟨buffer'', hchanged, hsame⟩ := textChanged_same hmodifier buffer'
  obtain ⟨replaced, direction', hcompletion⟩ := hwith.completion
  refine ⟨(buffer'', completion'), ?_, hwith.input.same hsame, hsame.alloc.trans hwith.alloc,
    (realPos_same hsame).trans hwith.cursor, replaced, direction', ?_⟩
  · rw [guiInputCompleteNext, if_pos ⟨hinput, rfl⟩]
    show (guiInputComplete env (guiBufferUndoSnap env buffer) (guiCompletionSearch completionEnv buffer.text.1
      buffer.inputBufferSize.toNat (guiInputRealPos buffer) completion 1)).bind _ = _
    rw [hsearch, hcomplete]
    dsimp only [Option.bind_some, Option.bind_eq_bind]
    rw [hchanged]
    rfl
  · rw [hcompletion]
    exact congrArg (fun pos : Nat => completionAt start nick space word replaced pos direction') (realPos_same hsame).symm

/-- Without room, the call reads outside of the memory. -/
theorem next_outside (hinput : buffer.input = true) (hat : InputAt before old after buffer)
    (hplace : start.positionReplace = before.length)
    (hsearch : guiCompletionSearch completionEnv buffer.text.1 buffer.inputBufferSize.toNat (guiInputRealPos buffer)
      completion 1 = completionAt start nick space word old position direction)
    (hvalid : utf8IsValid word = none) (hroom : ¬ RoomFor buffer old word) :
    guiInputCompleteNext env completionEnv false (buffer, completion) = none := by
  have hsnap : buffer.SameInput (guiBufferUndoSnap env buffer) := ⟨rfl, rfl, rfl, rfl, rfl, rfl⟩
  rw [guiInputCompleteNext, if_pos ⟨hinput, rfl⟩]
  show (guiInputComplete env (guiBufferUndoSnap env buffer) (guiCompletionSearch completionEnv buffer.text.1
    buffer.inputBufferSize.toNat (guiInputRealPos buffer) completion 1)).bind _ = _
  rw [hsearch, complete_outside (hat.same hsnap) hplace hvalid hroom]
  rfl

/-! ## The base word in the input -/

/-- The input is characters before the base word, those of the base word and those after it. -/
theorem base_at (hinput : buffer.input = true) (hconsistent : buffer.Consistent) {first stop : Nat}
    (hat : BaseWordAt buffer.text.1 (guiInputRealPos buffer) first stop start)
    (hbefore : utf8IsValid (buffer.text.1.take first) = none) :
    InputAt (buffer.text.1.take first) start.baseWord (buffer.text.1.drop (first + start.baseWord.length)) buffer := by
  obtain ⟨chars, hchars⟩ := hconsistent.exists_chars hinput
  have hle := hat.le
  have hstop := hat.stop_le
  have hlength : start.baseWord.length = stop - first := by
    rw [hat.baseWord, List.length_take, List.length_drop]
    omega
  have hdrop : buffer.text.1.drop first = start.baseWord ++ buffer.text.1.drop stop := by
    rw [hat.baseWord, ← Nat.add_sub_cancel' hle, ← List.drop_drop, Nat.add_sub_cancel_left, List.take_append_drop]
  have htext : buffer.text.1 = buffer.text.1.take first ++ (start.baseWord ++ buffer.text.1.drop stop) := by
    rw [← hdrop, List.take_append_drop]
  have hrest : utf8IsValid (start.baseWord ++ buffer.text.1.drop stop) = none :=
    valid_after (htext ▸ hconsistent.valid) hbefore
  have hbase : utf8IsValid start.baseWord = none := by
    rcases hat.ends with rfl | rfl | ⟨rest, hspace⟩
    · -- the word ends at the cursor
      have hcursor : buffer.text.1.take (guiInputRealPos buffer) = (chars.take buffer.inputBufferPos.toNat).flatten := by
        rw [guiInputRealPos, hchars.text, utf8RealPos_flatten hchars.valid, sizeOfFirst]
        conv_lhs => rw [← List.take_append_drop buffer.inputBufferPos.toNat chars, List.flatten_append]
        rw [List.take_append_drop, List.take_left]
      have hvalid : utf8IsValid (buffer.text.1.take (guiInputRealPos buffer)) = none := by
        rw [hcursor]
        exact utf8IsValid_flatten fun c hc => hchars.valid c (List.mem_of_mem_take hc)
      have hsplit : buffer.text.1.take (guiInputRealPos buffer) = buffer.text.1.take first ++ start.baseWord := by
        rw [hat.baseWord, ← List.take_add, Nat.add_sub_cancel' hle]
      exact valid_after (hsplit ▸ hvalid) hbefore
    · rwa [List.drop_length, List.append_nil] at hrest
    · exact valid_before_ascii (hspace ▸ hrest) (by decide)
  have hafter : utf8IsValid (buffer.text.1.drop stop) = none := valid_after hrest hbase
  obtain ⟨pre, hpre, hpre'⟩ := exists_chars_of_valid hbefore
  obtain ⟨mid, hmid, hmid'⟩ := exists_chars_of_valid hbase
  obtain ⟨post, hpost, hpost'⟩ := exists_chars_of_valid hafter
  have hall : ∀ c ∈ pre ++ mid ++ post, IsValidChar c := by
    intro c hc
    rw [List.mem_append, List.mem_append] at hc
    rcases hc with (hc | hc) | hc
    · exact hpre c hc
    · exact hmid c hc
    · exact hpost c hc
  have hsame : chars = pre ++ mid ++ post := by
    rw [← utf8Chars_flatten hchars.valid, ← utf8Chars_flatten hall, ← hchars.text, List.flatten_append, List.flatten_append,
      ← hpre', ← hmid', ← hpost', List.append_assoc, ← htext]
  refine ⟨pre, mid, post, hsame ▸ hchars, hpre'.symm, hmid'.symm, ?_⟩
  rw [← hpost', hlength, Nat.add_sub_cancel' hle]

/-! ## Calls one after the other -/

theorem completionWord_mem (hcount : 2 ≤ start.list.length) (calls : Nat) :
    ∃ word ∈ start.list, completionWord start calls = word.word := by
  have hlt : (calls - 1) % start.list.length < start.list.length := Nat.mod_lt _ (by omega)
  exact ⟨_, List.getElem_mem hlt, completionWord_eq (List.getElem?_eq_getElem hlt)⟩

/-- A space that is there is not added again. -/
theorem CompletedWith.again {state : GuiInput × GuiCompletion}
    (h : CompletedWith start nick space before word (spacedAfter space after) state) :
    CompletedWith start nick space before word after state where
  input := by
    rw [← spacedAfter_again]
    exact h.input
  alloc := by
    rw [← spacedAfter_again]
    exact h.alloc
  cursor := h.cursor
  completion := h.completion

/-- What is known of the first call, for the calls after it. -/
structure CompletionBegins (env : GuiInputEnv) (completionEnv : GuiCompletionEnv) (buffer : GuiInput)
    (completion start : GuiCompletion) (nick : Bool) (before after : Str) : Prop where
  modifier : ∀ text, ∀ new ∈ env.modifier text, new = text
  input : buffer.input = true
  at_start : InputAt before start.baseWord after buffer
  place : start.positionReplace = before.length
  words : CompletesWords completionEnv start nick
  valid : ∀ word ∈ start.list, utf8IsValid word.word = none ∧ 0 ∉ word.word
  search : guiCompletionSearch completionEnv buffer.text.1 buffer.inputBufferSize.toNat (guiInputRealPos buffer) completion 1 =
    completionAt start nick (addsSpace completionEnv start nick) (completionWord start 1) start.baseWord
      (max start.position 0) start.direction

section

variable (h : CompletionBegins env completionEnv buffer completion start nick before after)
include h

theorem CompletionBegins.text_eq : buffer.text.1.take start.positionReplace.toNat = before ∧
    buffer.text.1.drop (start.positionReplace.toNat + start.baseWord.length) = after := by
  rw [h.at_start.text, h.place, Int.toNat_natCast, List.append_assoc, List.take_left, ← List.drop_drop, List.drop_left,
    List.drop_left]
  exact ⟨rfl, rfl⟩

theorem CompletionBegins.textAfter (calls : Nat) : textAfterCalls buffer.text.1 start space (calls + 1) =
    before ++ completionWord start (calls + 1) ++ spacedAfter space after := by
  rw [textAfterCalls, h.text_eq.1, h.text_eq.2]
  rfl

/-- There is room for the next word. -/
theorem CompletionBegins.room_next {calls : Nat} {state : GuiInput × GuiCompletion} {alloc : Int}
    (hwith : CompletedWith start nick space before (completionWord start (calls + 1)) after state) :
    RoomFor state.1 (completionWord start (calls + 1)) (completionWord start (calls + 2)) ↔
      MoveFits buffer.text.1 start space alloc (calls + 1) := by
  rw [RoomFor, MoveFits, if_neg (Nat.succ_ne_zero calls), h.textAfter calls, hwith.input.text, hwith.alloc]
  rfl

theorem CompletionBegins.word_valid (calls : Nat) :
    utf8IsValid (completionWord start calls) = none ∧ 0 ∉ completionWord start calls := by
  obtain ⟨word, hmem, heq⟩ := completionWord_mem h.words.count calls
  rw [heq]
  exact h.valid word hmem

/-- The first call. -/
theorem CompletionBegins.first_call :
    (MoveFits buffer.text.1 start (addsSpace completionEnv start nick) buffer.inputBufferAlloc 0 →
      ∃ state, guiInputCompleteTimes env completionEnv 1 (buffer, completion) = some state ∧
        CompletedWith start nick (addsSpace completionEnv start nick) before (completionWord start 1) after state) ∧
    (¬ MoveFits buffer.text.1 start (addsSpace completionEnv start nick) buffer.inputBufferAlloc 0 →
      guiInputCompleteTimes env completionEnv 1 (buffer, completion) = none) := by
  obtain ⟨hvalid, hzero⟩ := h.word_valid 1
  exact ⟨next_room h.modifier h.input h.at_start h.place h.search hvalid hzero (by omega),
    next_outside h.input h.at_start h.place h.search hvalid⟩

/-- A call after some calls. -/
theorem CompletionBegins.next_call {calls : Nat} {state : GuiInput × GuiCompletion}
    (hwith : CompletedWith start nick (addsSpace completionEnv start nick) before (completionWord start (calls + 1)) after
      state) :
    (MoveFits buffer.text.1 start (addsSpace completionEnv start nick) buffer.inputBufferAlloc (calls + 1) →
      ∃ state', guiInputCompleteNext env completionEnv false state = some state' ∧
        CompletedWith start nick (addsSpace completionEnv start nick) before (completionWord start (calls + 2)) after state') ∧
    (¬ MoveFits buffer.text.1 start (addsSpace completionEnv start nick) buffer.inputBufferAlloc (calls + 1) →
      guiInputCompleteNext env completionEnv false state = none) := by
  obtain ⟨hvalid, hzero⟩ := h.word_valid (calls + 2)
  obtain ⟨old, direction, hcompletion⟩ := hwith.completion
  have hinput : state.1.input = true := by
    obtain ⟨_, _, _, hchars, -⟩ := hwith.input
    exact hchars.input
  have hsearch := @search_next completionEnv start nick h.words (calls + 1) (Nat.succ_pos calls) old direction
    state.1.text.1 state.1.inputBufferSize.toNat (guiInputRealPos state.1)
  rw [← hcompletion] at hsearch
  rw [← h.room_next hwith]
  refine ⟨fun hroom => ?_, next_outside hinput hwith.input h.place hsearch hvalid⟩
  obtain ⟨state', hnext, hwith'⟩ := next_room h.modifier hinput hwith.input h.place hsearch hvalid hzero
    (Int.natCast_nonneg _) hroom
  exact ⟨state', hnext, hwith'.again⟩

/-- The calls, when there is room for all words. -/
theorem CompletionBegins.calls_room (calls : Nat)
    (hfits : ∀ i < calls + 1, MoveFits buffer.text.1 start (addsSpace completionEnv start nick) buffer.inputBufferAlloc i) :
    ∃ state, guiInputCompleteTimes env completionEnv (calls + 1) (buffer, completion) = some state ∧
      CompletedWith start nick (addsSpace completionEnv start nick) before (completionWord start (calls + 1)) after state := by
  induction calls with
  | zero => exact h.first_call.1 (hfits 0 Nat.one_pos)
  | succ calls ih =>
    obtain ⟨state, htimes, hwith⟩ := ih fun i hi => hfits i (Nat.lt_succ_of_lt hi)
    obtain ⟨state', hnext, hwith'⟩ := (h.next_call hwith).1 (hfits (calls + 1) (Nat.lt_succ_self _))
    exact ⟨state', by rw [guiInputCompleteTimes, htimes]; exact hnext, hwith'⟩

/-- Calls that read in the memory only have room for all words. -/
theorem CompletionBegins.room_of_calls (calls : Nat) {state : GuiInput × GuiCompletion}
    (htimes : guiInputCompleteTimes env completionEnv (calls + 1) (buffer, completion) = some state) :
    ∀ i < calls + 1, MoveFits buffer.text.1 start (addsSpace completionEnv start nick) buffer.inputBufferAlloc i := by
  induction calls generalizing state with
  | zero =>
    intro i hi
    obtain rfl := Nat.lt_one_iff.mp hi
    by_contra hnot
    rw [h.first_call.2 hnot] at htimes
    cases htimes
  | succ calls ih =>
    cases hbefore : guiInputCompleteTimes env completionEnv (calls + 1) (buffer, completion) with
    | none =>
      rw [guiInputCompleteTimes, hbefore] at htimes
      cases htimes
    | some state' =>
      have hfits := ih hbefore
      intro i hi
      obtain hi | rfl := Nat.lt_succ_iff_lt_or_eq.mp hi
      · exact hfits i hi
      · obtain ⟨state'', htimes', hwith⟩ := h.calls_room calls hfits
        obtain rfl : state'' = state' := Option.some.inj (htimes'.symm.trans hbefore)
        by_contra hnot
        rw [guiInputCompleteTimes, hbefore] at htimes
        rw [show (some state'').bind (guiInputCompleteNext env completionEnv false) =
          guiInputCompleteNext env completionEnv false state'' from rfl, (h.next_call hwith).2 hnot] at htimes
        cases htimes

/-- The input after the calls. -/
theorem CompletionBegins.right {calls : Nat} {state : GuiInput × GuiCompletion}
    (hwith : CompletedWith start nick space before (completionWord start (calls + 1)) after state) :
    CompletedRight buffer.text.1 start space (calls + 1) state.1 := by
  obtain ⟨pre, mid, post, hchars, hbefore, hword, hafter⟩ := hwith.input
  refine ⟨?_, ?_, hchars.pos_nonneg, ?_, hchars.consistent⟩
  · rw [h.text_eq.1, h.text_eq.2]
    exact h.at_start.text
  · rw [h.textAfter calls]
    exact hwith.input.text
  · rw [hwith.cursor, h.place, Int.toNat_natCast]

end

theorem completion_begins (hinput : buffer.input = true) (hconsistent : buffer.Consistent)
    (hmodifier : ∀ text, ∀ new ∈ env.modifier text, new = text) (hnew : completion.position ≠ guiInputRealPos buffer)
    (hwords : CompletesWords completionEnv (guiCompletionStart completionEnv buffer) nick)
    (hchars : CompletesChars buffer (guiCompletionStart completionEnv buffer)) :
    ∃ before after, CompletionBegins env completionEnv buffer completion (guiCompletionStart completionEnv buffer) nick
      before after := by
  obtain ⟨chars, htext⟩ := hconsistent.exists_chars hinput
  have hpos : guiInputRealPos buffer ≤ buffer.text.1.length := by
    have hsplit := congrArg (fun l => l.flatten.length) (List.take_append_drop buffer.inputBufferPos.toNat chars)
    rw [List.flatten_append, List.length_append] at hsplit
    rw [guiInputRealPos, htext.text, utf8RealPos_flatten htext.valid, sizeOfFirst]
    omega
  have hsize : buffer.inputBufferSize.toNat = buffer.text.1.length := by rw [hconsistent.size, Int.toNat_natCast]
  obtain ⟨first, stop, hat, hposition, hdirection, hfound⟩ := @start_fields completionEnv buffer hpos hsize
  have hbefore := hchars.before
  rw [hat.place, Int.toNat_natCast] at hbefore
  have hle : first ≤ buffer.text.1.length := hat.le.trans hat.stop_le
  exact ⟨_, _, ⟨hmodifier, hinput, base_at hinput hconsistent hat hbefore, by rw [hat.place, List.length_take_of_le hle], hwords,
      hchars.words, search_first rfl hwords (by omega) hfound hnew⟩⟩

/-- The calls put the words of the completion in the place of the base word, one after the
other, exactly when no call reads outside of the memory: each new word is as long as the last
one, or the memory has as many bytes after the text as it is shorter. -/
theorem completeTimes_right (hinput : buffer.input = true) (hconsistent : buffer.Consistent)
    (hmodifier : ∀ text, ∀ new ∈ env.modifier text, new = text) (hnew : completion.position ≠ guiInputRealPos buffer)
    (hwords : CompletesWords completionEnv (guiCompletionStart completionEnv buffer) nick)
    (hchars : CompletesChars buffer (guiCompletionStart completionEnv buffer)) (calls : Nat) (hcalls : 1 ≤ calls) :
    (∃ state, guiInputCompleteTimes env completionEnv calls (buffer, completion) = some state ∧
      CompletedRight buffer.text.1 (guiCompletionStart completionEnv buffer)
        (addsSpace completionEnv (guiCompletionStart completionEnv buffer) nick) calls state.1) ↔
      ∀ i < calls, MoveFits buffer.text.1 (guiCompletionStart completionEnv buffer)
        (addsSpace completionEnv (guiCompletionStart completionEnv buffer) nick) buffer.inputBufferAlloc i := by
  obtain ⟨before, after, hbegins⟩ := completion_begins hinput hconsistent hmodifier hnew hwords hchars
  obtain ⟨calls, rfl⟩ := Nat.exists_eq_succ_of_ne_zero (Nat.ne_of_gt hcalls)
  constructor
  · rintro ⟨state, htimes, -⟩
    exact hbegins.room_of_calls calls htimes
  · intro hfits
    obtain ⟨state, htimes, hwith⟩ := hbegins.calls_room calls hfits
    exact ⟨state, htimes, hbegins.right hwith⟩

end

/-! ## Words after a letter -/

/-- Nothing changes the input. -/
def sameEnv : GuiInputEnv where
  garbage _ := 0
  isWordCharInput _ := true
  inputUndoMax := 0
  cursorMode := false
  modifier text := some text

/-- Words of the default template, after which a space is added. -/
def wordsEnv (words : List Str) : GuiCompletionEnv where
  config :=
    { partialCompletionCommand := false
      partialCompletionCommandArg := false
      partialCompletionOther := false
      partialCompletionCount := false
      nickAddSpace := true
      nickFirstOnly := false
      nickCaseSensitive := false
      nickIgnoreChars := [] }
  commandChars := []
  commandInline := false
  baseWordUntilCursor := true
  buildList _ _ := ⟨[], .null, false, false⟩
  commandList _ := []
  filenameList _ := ⟨[], .null, false, false⟩
  defaultList _ := ⟨words.map fun word => ⟨word, false, 0⟩, .auto, true, false⟩

/-- The letter `a` in a new buffer, with the cursor after it. -/
def oneLetterInput : GuiInput :=
  { guiBufferInputBufferInit fun _ => 0 with
    inputBuffer := ch 'a' :: List.replicate 255 0
    inputBufferSize := 1
    inputBufferLength := 1
    inputBufferPos := 1 }

theorem oneLetterInput_consistent : oneLetterInput.Consistent where
  memory := by
    show ((ch 'a' :: List.replicate 255 (0 : Byte)).length : Int) = 256
    rw [List.length_cons, List.length_replicate]
    rfl
  valid := utf8IsValid_ascii (s := [ch 'a']) (by decide)
  size := rfl
  alloc := by decide
  length := congrArg Nat.cast (@utf8Strlen_flatten [[ch 'a']] (List.forall_mem_singleton.mpr (isValidChar_ascii (by decide)))).symm
  pos_nonneg := by decide
  pos_le := by decide

theorem wordsEnv_start (words : List Str) : guiCompletionStart (wordsEnv words) oneLetterInput = { guiCompletionBufferInit with
    context := .auto, baseWord := [ch 'a'], list := words.map fun word => ⟨word, false, 0⟩ } := by
  have hletter : stringIsCommandChar [] [ch 'a'] = false := by
    rw [stringIsCommandChar, isOneOfCommandChars, dif_pos rfl]
    rfl
  have hfirst : guiCompletionFirstCommand (wordsEnv words) [ch 'a'] 1 = none := by
    rw [guiCompletionFirstCommand, show (wordsEnv words).commandChars = [] from rfl, hletter]
    rfl
  have hnone : guiCompletionPtrCommand (wordsEnv words) [ch 'a'] 1 = none := by
    rw [guiCompletionPtrCommand, hfirst]
    rfl
  have hcontext : guiCompletionFindContext (wordsEnv words) [ch 'a'] 1 1 =
      { guiCompletionBufferInit with context := .auto, baseWord := [ch 'a'] } := by
    rw [guiCompletionFindContext, hnone]
    rfl
  show guiCompletionContextList (wordsEnv words) { guiCompletionFindContext (wordsEnv words) [ch 'a'] 1 1 with
    forcePartialCompletion := false } = _
  rw [hcontext]
  rfl

/-- Words that begin with the letter are completed. -/
theorem wordsEnv_words {words : List Str} (hcount : 2 ≤ words.length) (hdifferent : words.Nodup)
    (hletter : ∀ word ∈ words, ∃ rest, word = ch 'a' :: rest) :
    CompletesWords (wordsEnv words) (guiCompletionStart (wordsEnv words) oneLetterInput) false := by
  have ha : IsValidChar [ch 'a'] := isValidChar_ascii (by decide)
  rw [wordsEnv_start]
  refine ⟨nofun, by rwa [List.length_map], ?_, ?_, ?_, rfl, rfl⟩
  · rw [List.map_map]
    exact (List.map_id words).symm ▸ hdifferent
  · intro word hword
    obtain ⟨_, -, rfl⟩ := List.mem_map.mp hword
    rfl
  · intro word hword
    obtain ⟨word, hmem, rfl⟩ := List.mem_map.mp hword
    obtain ⟨rest, rfl⟩ := hletter word hmem
    refine decide_eq_true ?_
    have hone : utf8Strlen [ch 'a'] = 1 := @utf8Strlen_flatten [[ch 'a']] (List.forall_mem_singleton.mpr ha)
    show stringStrncasecmp [ch 'a'] (ch 'a' :: rest) (utf8Strlen [ch 'a']) = 0
    rw [hone]
    exact (strncasecmp_step (List.cons_ne_nil _ _) (List.cons_ne_nil _ _) 0).mpr
      ⟨(charcasecmp_iff ha ha [] rest).mpr rfl, rfl⟩

theorem wordsEnv_chars {words : List Str} (hascii : ∀ word ∈ words, ∀ c ∈ word, c < 0x80 ∧ 0 ≠ c) :
    CompletesChars oneLetterInput (guiCompletionStart (wordsEnv words) oneLetterInput) := by
  rw [wordsEnv_start]
  refine ⟨utf8IsValid_ascii (s := []) nofun, ?_⟩
  intro word hword
  obtain ⟨word, hmem, rfl⟩ := List.mem_map.mp hword
  exact ⟨utf8IsValid_ascii fun c hc => (hascii word hmem c hc).1, fun hzero => (hascii word hmem 0 hzero).2 rfl⟩

theorem completeTimes_right_two :
    ∃ state, guiInputCompleteTimes sameEnv (wordsEnv [lit "ab", lit "ac"]) 2 (oneLetterInput, guiCompletionBufferInit) = some state ∧
      CompletedRight oneLetterInput.text.1 (guiCompletionStart (wordsEnv [lit "ab", lit "ac"]) oneLetterInput)
        (addsSpace (wordsEnv [lit "ab", lit "ac"]) (guiCompletionStart (wordsEnv [lit "ab", lit "ac"]) oneLetterInput) false) 2
        state.1 := by
  refine (completeTimes_right rfl oneLetterInput_consistent ?_ ?_ ?_ ?_ 2 (by decide)).mpr ?_
  · rintro text new hnew
    exact (Option.some.inj hnew).symm
  · decide
  · refine wordsEnv_words (by decide) (by decide) ?_
    intro word hword
    rcases List.mem_pair.mp hword with rfl | rfl
    · exact ⟨[ch 'b'], rfl⟩
    · exact ⟨[ch 'c'], rfl⟩
  · exact wordsEnv_chars (by decide)
  · rw [wordsEnv_start]
    rintro i hi
    obtain rfl | rfl : i = 0 ∨ i = 1 := by omega
    · exact .inl (by decide)
    · exact .inl (by decide)

/-- A long word and a short one. -/
def longWords : List Str := [List.replicate 254 (ch 'a'), lit "ab"]

/-- The words match the letter; the second call reads after the memory of the input. -/
theorem completeTimes_outside :
    oneLetterInput.Consistent ∧ CompletesWords (wordsEnv longWords) (guiCompletionStart (wordsEnv longWords) oneLetterInput) false ∧
      CompletesChars oneLetterInput (guiCompletionStart (wordsEnv longWords) oneLetterInput) ∧
      ¬ ∃ state, guiInputCompleteTimes sameEnv (wordsEnv longWords) 2 (oneLetterInput, guiCompletionBufferInit) = some state := by
  have hwords : CompletesWords (wordsEnv longWords) (guiCompletionStart (wordsEnv longWords) oneLetterInput) false := by
    refine wordsEnv_words (by decide) ?_ ?_
    · refine List.nodup_cons.mpr ⟨fun hmem => ?_, List.nodup_singleton _⟩
      have hlength := congrArg List.length (List.mem_singleton.mp hmem)
      rw [List.length_replicate] at hlength
      exact absurd hlength (by decide)
    · intro word hword
      rcases List.mem_pair.mp hword with rfl | rfl
      · exact ⟨List.replicate 253 (ch 'a'), List.replicate_succ⟩
      · exact ⟨[ch 'b'], rfl⟩
  have hchars : CompletesChars oneLetterInput (guiCompletionStart (wordsEnv longWords) oneLetterInput) := by
    refine wordsEnv_chars fun word hword c hc => ?_
    rcases List.mem_pair.mp hword with rfl | rfl
    · rw [List.eq_of_mem_replicate hc]
      decide
    · revert c
      decide
  refine ⟨oneLetterInput_consistent, hwords, hchars, ?_⟩
  rintro ⟨state, htimes⟩
  have hsame : ∀ text, ∀ new ∈ sameEnv.modifier text, new = text := fun text new hnew => (Option.some.inj hnew).symm
  obtain ⟨before, after, hbegins⟩ := @completion_begins sameEnv (wordsEnv longWords) oneLetterInput
    guiCompletionBufferInit false rfl oneLetterInput_consistent hsame (by decide) hwords hchars
  -- the text has 255 bytes after the first call, and the second word is 252 bytes shorter
  have hfits := hbegins.room_of_calls 1 htimes 1 (by decide)
  rw [wordsEnv_start] at hfits
  have hlong : ((List.replicate 254 (ch 'a')).length : Int) = 254 := congrArg Nat.cast List.length_replicate
  have htext : (textAfterCalls oneLetterInput.text.1 { guiCompletionBufferInit with
      context := .auto, baseWord := [ch 'a'], list := longWords.map fun word => ⟨word, false, 0⟩ } true 1).length = 255 := by
    show (List.replicate 254 (ch 'a') ++ [ch ' ']).length = 255
    rw [List.length_append, List.length_replicate]
    rfl
  rcases hfits with hle | hfits
  · have hle' : (List.replicate 254 (ch 'a')).length ≤ 2 := hle
    rw [List.length_replicate] at hle'
    exact absurd hle' (by decide)
  · have hfits' : ((textAfterCalls oneLetterInput.text.1 { guiCompletionBufferInit with
        context := .auto, baseWord := [ch 'a'], list := longWords.map fun word => ⟨word, false, 0⟩ } true 1).length : Int) +
        ((List.replicate 254 (ch 'a')).length - 2) ≤ inputAlloc (textAfterCalls oneLetterInput.text.1
        { guiCompletionBufferInit with
          context := .auto, baseWord := [ch 'a'], list := longWords.map fun word => ⟨word, false, 0⟩ } true 1).length := hfits
    rw [htext, hlong] at hfits'
    exact absurd hfits' (by decide)

end Wirc

import Mathlib.Data.List.Nodup
import WhoreIrc.Proof.GuiCompletionPartial
import WhoreIrc.Spec.GuiInputComplete

/-!
# The next word of a completion

The base word is a part of the input that ends at the cursor, at a space or at the
end (`baseWord_split`). Without partial completion, the words of the list follow one
another, and the first one follows the last one (`complete_next`).
-/

namespace Wirc

/-! ## Base word -/

section

variable (env : GuiCompletionEnv) {data : Str} {pos : Nat} {completion : GuiCompletion}

/-- What is known of the base word of a completion. -/
structure SameBaseWord (completion completion' : GuiCompletion) : Prop where
  baseWord : completion'.baseWord = completion.baseWord
  place : completion'.positionReplace = completion.positionReplace
  position : completion'.position = completion.position
  direction : completion'.direction = completion.direction
  wordFound : completion'.wordFound = completion.wordFound

theorem SameBaseWord.trans {c1 c2 c3 : GuiCompletion} (h : SameBaseWord c1 c2) (h' : SameBaseWord c2 c3) :
    SameBaseWord c1 c3 where
  baseWord := h'.baseWord.trans h.baseWord
  place := h'.place.trans h.place
  position := h'.position.trans h.position
  direction := h'.direction.trans h.direction
  wordFound := h'.wordFound.trans h.wordFound

/-- The word to complete is bytes of the data, up to the cursor, a space or the end. -/
structure BaseWordAt (data : Str) (pos start stop : Nat) (completion : GuiCompletion) : Prop where
  le : start ≤ stop
  stop_le : stop ≤ data.length
  ends : stop = pos ∨ stop = data.length ∨ ∃ rest, data.drop stop = ch ' ' :: rest
  place : completion.positionReplace = start
  baseWord : completion.baseWord = (data.drop start).take (stop - start)

theorem posEnd_ends (hpos : pos ≤ data.length) :
    guiCompletionPosEnd env data data.length pos ≤ data.length ∧ (guiCompletionPosEnd env data data.length pos = pos ∨
      guiCompletionPosEnd env data data.length pos = data.length ∨
      ∃ rest, data.drop (guiCompletionPosEnd env data data.length pos) = ch ' ' :: rest) := by
  rw [guiCompletionPosEnd]
  split
  · exact ⟨hpos, .inl rfl⟩
  · rw [List.take_length]
    have hsplit := List.takeWhile_append_dropWhile (p := fun c : Byte => decide (c ≠ ch ' ')) (l := data.drop pos)
    have hlength := congrArg List.length hsplit
    rw [List.length_append, List.length_drop] at hlength
    refine ⟨by omega, .inr ?_⟩
    have hdrop : data.drop (pos + ((data.drop pos).takeWhile fun c => decide (c ≠ ch ' ')).length) =
        (data.drop pos).dropWhile fun c => decide (c ≠ ch ' ') := by
      have hrest := congrArg (List.drop ((data.drop pos).takeWhile fun c => decide (c ≠ ch ' ')).length) hsplit
      rw [List.drop_left] at hrest
      rw [← List.drop_drop]
      exact hrest.symm
    cases hrest : (data.drop pos).dropWhile fun c => decide (c ≠ ch ' ') with
    | nil =>
      rw [hrest] at hlength
      exact .inl (by rw [List.length_nil] at hlength; omega)
    | cons c rest =>
      have hspace : c = ch ' ' := by
        have hnot := List.head_dropWhile_not (fun c : Byte => decide (c ≠ ch ' ')) (l := data.drop pos)
          (by rw [hrest]; exact List.cons_ne_nil _ _)
        simpa only [hrest, List.head_cons, decide_eq_false_iff_not, not_not] using hnot
      exact .inr ⟨rest, by rw [hdrop, hrest, hspace]⟩

theorem baseWord_at (hpos : pos ≤ data.length) (completion : GuiCompletion) :
    ∃ start stop, BaseWordAt data pos start stop (guiCompletionBaseWord env data data.length pos completion) := by
  obtain ⟨hle, hends⟩ := posEnd_ends env hpos
  have hempty : ∀ completion', completion'.positionReplace = (pos : Int) → completion'.baseWord = [] →
      BaseWordAt data pos pos pos completion' := fun completion' hplace hword =>
    ⟨le_rfl, hpos, .inl rfl, hplace, by rw [hword, Nat.sub_self, List.take_zero]⟩
  rw [guiCompletionBaseWord]
  split
  · dsimp only
    generalize (if completion.context = .command then _ else _ : Nat) = start
    split
    · rename_i hlt
      exact ⟨start, _, hlt.le, hle, hends, rfl, rfl⟩
    · exact ⟨pos, pos, hempty _ rfl rfl⟩
  · exact ⟨pos, pos, hempty _ rfl rfl⟩

theorem baseWord_keeps (size : Nat) (completion : GuiCompletion) :
    (guiCompletionBaseWord env data size pos completion).position = completion.position ∧
      (guiCompletionBaseWord env data size pos completion).direction = completion.direction ∧
      (guiCompletionBaseWord env data size pos completion).wordFound = completion.wordFound := by
  rw [guiCompletionBaseWord]
  split
  · dsimp only
    generalize (if completion.context = .command then _ else _ : Nat) = start
    split
    · exact ⟨rfl, rfl, rfl⟩
    · exact ⟨rfl, rfl, rfl⟩
  · exact ⟨rfl, rfl, rfl⟩

theorem setList_same (built : GuiCompletionBuilt) : SameBaseWord completion (guiCompletionSetList completion built) :=
  ⟨rfl, rfl, rfl, rfl, rfl⟩

/-- A new completion has a base word, and no word found. -/
theorem findContext_at (hpos : pos ≤ data.length) :
    ∃ start stop, BaseWordAt data pos start stop (guiCompletionFindContext env data data.length pos) ∧
      (guiCompletionFindContext env data data.length pos).position = -1 ∧
      (guiCompletionFindContext env data data.length pos).direction = 0 ∧
      (guiCompletionFindContext env data data.length pos).wordFound = none := by
  obtain ⟨context, hsame⟩ : ∃ context, SameBaseWord
      (guiCompletionBaseWord env data data.length pos { guiCompletionBufferInit with context })
      (guiCompletionFindContext env data data.length pos) := by
    rw [guiCompletionFindContext]
    have hnull : ∀ completion', SameBaseWord completion'
        (if completion'.context = .auto ∧ completion'.baseWord = [] then { completion' with context := .null }
          else completion') := by
      intro completion'
      split
      · exact ⟨rfl, rfl, rfl, rfl, rfl⟩
      · exact ⟨rfl, rfl, rfl, rfl, rfl⟩
    split
    · exact ⟨.auto, hnull _⟩
    · rename_i ptrCommand _
      split
      rename_i commandArg args _
      split
      · exact ⟨.commandArg, (setList_same _).trans (hnull _)⟩
      · exact ⟨.command, hnull _⟩
  obtain ⟨start, stop, hat⟩ := baseWord_at env hpos { guiCompletionBufferInit with context }
  obtain ⟨hposition, hdirection, hfound⟩ := @baseWord_keeps env data pos data.length { guiCompletionBufferInit with context }
  exact ⟨start, stop, ⟨hat.le, hat.stop_le, hat.ends, hsame.place.trans hat.place, hsame.baseWord.trans hat.baseWord⟩,
    hsame.position.trans hposition, hsame.direction.trans hdirection, hsame.wordFound.trans hfound⟩

theorem contextList_same (completion : GuiCompletion) :
    SameBaseWord completion (guiCompletionContextList env completion) := by
  have hauto : ∀ completion', SameBaseWord completion' (guiCompletionAutoList env completion') := by
    intro completion'
    rw [guiCompletionAutoList]
    split
    · exact setList_same _
    · exact ⟨rfl, rfl, rfl, rfl, rfl⟩
  rw [guiCompletionContextList]
  split
  · exact ⟨rfl, rfl, rfl, rfl, rfl⟩
  · split
    · exact ⟨rfl, rfl, rfl, rfl, rfl⟩
    · exact ⟨rfl, rfl, rfl, rfl, rfl⟩
  · split
    · have hcontext : SameBaseWord completion { completion with context := .auto } := ⟨rfl, rfl, rfl, rfl, rfl⟩
      exact hcontext.trans (hauto _)
    · exact ⟨rfl, rfl, rfl, rfl, rfl⟩
  · exact hauto _

/-- The list of a completion that goes on is kept. -/
theorem contextList_keeps (h : completion.list ≠ []) : guiCompletionContextList env completion = completion := by
  have hauto : guiCompletionAutoList env completion = completion := by rw [guiCompletionAutoList, if_neg h]
  rw [guiCompletionContextList]
  split
  · rfl
  · rw [if_neg h]
  · rw [if_neg h]
  · exact hauto

end

/-! ## Words -/

section

variable {config : GuiCompletionConfig} {completion : GuiCompletion} {nick : Bool}

/-- The completion with a word that is found, when another word may follow. -/
def completionFound (config : GuiCompletionConfig) (nick : Bool) (completion : GuiCompletion) (word : Str) :
    GuiCompletion :=
  { completion with
    wordFound := some word
    wordFoundIsNick := nick
    addSpace := completion.addSpace && !(nick && !config.nickAddSpace)
    position := max completion.position 0
    partialList := [] }

/-- The words of a completion match the base word, without partial completion. -/
structure WordsMatch (config : GuiCompletionConfig) (nick : Bool) (completion : GuiCompletion) : Prop where
  nicks : ∀ word ∈ completion.list, word.nickCompletion = nick
  same : ∀ word ∈ completion.list, guiCompletionMatches config completion.baseWord nick word.word = true
  whole : guiCompletionPartial config completion = false
  first : config.nickFirstOnly = false
  direction : ¬ completion.direction < 0

theorem found_whole (h : WordsMatch config nick completion) {word : GuiCompletionWord} {rest : List GuiCompletionWord}
    (hword : word.nickCompletion = nick) {other : Nat}
    (hother : 0 < other + rest.countP fun word2 => guiCompletionMatches config completion.baseWord nick word2.word) :
    guiCompletionFound config completion other word rest = completionFound config nick completion word.word := by
  have hne := Nat.ne_of_gt hother
  subst hword
  rw [guiCompletionFound, h.first, Bool.and_false, if_neg Bool.false_ne_true]
  dsimp only
  rw [if_neg hne]
  have hwhole : ∀ wordFound wordFoundIsNick addSpace position, guiCompletionPartial config { completion with
      wordFound := wordFound, wordFoundIsNick := wordFoundIsNick, addSpace := addSpace, position := position } = false :=
    fun _ _ _ _ => h.whole
  rw [hwhole, if_neg (fun h => Bool.false_ne_true h.1)]
  have hspace : (if (word.nickCompletion && !config.nickAddSpace) = true then false else completion.addSpace) =
      (completion.addSpace && !(word.nickCompletion && !config.nickAddSpace)) := by
    cases word.nickCompletion && !config.nickAddSpace
    · rw [if_neg Bool.false_ne_true, Bool.not_false, Bool.and_true]
    · rw [if_pos rfl, Bool.not_true, Bool.and_false]
  have hposition : (if completion.position < 0 then 0 else completion.position) = max completion.position 0 := by
    split <;> omega
  rw [hspace, hposition, completionFound]

/-- The words up to the one that was found are skipped, and the next one is found. -/
theorem completionLoop_next (h : WordsMatch config nick completion) {found : GuiCompletionWord} {before after : List GuiCompletionWord}
    (hfound : completion.wordFound = some found.word) (hbefore : ∀ word ∈ before, word.word ≠ found.word)
    (hlist : ∀ word ∈ before ++ found :: after, word ∈ completion.list) (other : Nat) :
    guiCompletionLoop config completion false other (before ++ found :: after) =
      after.head?.map fun next =>
        guiCompletionFound config completion (other + before.length + 1) next after.tail := by
  have hnot : ¬ (completion.wordFound = none ∨ false = true) := by
    rw [hfound]
    rintro (h | h)
    · cases h
    · cases h
  have hmatch : ∀ word ∈ completion.list,
      guiCompletionMatches config completion.baseWord word.nickCompletion word.word = true := fun word hword => by
    rw [h.nicks word hword]
    exact h.same word hword
  induction before generalizing other with
  | nil =>
    have hself := hmatch found (hlist found List.mem_cons_self)
    rw [List.nil_append, guiCompletionLoop, if_pos hself, if_neg hnot, hfound, decide_eq_true rfl, Bool.or_true]
    cases after with
    | nil => rfl
    | cons next rest =>
      have hnext := hmatch next (hlist next (List.mem_cons_of_mem _ List.mem_cons_self))
      rw [guiCompletionLoop, if_pos hnext, if_pos (.inr rfl)]
      rfl
  | cons word before ih =>
    have hself := hmatch word (hlist word List.mem_cons_self)
    have hne : ¬ completion.wordFound = some word.word := fun heq =>
      hbefore word List.mem_cons_self (Option.some.inj (heq.symm.trans hfound))
    rw [List.cons_append, guiCompletionLoop, if_pos hself, if_neg hnot, decide_eq_false hne, Bool.or_false,
      ih (fun word hword => hbefore word (List.mem_cons_of_mem _ hword))
        (fun word hword => hlist word (List.mem_cons_of_mem _ hword)) (other + 1)]
    rw [List.length_cons, show other + 1 + before.length + 1 = other + (before.length + 1) + 1 by omega]

theorem directed_next (h : WordsMatch config nick completion) : directedList completion = completion.list :=
  if_neg h.direction

/-- The first word is found, and another word follows it. -/
theorem complete_new (h : WordsMatch config nick completion) (hfound : completion.wordFound = none)
    (hcount : 2 ≤ completion.list.length) :
    ∃ word, completion.list[0]? = some word ∧
      guiCompletionComplete config completion = completionFound config nick completion word.word := by
  obtain ⟨word, rest, hlist⟩ : ∃ word rest, completion.list = word :: rest :=
    List.exists_cons_of_ne_nil (List.ne_nil_of_length_pos (by omega))
  have hmem : word ∈ completion.list := hlist ▸ List.mem_cons_self
  have hnick := h.nicks word hmem
  refine ⟨word, by rw [hlist]; rfl, ?_⟩
  rw [complete_first hfound ((directed_next h).trans hlist) (by rw [hnick]; exact h.same word hmem),
    found_whole h hnick]
  cases hrest : rest with
  | nil =>
    rw [hlist, hrest, List.length_singleton] at hcount
    omega
  | cons next rest' =>
    have hnext := h.same next (by rw [hlist, hrest]; exact List.mem_cons_of_mem _ List.mem_cons_self)
    have hpos : 0 < (next :: rest').countP fun word2 =>
        guiCompletionMatches config completion.baseWord nick word2.word :=
      List.countP_pos_iff.mpr ⟨next, List.mem_cons_self, hnext⟩
    omega

/-- The next word of the list is found, after the last one the first one. -/
theorem complete_next (h : WordsMatch config nick completion) (hcount : 2 ≤ completion.list.length)
    (hdifferent : (completion.list.map GuiCompletionWord.word).Nodup) (hposition : 0 ≤ completion.position) {i : Nat}
    (hi : i < completion.list.length)
    (hfound : completion.wordFound = some (completion.list[i]).word) :
    ∃ word, completion.list[(i + 1) % completion.list.length]? = some word ∧
      guiCompletionComplete config completion = completionFound config nick completion word.word := by
  have hsplit : completion.list = completion.list.take i ++ completion.list[i] :: completion.list.drop (i + 1) := by
    rw [List.getElem_cons_drop, List.take_append_drop]
  have hbefore : ∀ word ∈ completion.list.take i, word.word ≠ (completion.list[i]).word := by
    intro word hword
    obtain ⟨j, hj, rfl⟩ := List.getElem_of_mem hword
    rw [List.length_take] at hj
    rw [List.getElem_take]
    intro heq
    have hj' : j < (completion.list.map GuiCompletionWord.word).length := by
      rw [List.length_map]
      omega
    have hi' : i < (completion.list.map GuiCompletionWord.word).length := by rwa [List.length_map]
    have hmap : (completion.list.map GuiCompletionWord.word)[j] = (completion.list.map GuiCompletionWord.word)[i] := by
      rw [List.getElem_map, List.getElem_map, heq]
    have := hdifferent.getElem_inj_iff.mp hmap
    omega
  have hloop := completionLoop_next h hfound hbefore (fun word hword => hsplit ▸ hword) 0
  rw [← hsplit] at hloop
  have honce : guiCompletionCompleteOnce config completion =
      guiCompletionLoop config completion false 0 completion.list := by
    rw [guiCompletionCompleteOnce, h.whole, if_neg (fun h => Bool.false_ne_true h.1), if_neg h.direction]
  rw [guiCompletionComplete, honce, hloop]
  cases hafter : completion.list.drop (i + 1) with
  | cons next rest =>
    have hlt : i + 1 < completion.list.length := by
      by_contra hle
      rw [List.drop_eq_nil_of_le (Nat.le_of_not_lt hle)] at hafter
      cases hafter
    have hnext : completion.list[i + 1]? = some next := by
      rw [← List.head?_drop, hafter]
      rfl
    have hmem : next ∈ completion.list := List.mem_of_getElem? hnext
    refine ⟨next, by rw [Nat.mod_eq_of_lt hlt, hnext], ?_⟩
    exact found_whole h (h.nicks next hmem) (by omega)
  | nil =>
    -- the last word was found
    have hlast : i + 1 = completion.list.length := by
      have := List.drop_eq_nil_iff.mp hafter
      omega
    dsimp only
    rw [if_pos ⟨by rw [hfound]; rfl, hposition⟩]
    have hagain : WordsMatch config nick { completion with wordFound := none, wordFoundIsNick := false } :=
      ⟨h.nicks, h.same, h.whole, h.first, h.direction⟩
    obtain ⟨word, hword, hcomplete⟩ := complete_new hagain rfl hcount
    refine ⟨word, by rw [hlast, Nat.mod_self]; exact hword, ?_⟩
    rw [guiCompletionComplete] at hcomplete
    cases honce' : guiCompletionCompleteOnce config { completion with wordFound := none, wordFoundIsNick := false } with
    | some completion' =>
      rw [honce'] at hcomplete
      rw [Option.getD_some]
      exact hcomplete
    | none =>
      rw [honce'] at hcomplete
      have hnone := congrArg GuiCompletion.wordFound hcomplete
      dsimp only at hnone
      rw [if_neg (fun h => by cases h.1)] at hnone
      cases hnone

end

end Wirc

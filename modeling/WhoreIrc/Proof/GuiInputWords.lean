import WhoreIrc.Proof.GuiInput
import WhoreIrc.Spec.GuiInput

/-!
# When moves by words are right (`word_moves_iff`)

A move to the next word goes to the end of the next word (`nextWord_spec`). If there is
none it goes on the last char, not after it: from there it does not move.
-/

namespace Wirc

open GuiInput

variable {env : GuiInputEnv} {buffer : GuiInput} {chars : List Str}

theorem isWordCharAt_eq (h : buffer.Chars chars) (i : Nat) :
    isWordCharAt env buffer i = env.isWordCharInput (chars.drop i).flatten := by
  rw [isWordCharAt, h.text, utf8AddOffset_drop h.valid]

/-- The cursor at another position. -/
theorem GuiInput.Chars.setPos (h : buffer.Chars chars) {pos : Int} (hpos : 0 ≤ pos) (hle : pos ≤ chars.length) :
    ({ buffer with inputBufferPos := pos } : GuiInput).Chars chars :=
  ⟨h.input, h.valid, h.noZero, h.bytes, h.memory, h.size, h.length, hpos, hle⟩

theorem flatten_drop_ne_nil (h : buffer.Chars chars) {i : Nat} : (chars.drop i).flatten ≠ [] ↔ i < chars.length := by
  constructor
  · intro hne
    by_contra hle
    rw [List.drop_eq_nil_of_le (Nat.le_of_not_lt hle)] at hne
    exact hne rfl
  · intro hlt
    rw [List.drop_eq_getElem_cons hlt, List.flatten_cons]
    exact List.append_ne_nil_of_left_ne_nil (h.valid _ (List.getElem_mem hlt)).ne_nil _

/-- The end `l` of the next word is at `j` or after it, and there are no word chars before `j`. -/
structure NextWordAt (env : GuiInputEnv) (buffer : GuiInput) (length k j l : Nat) : Prop where
  start : k ≤ j
  before : ∀ i, k ≤ i → i < j → isWordCharAt env buffer i = false
  lt : j < l
  le : l ≤ length
  word : ∀ i, j ≤ i → i < l → isWordCharAt env buffer i = true
  stop : l < length → isWordCharAt env buffer l = false

/-- A move to the next word. -/
theorem nextWord_spec (env : GuiInputEnv) (h : buffer.Chars chars) {k : Nat} (hcursor : buffer.inputBufferPos = k) (hk : k < chars.length) :
    (∃ j l, NextWordAt env buffer chars.length k j l ∧
        guiInputMoveNextWord env buffer = some { buffer with inputBufferPos := l }) ∨
      ((∀ i, k ≤ i → i < chars.length → isWordCharAt env buffer i = false) ∧
        guiInputMoveNextWord env buffer = some { buffer with inputBufferPos := (chars.length - 1 : Nat) }) := by
  obtain ⟨j, hkj, hj, hskip, hbefore, hstart⟩ :=
    whileNext_stop h (fun s => !env.isWordCharInput s) (Nat.le_of_lt hk) 0
  obtain ⟨l, hjl, hl, hword, hin, hstop⟩ := whileNext_stop h env.isWordCharInput hj 0
  have hlength := h.length
  have hmoves : buffer.input = true ∧ buffer.inputBufferPos < buffer.inputBufferLength := ⟨h.input, by omega⟩
  rw [guiInputMoveNextWord, if_pos hmoves]
  dsimp only
  rw [h.addOffset, hcursor, Int.toNat_natCast, hskip]
  dsimp only
  rw [hword]
  dsimp only
  rw [h.drop_take, h.drop_take]
  have hno : ∀ i, k ≤ i → i < j → isWordCharAt env buffer i = false := by
    intro i hki hij
    rw [isWordCharAt_eq h, ← Bool.not_eq_true']
    exact hbefore i hki hij
  by_cases hend : j < chars.length
  · rw [if_pos ((flatten_drop_ne_nil h).mpr hend)]
    refine .inl ⟨j, l, ⟨hkj, hno, ?_, hl, fun i hji hil => ?_, fun hlt => ?_⟩, ?_⟩
    · refine Nat.lt_of_le_of_ne hjl ?_
      rintro rfl
      have hfirst : (!env.isWordCharInput (chars.drop j).flatten) = false := hstart hend
      rw [hstop hend] at hfirst
      cases hfirst
    · rw [isWordCharAt_eq h]
      exact hin i hji hil
    · rw [isWordCharAt_eq h]
      exact hstop hlt
    · by_cases hllt : l < chars.length
      · rw [if_pos ((flatten_drop_ne_nil h).mpr hllt), h.utf8Pos hl]
      · rw [if_neg ((flatten_drop_ne_nil h).not.mpr hllt), hlength, Nat.le_antisymm hl (Nat.le_of_not_lt hllt)]
  · rw [if_neg ((flatten_drop_ne_nil h).not.mpr hend)]
    obtain rfl : j = chars.length := by omega
    refine .inr ⟨hno, ?_⟩
    obtain ⟨n, hn⟩ : ∃ n, chars.length = n + 1 := ⟨chars.length - 1, by omega⟩
    rw [hn, h.prev_take (by omega), Option.map_some, h.utf8Pos (by omega), Nat.add_sub_cancel]

/-- A move to the previous word. -/
theorem previousWord_spec (env : GuiInputEnv) (h : buffer.Chars chars) {k : Nat} (hcursor : buffer.inputBufferPos = (k + 1 : Nat))
    (hk : k < chars.length) :
    ∃ m ≤ k, guiInputMovePreviousWord env buffer = { buffer with inputBufferPos := (m : Nat) } := by
  have hmoves : buffer.input = true ∧ 0 < buffer.inputBufferPos := ⟨h.input, by omega⟩
  have hstart : (buffer.inputBufferPos - 1).toNat = k := by omega
  rw [guiInputMovePreviousWord, if_pos hmoves, h.addOffset, hstart]
  dsimp only
  rw [guiInputPreviousWord]
  obtain ⟨hnone, -⟩ | ⟨j, hj, hsome, hword, -⟩ := whilePrev_stop h (fun s => !env.isWordCharInput s) (Nat.le_of_lt hk)
  · rw [hnone]
    exact ⟨0, Nat.zero_le k, rfl⟩
  · rw [hsome]
    dsimp only
    rw [if_pos Option.isSome_some]
    have hj' : j ≤ chars.length := by omega
    obtain ⟨hnone', -⟩ | ⟨i, hi, hsome', hstop, -⟩ := whilePrev_stop h env.isWordCharInput hj'
    · rw [hnone']
      have hzero := h.utf8Pos (Nat.zero_le chars.length)
      rw [List.take_zero, List.flatten_nil, List.length_nil] at hzero
      exact ⟨0, Nat.zero_le k, by rw [Option.map_none, Option.getD_none, hzero]⟩
    · -- the char before the word is not the last one of the word
      have hij : i ≠ j := by
        rintro rfl
        rw [hstop] at hword
        cases hword
      rw [hsome', Option.map_some, Option.getD_some, h.next_take (by omega), h.utf8Pos (by omega)]
      exact ⟨i + 1, by omega, rfl⟩

theorem nextWord_end (h : buffer.Chars chars) (hcursor : buffer.inputBufferPos = chars.length) :
    guiInputMoveNextWord env buffer = some buffer := by
  have hstays : ¬(buffer.input = true ∧ buffer.inputBufferPos < buffer.inputBufferLength) := by
    have := h.length
    rintro ⟨-, hlt⟩
    omega
  rw [guiInputMoveNextWord, if_neg hstays]

/-- Before a last char that is not a word char, the cursor stays before the end. -/
theorem moveNextWords_lt (hlast : isWordCharAt env buffer (chars.length - 1) = false) (times : Nat)
    (h : buffer.Chars chars) {k : Nat} (hcursor : buffer.inputBufferPos = k) (hk : k < chars.length) {buffer' : GuiInput}
    (hmoved : moveNextWords env times buffer = some buffer') : buffer'.inputBufferPos < chars.length := by
  induction times generalizing buffer k with
  | zero =>
    cases hmoved
    omega
  | succ times ih =>
    rw [moveNextWords] at hmoved
    obtain ⟨j, l, hnext, hmove⟩ | ⟨-, hmove⟩ := nextWord_spec env h hcursor hk
    · have hl : l ≠ chars.length := by
        rintro rfl
        have hlt := hnext.lt
        rw [hnext.word (chars.length - 1) (by omega) (by omega)] at hlast
        cases hlast
      have hle := hnext.le
      rw [hmove] at hmoved
      refine ih ?_ (h.setPos (Int.natCast_nonneg l) (by omega)) rfl (by omega) hmoved
      exact hlast
    · rw [hmove] at hmoved
      refine ih ?_ (h.setPos (Int.natCast_nonneg _) (by omega)) rfl (by omega) hmoved
      exact hlast

/-- Before a last char that is a word char, each move makes progress. -/
theorem nextWord_lt (hlast : isWordCharAt env buffer (chars.length - 1) = true) (h : buffer.Chars chars) {k : Nat}
    (hcursor : buffer.inputBufferPos = k) (hk : k < chars.length) :
    ∃ j l, NextWordAt env buffer chars.length k j l ∧
      guiInputMoveNextWord env buffer = some { buffer with inputBufferPos := (l : Nat) } := by
  obtain hfound | ⟨hno, -⟩ := nextWord_spec env h hcursor hk
  · exact hfound
  · rw [hno (chars.length - 1) (by omega) (by omega)] at hlast
    cases hlast

theorem moveNextWords_end (hlast : isWordCharAt env buffer (chars.length - 1) = true) (h : buffer.Chars chars) {k : Nat}
    (hcursor : buffer.inputBufferPos = k) (hk : k ≤ chars.length) :
    ∃ times buffer', moveNextWords env times buffer = some buffer' ∧
      buffer'.inputBufferPos = buffer.inputBufferLength := by
  have hlength := h.length
  induction hn : chars.length - k using Nat.strong_induction_on generalizing buffer k with
  | _ n ih =>
    obtain rfl | hlt := Nat.eq_or_lt_of_le hk
    · exact ⟨0, buffer, rfl, by omega⟩
    · obtain ⟨j, l, hnext, hmove⟩ := nextWord_lt hlast h hcursor hlt
      have hle := hnext.le
      have hstart := hnext.start
      have hjl := hnext.lt
      have hmovedChars := h.setPos (Int.natCast_nonneg l) (Int.ofNat_le.mpr hle)
      obtain ⟨times, buffer', hmoved, hpos⟩ : ∃ times buffer',
          moveNextWords env times { buffer with inputBufferPos := (l : Nat) } = some buffer' ∧
            buffer'.inputBufferPos = buffer.inputBufferLength := by
        refine ih (chars.length - l) (by omega) ?_ hmovedChars rfl hle hlength rfl
        exact hlast
      refine ⟨times + 1, buffer', ?_, hpos⟩
      rw [moveNextWords, hmove]
      exact hmoved

theorem movePreviousWords_zero (h : buffer.Chars chars) {k : Nat} (hcursor : buffer.inputBufferPos = k)
    (hk : k ≤ chars.length) : ∃ times, (movePreviousWords env times buffer).inputBufferPos = 0 := by
  induction k using Nat.strong_induction_on generalizing buffer with
  | _ k ih =>
    obtain _ | k := k
    · exact ⟨0, hcursor⟩
    · obtain ⟨m, hm, hmove⟩ := previousWord_spec env h hcursor hk
      obtain ⟨times, hzero⟩ := ih m (by omega) (h.setPos (Int.natCast_nonneg m) (by omega)) rfl (by omega)
      refine ⟨times + 1, ?_⟩
      rw [movePreviousWords, hmove]
      exact hzero

/-- The moves by words are right if and only if the cursor is at the end, or the last char is a word char. -/
theorem word_moves_iff (h : buffer.Consistent) (hinput : buffer.input = true) (env : GuiInputEnv) :
    WordMovesRight env buffer ↔ buffer.inputBufferPos = buffer.inputBufferLength ∨
      isWordCharAt env buffer (buffer.inputBufferLength.toNat - 1) = true := by
  obtain ⟨chars, hchars⟩ := h.exists_chars hinput
  obtain ⟨k, hk, hcursor, -⟩ := hchars.cursor
  have hlength := hchars.length
  have hlast : buffer.inputBufferLength.toNat = chars.length := by omega
  rw [hlast]
  constructor
  · intro hright
    by_contra hno
    rw [not_or, Bool.not_eq_true] at hno
    obtain ⟨times, buffer', hmoved, hpos⟩ := hright.reachEnd
    have hlt := moveNextWords_lt hno.2 times hchars hcursor (by omega) hmoved
    omega
  · intro hcond
    have hend : ∃ times buffer', moveNextWords env times buffer = some buffer' ∧
        buffer'.inputBufferPos = buffer.inputBufferLength := by
      obtain hpos | hword := hcond
      · exact ⟨0, buffer, rfl, hpos⟩
      · exact moveNextWords_end hword hchars hcursor hk
    have hprevious : 0 < buffer.inputBufferPos →
        (guiInputMovePreviousWord env buffer).inputBufferPos < buffer.inputBufferPos := by
      intro hpos
      obtain ⟨k, rfl⟩ : ∃ n, k = n + 1 := ⟨k - 1, by omega⟩
      obtain ⟨m, hm, hmove⟩ := previousWord_spec env hchars hcursor hk
      rw [hmove, hcursor]
      show (m : Int) < (k + 1 : Nat)
      omega
    refine ⟨?_, hprevious, hend, movePreviousWords_zero hchars hcursor hk⟩
    obtain rfl | hlt := Nat.eq_or_lt_of_le hk
    · refine ⟨buffer, nextWord_end hchars hcursor, fun i hi hi' => ?_, fun hlt => ?_⟩
      · omega
      · omega
    · have hword := hcond.resolve_left (by omega)
      obtain ⟨j, l, hnext, hmove⟩ := nextWord_lt hword hchars hcursor hlt
      have hjl := hnext.lt
      have hstart := hnext.start
      refine ⟨_, hmove, fun i hi hi' hchar => ⟨fun n hn hn' => ?_, fun hl => ?_⟩, fun _ => ?_⟩
      · -- the word char is in the word
        dsimp only at hi' hn'
        have hji : j ≤ i := by
          by_contra hij
          rw [hnext.before i (by omega) (by omega)] at hchar
          cases hchar
        exact hnext.word n (by omega) (by omega)
      · dsimp only at hl ⊢
        rw [Int.toNat_natCast]
        exact hnext.stop (by omega)
      · dsimp only
        omega

/-- Words are separated by spaces. -/
def spacesEnv : GuiInputEnv where
  garbage _ := 0
  isWordCharInput s := s.head?.any (· ≠ ch ' ')
  inputUndoMax := 0
  cursorMode := false
  modifier := some

/-- An input of two chars. -/
def twoChars (c1 c2 : Byte) (pos : Int) : GuiInput where
  input := true
  inputBuffer := [c1, c2, 0]
  inputBufferAlloc := 3
  inputBufferSize := 2
  inputBufferLength := 2
  inputBufferPos := pos
  inputUndoSnap := none
  inputUndo := []
  ptrInputUndo := none
  inputUndoCount := 0

theorem twoChars_consistent (c : Byte) (hc : c = ch 'a' ∨ c = ch ' ') : (twoChars (ch 'a') c 1).Consistent := by
  obtain rfl | rfl := hc <;> exact ⟨rfl, by decide +kernel, rfl, by decide, by decide +kernel, by decide, by decide⟩

theorem word_moves_aa : WordMovesRight spacesEnv (twoChars (ch 'a') (ch 'a') 1) :=
  (word_moves_iff (twoChars_consistent _ (.inl rfl)) rfl spacesEnv).mpr (.inr (by decide))

/-- The cursor on a space at the end of the input does not move. -/
theorem word_moves_fails :
    (twoChars (ch 'a') (ch ' ') 1).Consistent ∧
      guiInputMoveNextWord spacesEnv (twoChars (ch 'a') (ch ' ') 1) = some (twoChars (ch 'a') (ch ' ') 1) ∧
      ¬WordMovesRight spacesEnv (twoChars (ch 'a') (ch ' ') 1) := by
  have hstays : guiInputMoveNextWord spacesEnv (twoChars (ch 'a') (ch ' ') 1) = some (twoChars (ch 'a') (ch ' ') 1) := by
    decide +kernel
  refine ⟨twoChars_consistent _ (.inr rfl), hstays, fun hright => ?_⟩
  obtain ⟨buffer', hmove, -, hlt⟩ := hright.next
  rw [hstays] at hmove
  cases hmove
  exact absurd (hlt (by decide)) (by decide)

end Wirc

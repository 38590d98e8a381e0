import WhoreIrc.Spec.Eval

/-!
# When escaped prefixes are ignored (`evalStrstrLevel_iff`)

`eval_strstr_level` skips the backslash before a prefix, and then counts the
prefix. It reads a text as it should while no such prefix is met.
-/

namespace Wirc

section

variable (marks : ReplaceMarks)

/-- A backslash before the first byte of the prefix. -/
def atEscapedMark : Str → Bool
  | [] => false
  | c :: s => isEscapedMark marks c s

/-- What a round of the loop takes a position for, with `escape`. -/
def evalStrstrToken (search : Str) (level : Nat) (string : Str) : LevelToken :=
  if atEscapedMark marks string then .char
  else if startsWith string marks.pfx then .pfx
  else if startsWith string marks.sfx then .sfx
  else if level = 0 && startsWith string search then .found
  else .char

/-- The rounds of the loop, with `escape`. -/
def evalStrstrRounds (search string : Str) : List LevelRound :=
  levelRounds marks (fun _ => evalStrstrToken marks search) 0 0 string

/-- A position that the loop takes for what it is: at a backslash before the first byte of the prefix stands
no prefix, no suffix and not what is searched, and at another position there is no prefix after a backslash. -/
def EscapeSafe (round : LevelRound) : Prop :=
  if atEscapedMark marks round.string then round.token = .char
  else round.previous = ch '\\' → startsWith round.string marks.pfx = false

end

section

variable {marks : ReplaceMarks} {search : Str}

theorem levelFound_cons {previous : Byte} {level : Nat} {string : Str} {token : LevelToken} (rounds : List LevelRound)
    (h : token ≠ .found) : levelFound (⟨previous, level, string, token⟩ :: rounds) = levelFound rounds := by
  rw [levelFound, List.find?_cons_of_neg (by rwa [decide_eq_true_eq])]
  rfl

/-- The loop as a list of rounds. -/
theorem evalStrstrLevel_eq (previous : Byte) (level : Nat) (string : Str) :
    evalStrstrLevel marks true search level string =
      levelFound (levelRounds marks (fun _ => evalStrstrToken marks search) previous level string) := by
  fun_induction evalStrstrLevel marks true search level string generalizing previous with
  | case1 =>
    rw [levelRounds]
    rfl
  | case2 level c s hesc ih =>
    have hesc : atEscapedMark marks (c :: s) = true := hesc
    have htoken : evalStrstrToken marks search level (c :: s) = .char := by rw [evalStrstrToken, if_pos hesc]
    rw [levelRounds, htoken, levelFound_cons _ (by decide)]
    exact ih c
  | case3 level c s hesc hpfx ih =>
    have hesc : ¬ atEscapedMark marks (c :: s) = true := hesc
    have htoken : evalStrstrToken marks search level (c :: s) = .pfx := by
      rw [evalStrstrToken, if_neg hesc, if_pos hpfx]
    rw [levelRounds, htoken, levelFound_cons _ (by decide)]
    exact ih _
  | case4 level c s hesc hpfx hsfx ih =>
    have hesc : ¬ atEscapedMark marks (c :: s) = true := hesc
    have htoken : evalStrstrToken marks search level (c :: s) = .sfx := by
      rw [evalStrstrToken, if_neg hesc, if_neg hpfx, if_pos hsfx]
    rw [levelRounds, htoken, levelFound_cons _ (by decide)]
    exact ih _
  | case5 level c s hesc hpfx hsfx hfound =>
    have hesc : ¬ atEscapedMark marks (c :: s) = true := hesc
    have htoken : evalStrstrToken marks search level (c :: s) = .found := by
      rw [evalStrstrToken, if_neg hesc, if_neg hpfx, if_neg hsfx, if_pos hfound]
    rw [levelRounds, htoken]
    rfl
  | case6 level c s hesc hpfx hsfx hfound ih =>
    have hesc : ¬ atEscapedMark marks (c :: s) = true := hesc
    have htoken : evalStrstrToken marks search level (c :: s) = .char := by
      rw [evalStrstrToken, if_neg hesc, if_neg hpfx, if_neg hsfx, if_neg hfound]
    rw [levelRounds, htoken, levelFound_cons _ (by decide)]
    exact ih c

/-- A round is right if and only if its position is safe. -/
theorem evalStrstrToken_eq_iff (previous : Byte) (level : Nat) (string : Str) :
    evalStrstrToken marks search level string = unescapedToken marks search previous level string ↔
      EscapeSafe marks ⟨previous, level, string, unescapedToken marks search previous level string⟩ := by
  rw [EscapeSafe, evalStrstrToken]
  dsimp only
  split
  · exact eq_comm
  · rw [unescapedToken]
    cases hpfx : startsWith string marks.pfx with
    | false =>
      rw [Bool.and_false, if_neg Bool.false_ne_true]
      exact iff_of_true rfl fun _ => rfl
    | true =>
      rw [Bool.and_true, if_pos rfl]
      by_cases hprevious : previous = ch '\\'
      · rw [if_neg (by rw [decide_eq_true_eq, not_not]; exact hprevious)]
        refine iff_of_false ?_ fun h => Bool.false_ne_true (h hprevious).symm
        -- a suffix, what is searched or a byte
        repeat' split
        all_goals exact nofun
      · rw [if_pos (decide_eq_true hprevious)]
        exact iff_of_true rfl fun h => absurd h hprevious

/-- The rounds are right up to the first position that is not safe. -/
theorem levelRounds_eq_iff (previous : Byte) (level : Nat) (string : Str) :
    levelRounds marks (fun _ => evalStrstrToken marks search) previous level string =
        levelRounds marks (unescapedToken marks search) previous level string ↔
      ∀ round ∈ levelRounds marks (unescapedToken marks search) previous level string, EscapeSafe marks round := by
  induction hn : string.length using Nat.strong_induction_on generalizing previous level string with
  | _ n ih =>
  subst hn
  cases string with
  | nil =>
    rw [levelRounds, levelRounds]
    exact iff_of_true rfl (List.forall_mem_nil _)
  | cons c s =>
    have hcons : (c :: s).length = s.length + 1 := rfl
    rw [levelRounds, levelRounds, List.cons_eq_cons, LevelRound.mk.injEq, List.forall_mem_cons,
      ← evalStrstrToken_eq_iff]
    simp only [true_and]
    refine and_congr_right fun htoken => ?_
    rw [htoken]
    -- the same token on both sides
    cases unescapedToken marks search previous level (c :: s) with
    | char => exact ih s.length (by omega) c level s rfl
    | pfx =>
      have hpfx := List.length_pos_of_ne_nil marks.pfx_ne_nil
      exact ih _ (by rw [List.length_drop]; omega) _ _ _ rfl
    | sfx =>
      have hsfx := List.length_pos_of_ne_nil marks.sfx_ne_nil
      exact ih _ (by rw [List.length_drop]; omega) _ _ _ rfl
    | found => exact iff_of_true rfl (List.forall_mem_nil _)

/-- An escaped prefix is ignored, with what is after it at its level, if and only if no position that is read is
a prefix after a backslash, or is a backslash before the first byte of a prefix that begins something else. -/
theorem evalStrstrLevel_iff (marks : ReplaceMarks) (search string : Str) :
    (evalStrstrLevel marks true search 0 string = levelFound (unescapedRounds marks search string) ∧
      evalStrstrRounds marks search string = unescapedRounds marks search string) ↔
      ∀ round ∈ unescapedRounds marks search string, EscapeSafe marks round := by
  rw [evalStrstrLevel_eq 0, evalStrstrRounds, unescapedRounds, levelRounds_eq_iff]
  refine and_iff_right_of_imp fun h => ?_
  rw [(levelRounds_eq_iff 0 0 string).mpr h]

/-- After an escaped prefix, `?` is no longer at level 0. -/
theorem evalStrstrLevel_fails :
    evalStrstrLevel evalDefaultMarks true (lit "?") 0 (lit "\\$\x7ba?b") = none ∧
      levelFound (unescapedRounds evalDefaultMarks (lit "?") (lit "\\$\x7ba?b")) = some (lit "?b") := by
  rw [show lit "\\$\x7ba?b" = [ch '\\', ch '$', 123, ch 'a', ch '?', ch 'b'] from rfl]
  constructor
  · have hopen : evalStrstrLevel evalDefaultMarks true (lit "?") 1 [ch 'a', ch '?', ch 'b'] = none := by
      simp +decide [evalStrstrLevel]
    rw [evalStrstrLevel, if_pos (by decide), evalStrstrLevel, if_neg (by decide), if_pos (by decide)]
    exact hopen
  · simp +decide [unescapedRounds, levelRounds]

end

end Wirc

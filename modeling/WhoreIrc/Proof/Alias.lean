import WhoreIrc.Proof.Hashtable
import WhoreIrc.Proof.StringSplit
import WhoreIrc.Spec.Alias

/-!
# When an alias runs what it says (`aliasCb_iff`)

`alias_replace_args` gives the text of a command (`aliasReplaceArgs_eq`), and NULL
for an empty text.
-/

namespace Wirc

open Framework

/-! ## The result -/

section

variable {text word userArgs pos start : Str} {argv : List Str}

/-- A text in memory: NULL when it is empty. -/
def orNull (text : Str) : Option Str := if text = [] then none else some text

@[simp] theorem addWord_orNull (text word : Str) : aliasStringAddWord (orNull text) word = orNull (text ++ word) := by
  unfold aliasStringAddWord orNull
  by_cases hword : word = []
  · rw [if_pos hword, hword, List.append_nil]
  · rw [if_neg hword, if_neg fun h => hword (List.append_eq_nil_iff.mp h).2]
    by_cases htext : text = []
    · rw [if_pos htext, htext]
      rfl
    · rw [if_neg htext]

theorem addWordRange_orNull (text start stop : Str) :
    aliasStringAddWordRange (orNull text) start stop = orNull (text ++ strndup start (off start stop)) :=
  addWord_orNull _ _

/-- The words of a range are added with spaces between them. -/
theorem addArguments_count (text : Str) (start count : Nat) (h : start + count ≤ argv.length) :
    (List.range' start count).foldl
        (fun res i => aliasStringAddWord (if i ≠ start then aliasStringAddWord res (lit " ") else res) (argv.getD i []))
        (orNull text) = orNull (text ++ joinArgs ((argv.drop start).take count)) := by
  induction count with
  | zero =>
    rw [List.take_zero, joinArgs, List.intercalate_nil, List.append_nil]
    rfl
  | succ count ih =>
    have hget : (argv.drop start)[count]? = some (argv.getD (start + count) []) := by
      rw [List.getElem?_drop, List.getD_eq_getElem?_getD, List.getElem?_eq_getElem (by omega)]
      rfl
    rw [List.range'_1_concat, List.foldl_append, ih (by omega), List.take_add_one, hget]
    show aliasStringAddWord (if start + count ≠ start then aliasStringAddWord _ (lit " ") else _) _ = _
    cases count with
    | zero =>
      rw [if_neg (not_not.mpr (Nat.add_zero start)), addWord_orNull, List.take_zero]
      simp only [joinArgs, Option.toList_some, List.nil_append, List.intercalate_singleton, List.intercalate_nil,
        List.append_nil]
    | succ count =>
      have hne : (argv.drop start).take (count + 1) ≠ [] := by
        refine List.ne_nil_of_length_pos ?_
        rw [List.length_take, List.length_drop]
        omega
      rw [if_pos (by omega), addWord_orNull, addWord_orNull, Option.toList_some, joinArgs, joinArgs,
        intercalate_concat _ _ hne]
      simp only [List.append_assoc]

/-- The arguments from `start` to `stop`. -/
theorem addArguments_orNull (text : Str) (start : Nat) {stop : Int} (h : stop < argv.length) :
    aliasStringAddArguments (orNull text) argv start stop =
      orNull (text ++ joinArgs ((argv.drop start).take (stop + 1 - start).toNat)) := by
  rw [aliasStringAddArguments]
  by_cases hle : start + (stop + 1 - start).toNat ≤ argv.length
  · exact addArguments_count text start _ hle
  · have hzero : (stop + 1 - start).toNat = 0 := by omega
    rw [hzero, List.take_zero, joinArgs, List.intercalate_nil, List.append_nil]
    rfl

/-! ## References -/

theorem head?_eq_some {c : Byte} (hc : c ≠ 0) (s : Str) : s.head? = some c ↔ s.getD 0 0 = c := by
  cases s with
  | nil => exact iff_of_false (fun h => by cases h) fun h => hc h.symm
  | cons b s => exact Option.some_inj

theorem argNumber_eq (s : Str) : argNumber s =
    if aliasIsArgNumber (s.getD 0 0) then some ((s.getD 0 0).toNat - (ch '0').toNat) else none := by
  cases s with
  | nil => rfl
  | cons b s =>
    rw [argNumber, List.head?_cons, Option.filter_some, List.getD_cons_zero]
    by_cases hb : aliasIsArgNumber b = true
    · rw [if_pos hb, if_pos hb]
      rfl
    · rw [if_neg hb, if_neg hb]
      rfl

/-- The number of an argument, and its place. -/
theorem argNumber_bounds {b : Byte} (h : aliasIsArgNumber b = true) :
    (ch '1').toNat ≤ b.toNat ∧ b.toNat ≤ (ch '9').toNat := by
  rw [aliasIsArgNumber, Bool.and_eq_true, decide_eq_true_eq, decide_eq_true_eq] at h
  exact ⟨UInt8.le_iff_toNat_le.mp h.1, UInt8.le_iff_toNat_le.mp h.2⟩

theorem aliasLastArg_lt (number : Byte) (argc : Nat) : aliasLastArg number argc < argc := by
  rw [aliasLastArg]
  split <;> omega

/-- Arguments up to the last one there is. -/
theorem take_lastArg {number : Byte} (h : aliasIsArgNumber number = true) (argv : List Str) (start : Nat) :
    (argv.drop start).take (aliasLastArg number argv.length + 1 - start).toNat =
      (argv.take (number.toNat - (ch '0').toNat)).drop start := by
  have hbounds := argNumber_bounds h
  have h1 : (ch '1').toNat = (ch '0').toNat + 1 := by decide
  rw [List.drop_take, List.take_eq_take_iff, List.length_drop, aliasLastArg]
  split <;> omega

/-- The last argument. -/
theorem lastArg_orNull (argv : List Str) (text : Str) :
    (if argv.length > 0 then aliasStringAddWord (orNull text) (argv.getD (argv.length - 1) []) else orNull text) =
      orNull (text ++ argv.getLast?.getD []) := by
  rw [List.getLast?_eq_getElem?]
  split
  · rw [addWord_orNull, List.getD_eq_getElem?_getD]
  · rename_i hnil
    rw [List.length_eq_zero_iff.mp (Nat.eq_zero_of_not_pos hnil)]
    exact (congrArg orNull (List.append_nil text)).symm

/-- The argument at a place. -/
theorem arg_orNull (argv : List Str) (n : Nat) (text : Str) :
    (if n < argv.length then aliasStringAddWord (orNull text) (argv.getD n []) else orNull text) =
      orNull (text ++ argv.getD n []) := by
  split
  · exact addWord_orNull _ _
  · rw [List.getD_eq_getElem?_getD, List.getElem?_eq_none (by omega), Option.getD_none, List.append_nil]

/-- The arguments from a place to the one with a number. -/
theorem range_orNull {number : Byte} (h : aliasIsArgNumber number = true) (argv : List Str) (n : Nat) (text : Str) :
    (if n < argv.length then aliasStringAddArguments (orNull text) argv n (aliasLastArg number argv.length)
      else orNull text) = orNull (text ++ joinArgs ((argv.take (number.toNat - (ch '0').toNat)).drop n)) := by
  split
  · rw [addArguments_orNull text _ (aliasLastArg_lt _ _), take_lastArg h]
  · rw [List.drop_eq_nil_of_le (by rw [List.length_take]; omega), joinArgs, List.intercalate_nil, List.append_nil]

/-- The arguments from a place on. -/
theorem onward_orNull (argv : List Str) (n : Nat) (text : Str) :
    (if n < argv.length then aliasStringAddArguments (orNull text) argv n (argv.length - 1) else orNull text) =
      orNull (text ++ joinArgs (argv.drop n)) := by
  split
  · rw [addArguments_orNull text _ (by omega), List.take_of_length_le (by rw [List.length_drop]; omega)]
  · rw [List.drop_eq_nil_of_le (by omega), joinArgs, List.intercalate_nil, List.append_nil]

/-- The reference at a place, as the code reads it. -/
theorem replaceAt_spec (userArgs : Str) (c : Byte) (s : Str) :
    match aliasReplaceAt (aliasArgs userArgs) userArgs (c :: s) with
    | some (offset, add) => ∃ part, aliasParts (c :: s) = part :: aliasParts ((c :: s).drop offset) ∧
        ∀ text, add (orNull text) = orNull (text ++ part.value userArgs)
    | none => aliasParts (c :: s) = .byte c :: aliasParts s := by
  have h1 : (ch '1').toNat = (ch '0').toNat + 1 := by decide
  have hpos1 : (c :: s).getD 1 0 = s.getD 0 0 := rfl
  have hpos2 : (c :: s).getD 2 0 = s.tail.getD 0 0 := by cases s <;> rfl
  have hpos3 : (c :: s).getD 3 0 = s.tail.tail.getD 0 0 := by rcases s with _ | ⟨_, _ | ⟨_, s⟩⟩ <;> rfl
  rw [aliasReplaceAt, aliasParts]
  simp only [hpos1, hpos2, hpos3, aliasRefAt, argNumber_eq, head?_eq_some (show ch '$' ≠ 0 by decide),
    head?_eq_some (show ch '*' ≠ 0 by decide), head?_eq_some (show ch '~' ≠ 0 by decide),
    head?_eq_some (show ch '-' ≠ 0 by decide), List.head?_cons, Option.some.injEq]
  by_cases hescape : c = ch '\\' ∧ s.getD 0 0 = ch '$'
  · simp only [if_pos hescape]
    exact ⟨.dollar, rfl, fun text => addWord_orNull text _⟩
  simp only [if_neg hescape]
  by_cases hdollar : c = ch '$'
  swap
  · simp only [if_neg hdollar]
  simp only [if_pos hdollar]
  by_cases hall : s.getD 0 0 = ch '*'
  · simp only [if_pos hall]
    exact ⟨.reference .all, rfl, fun text => addWord_orNull text _⟩
  simp only [if_neg hall]
  by_cases hlast : s.getD 0 0 = ch '~'
  · simp only [if_pos hlast]
    exact ⟨.reference .last, rfl, lastArg_orNull _⟩
  simp only [if_neg hlast]
  by_cases hminus : s.getD 0 0 = ch '-'
  · have hno : aliasIsArgNumber (ch '-') = false := by decide
    simp only [hminus, true_and, if_true, hno, Bool.false_eq_true, if_false]
    by_cases hm : aliasIsArgNumber (s.tail.getD 0 0) = true
    · simp only [hm, if_true, Option.map_some]
      refine ⟨.reference (.upTo _), rfl, fun text => ?_⟩
      have htake := take_lastArg hm (aliasArgs userArgs) 0
      rw [addArguments_orNull text 0 (aliasLastArg_lt _ _), htake]
      rfl
    · simp only [hm, Bool.false_eq_true, if_false, Option.map_none]
  simp only [hminus, false_and, if_false]
  by_cases hn : aliasIsArgNumber (s.getD 0 0) = true
  swap
  · simp only [hn, Bool.false_eq_true, if_false, Option.map_none]
  have hbounds := argNumber_bounds hn
  have hplace : (s.getD 0 0).toNat - (ch '1').toNat = (s.getD 0 0).toNat - (ch '0').toNat - 1 := by omega
  simp only [hn, if_true, Option.map_some, ne_eq, ite_not, hplace]
  by_cases hrange : s.tail.getD 0 0 = ch '-'
  · simp only [hrange, if_true]
    by_cases hm : aliasIsArgNumber (s.tail.tail.getD 0 0) = true
    · simp only [hm, if_true]
      exact ⟨.reference (.range _ _), rfl, range_orNull hm _ _⟩
    · simp only [hm, Bool.false_eq_true, if_false]
      exact ⟨.reference (.onward _), rfl, onward_orNull _ _⟩
  · simp only [hrange, if_false]
    exact ⟨.reference (.arg _), rfl, arg_orNull _ _⟩

/-! ## The text of a command -/

/-- The loop gives the text before `pos` and what the parts after it stand for. -/
theorem aliasReplaceLoop_eq (userArgs text : Str) {start pos : Str} (hpos : pos <:+ start) :
    aliasReplaceLoop (aliasArgs userArgs) userArgs (orNull text) start pos =
      orNull (text ++ strndup start (off start pos) ++ aliasText userArgs pos) := by
  induction hlength : pos.length using Nat.strongRecOn generalizing text start pos with | ind length ih => ?_
  rw [aliasReplaceLoop]
  cases pos with
  | nil =>
    rw [dif_pos rfl, aliasText, aliasParts, List.flatMap_nil, List.append_nil, strndup, off,
      List.length_nil, Nat.sub_zero,
      List.take_length]
    split
    · exact addWord_orNull text start
    · rename_i hstart
      rw [List.length_eq_zero_iff.mp (Nat.eq_zero_of_not_pos hstart), List.append_nil]
  | cons c s =>
    rw [dif_neg (List.cons_ne_nil c s)]
    have hspec := replaceAt_spec userArgs c s
    have htake : ∀ p : Str, strndup p (off p p) = [] := fun p => by rw [off, Nat.sub_self, strndup, List.take_zero]
    split
    · rename_i offset add hat
      rw [hat] at hspec
      obtain ⟨part, hparts, hadd⟩ := hspec
      have hoffset := aliasReplaceAt_offset hat
      have hlt : ((c :: s).drop offset).length < length := by
        rw [List.length_drop, ← hlength, List.length_cons]
        omega
      rw [addWordRange_orNull, hadd, ih _ hlt _ List.suffix_rfl rfl, htake, List.append_nil, aliasText, aliasText,
        hparts, List.flatMap_cons]
      simp only [List.append_assoc]
    · rename_i hat
      rw [hat] at hspec
      have htail : strndup start (off start s) = strndup start (off start (c :: s)) ++ [c] := by
        obtain ⟨before, rfl⟩ := hpos
        rw [strndup, strndup, take_off_append, List.append_cons, take_off_append]
      have hlt : s.length < length := by
        rw [← hlength]
        exact Nat.lt_succ_self _
      rw [List.tail_cons, ih _ hlt text ((List.suffix_cons c s).trans hpos) rfl, htail, aliasText, aliasText,
        hspec, List.flatMap_cons]
      simp only [List.append_assoc]
      rfl

/-- The command with the arguments of the user, NULL when nothing is left of it. -/
theorem aliasReplaceArgs_eq (command userArgs : Str) :
    aliasReplaceArgs command userArgs = orNull (aliasText userArgs command) := by
  have hargv : (stringSplit userArgs (lit " ") none ⟨true, true, true, false⟩ 0).getD [] = aliasArgs userArgs := by
    rw [stringSplit_runs _ (by decide)]
    split
    · rename_i hnil
      exact hnil.symm
    · rfl
  have hloop := aliasReplaceLoop_eq userArgs [] (List.suffix_rfl (l := command))
  rw [off, Nat.sub_self, strndup, List.take_zero] at hloop
  rw [aliasReplaceArgs, hargv]
  exact hloop

/-! ## Commands without references -/

theorem aliasParts_ne_nil (h : pos ≠ []) : aliasParts pos ≠ [] := by
  cases pos with
  | nil => exact absurd rfl h
  | cons c s =>
    rw [aliasParts]
    split
    · exact List.cons_ne_nil _ _
    · split <;> exact List.cons_ne_nil _ _

/-- Each byte stands for itself, and two bytes for an escaped `$`. -/
theorem aliasText_length (userArgs : Str) {command : Str} (h : hasReference command = false) :
    (aliasText userArgs command).length = (aliasParts command).length ∧
      (aliasParts command).length + (aliasParts command).count .dollar = command.length := by
  rw [hasReference] at h
  rw [aliasText]
  fun_induction aliasParts command with
  | case1 => exact ⟨rfl, rfl⟩
  | case2 c s hescape ih =>
    obtain ⟨h1, h2⟩ := ih h
    have hs : s.length = (s.drop 1).length + 1 := by
      cases s with
      | nil => cases hescape.2
      | cons b s => rfl
    rw [List.flatMap_cons, List.length_append, h1, List.count_cons_self, List.length_cons, List.length_cons, hs, ← h2]
    refine ⟨Nat.add_comm _ _, ?_⟩
    omega
  | case3 c s _ ref size _ ih => cases h
  | case4 c s _ _ ih =>
    obtain ⟨h1, h2⟩ := ih h
    rw [List.flatMap_cons, List.length_append, h1, List.count_cons_of_ne (by simp), List.length_cons,
      List.length_cons, ← h2]
    refine ⟨Nat.add_comm _ _, ?_⟩
    omega

theorem aliasText_ne_nil (userArgs : Str) {command : Str} (h : hasReference command = false) (hne : command ≠ []) :
    aliasText userArgs command ≠ [] := by
  have hlength := (aliasText_length userArgs h).1
  have hparts := List.length_pos_of_ne_nil (aliasParts_ne_nil hne)
  exact List.ne_nil_of_length_pos (by omega)

/-- A command without references stays the same if it has no escaped `$`. -/
theorem aliasText_eq_self (userArgs : Str) {command : Str} (h : hasReference command = false) :
    aliasText userArgs command = command ↔ AliasPart.dollar ∉ aliasParts command := by
  constructor
  · intro heq hdollar
    obtain ⟨h1, h2⟩ := aliasText_length userArgs h
    have hcount := List.count_pos_iff.mpr hdollar
    rw [heq] at h1
    omega
  · intro hdollar
    rw [hasReference] at h
    rw [aliasText]
    fun_induction aliasParts command with
    | case1 => rfl
    | case2 => exact absurd (List.mem_cons_self ..) hdollar
    | case3 => cases h
    | case4 c s _ _ ih =>
      rw [List.flatMap_cons, ih h fun hmem => hdollar (List.mem_cons_of_mem _ hmem)]
      rfl

theorem splitCommandItem_ne_nil {buffer command : Str} (h : command ∈ splitCommandItem buffer) : command ≠ [] := by
  rw [splitCommandItem] at h
  by_cases hskip : skipSpaces buffer = []
  · rw [if_neg (not_not.mpr hskip)] at h
    cases h
  · rw [if_pos hskip] at h
    rw [List.mem_singleton.mp h]
    exact hskip

theorem splitCommandLoop_ne_nil {separator : Byte} {previous : Option Byte} {buffer ptr command : Str}
    (h : command ∈ splitCommandLoop separator previous buffer ptr) : command ≠ [] := by
  induction ptr generalizing previous buffer with
  | nil => exact splitCommandItem_ne_nil h
  | cons c ptr ih =>
    rw [splitCommandLoop] at h
    split at h
    · split at h
      · exact ih h
      · rcases List.mem_append.mp h with h | h
        · exact splitCommandItem_ne_nil h
        · exact ih h
    · exact ih h

theorem aliasCommands_ne_nil {ptrAlias : Alias} {command : Str} (h : command ∈ aliasCommands ptrAlias) :
    command ≠ [] := by
  rw [aliasCommands, stringSplitCommand] at h
  split at h
  · cases h
  · exact splitCommandLoop_ne_nil h

/-! ## The commands -/

/-- What is run for a command to which nothing is appended: the command itself if
nothing is left of it. -/
theorem getD_orNull {text command : Str} (hne : command ≠ []) : (orNull text).getD command = text ↔ text ≠ [] := by
  rw [orNull]
  split
  · rename_i htext
    rw [htext]
    exact iff_of_false hne fun h => h rfl
  · rename_i htext
    exact iff_of_true rfl htext

theorem orNull_any (text command : Str) :
    ((orNull text).any fun argsReplaced => strcmp argsReplaced command ≠ 0) = decide (text ≠ [] ∧ text ≠ command) := by
  rw [orNull]
  split
  · rename_i htext
    exact (decide_eq_false fun h => h.1 htext).symm
  · rename_i htext
    rw [Option.any_some]
    exact decide_eq_decide.mpr ⟨fun h => ⟨htext, fun heq => h (strcmp_order.eq_iff.mpr heq)⟩,
      fun h heq => h.2 (strcmp_order.eq_iff.mp heq)⟩

/-- The first of the commands, when nothing is appended to it. -/
theorem aliasRunCommands_cons (commandChars : Str) (argvEol1 : Option Str) (someArgsReplaced : Bool) (command : Str)
    (nextCommands : List Str) (h : argvEol1 = none ∨ nextCommands ≠ []) :
    aliasRunCommands commandChars argvEol1 someArgsReplaced (command :: nextCommands) =
      ((if stringIsCommandChar commandChars command then [] else lit "/") ++
          (orNull (aliasText (argvEol1.getD []) command)).getD command) ::
        aliasRunCommands commandChars argvEol1
          (someArgsReplaced ||
            decide (aliasText (argvEol1.getD []) command ≠ [] ∧ aliasText (argvEol1.getD []) command ≠ command))
          nextCommands := by
  rw [← orNull_any, ← aliasReplaceArgs_eq]
  cases nextCommands with
  | nil =>
    cases argvEol1 with
    | none => rfl
    | some args => exact absurd rfl (h.resolve_left fun h => by cases h)
  | cons next nextCommands => rfl

/-- The last command, when there are arguments. -/
theorem aliasRunCommands_last (commandChars args : Str) (someArgsReplaced : Bool) (command : Str) :
    aliasRunCommands commandChars (some args) someArgsReplaced [command] =
      [(if stringIsCommandChar commandChars command then [] else lit "/") ++
        if someArgsReplaced = true ∨ aliasText args command ≠ [] ∧ aliasText args command ≠ command then
          (orNull (aliasText args command)).getD command
        else command ++ lit " " ++ args] := by
  have hany : someArgsReplaced = true ∨ aliasText args command ≠ [] ∧ aliasText args command ≠ command ↔
      (someArgsReplaced || (orNull (aliasText args command)).any fun argsReplaced => strcmp argsReplaced command ≠ 0) =
        true := by
    rw [orNull_any, Bool.or_eq_true, decide_eq_true_eq]
  rw [if_congr hany rfl rfl, ← aliasReplaceArgs_eq, aliasRunCommands, aliasRunCommands]
  dsimp only [Option.getD_some]
  split <;> split <;> simp_all

/-- The last command is right if it is not empty and what was replaced are the references. -/
theorem lastCommand_iff {command text args : Str} {references : Bool} {someArgsReplaced : Prop}
    [Decidable someArgsReplaced]
    (hcommand : command ≠ []) (htext : references = false → text ≠ []) :
    (if someArgsReplaced ∨ text ≠ [] ∧ text ≠ command then (orNull text).getD command else command ++ lit " " ++ args) =
        text ++ (if references then [] else lit " " ++ args) ↔
      text ≠ [] ∧ ((someArgsReplaced ∨ text ≠ command) ↔ references = true) := by
  have happended : (if references then [] else lit " " ++ args) = [] ↔ references = true := by
    cases references with
    | true => exact iff_of_true rfl rfl
    | false => exact iff_of_false (List.cons_ne_nil _ _) fun h => by cases h
  by_cases hempty : text = []
  · -- only references can be replaced with nothing
    have hreferences : references = true := Bool.eq_true_of_not_eq_false fun h => htext h hempty
    refine iff_of_false (fun h => ?_) fun h => h.1 hempty
    rw [hreferences, if_pos rfl, List.append_nil, hempty] at h
    split at h
    · exact hcommand h
    · exact hcommand (List.append_eq_nil_iff.mp (List.append_eq_nil_iff.mp h).1).1
  · have hseen : someArgsReplaced ∨ text ≠ [] ∧ text ≠ command ↔ someArgsReplaced ∨ text ≠ command :=
      or_congr_right (and_iff_right hempty)
    rw [if_congr hseen rfl rfl, and_iff_right hempty]
    by_cases hreplaced : someArgsReplaced ∨ text ≠ command
    · rw [if_pos hreplaced, (getD_orNull hcommand).mpr hempty, iff_true_left hreplaced]
      exact List.self_eq_append_right.trans happended
    · have htext : text = command := not_not.mp fun h => hreplaced (.inr h)
      rw [if_neg hreplaced, iff_false_left hreplaced, htext, List.append_assoc, List.append_right_inj]
      cases references with
      | true => exact iff_of_false (List.cons_ne_nil _ _) fun h => h rfl
      | false => exact iff_of_true rfl fun h => by cases h

/-- The commands that are run are those with the arguments if none is empty and the
replacements seen by the code are the references. -/
theorem aliasRunCommands_iff (commandChars : Str) (argvEol1 : Option Str) (references : Bool) (commands : List Str)
    (hne : ∀ command ∈ commands, command ≠ [])
    (htext : references = false → ∀ command ∈ commands, aliasText (argvEol1.getD []) command ≠ [])
    (someArgsReplaced : Bool) :
    aliasRunCommands commandChars argvEol1 someArgsReplaced commands =
        aliasTexts commandChars (argvEol1.getD []) (if references then [] else argvEol1.elim [] fun args => lit " " ++ args)
          commands ↔
      (∀ command ∈ commands, aliasText (argvEol1.getD []) command ≠ []) ∧
        (argvEol1.isSome = true → commands ≠ [] →
          ((someArgsReplaced = true ∨ ∃ command ∈ commands, aliasText (argvEol1.getD []) command ≠ command) ↔
            references = true)) := by
  induction commands generalizing someArgsReplaced with
  | nil => exact iff_of_true rfl ⟨fun _ h => (List.not_mem_nil h).elim, fun _ h => absurd rfl h⟩
  | cons command nextCommands ih =>
    have hcommand := hne command (List.mem_cons_self ..)
    have htextCommand : references = false → aliasText (argvEol1.getD []) command ≠ [] := fun h =>
      htext h command (List.mem_cons_self ..)
    specialize ih (fun c hc => hne c (List.mem_cons_of_mem _ hc)) fun h c hc => htext h c (List.mem_cons_of_mem _ hc)
    rw [aliasTexts, List.forall_mem_cons, List.exists_mem_cons_iff]
    by_cases hnext : argvEol1 = none ∨ nextCommands ≠ []
    · have happended : (if nextCommands = [] then
          if references then [] else argvEol1.elim [] fun args => lit " " ++ args else []) = ([] : Str) := by
        rcases hnext with rfl | hnext
        · rw [Option.elim_none, ite_self, ite_self]
        · exact if_neg hnext
      rw [aliasRunCommands_cons _ _ _ _ _ hnext, List.cons.injEq, List.append_right_inj, happended, List.append_nil,
        getD_orNull hcommand, ih, and_assoc, Bool.or_eq_true, decide_eq_true_eq]
      refine and_congr_right fun hne => and_congr_right fun _ => forall_congr' fun hargs => ?_
      have hnext : nextCommands ≠ [] := hnext.resolve_left fun h => by
        rw [h] at hargs
        cases hargs
      rw [forall_prop_of_true hnext, forall_prop_of_true (List.cons_ne_nil _ _), and_iff_right hne, or_assoc]
    · rw [not_or, not_not] at hnext
      obtain ⟨args, rfl⟩ := Option.ne_none_iff_exists'.mp hnext.1
      rw [Option.getD_some] at htextCommand
      rw [hnext.2, aliasRunCommands_last, aliasTexts, List.cons.injEq, List.append_right_inj, if_pos rfl,
        Option.elim_some,
        Option.getD_some, lastCommand_iff hcommand htextCommand]
      simp

/-- An alias that is not running runs what it says if and only if no command is empty
after the replacement and `strcmp` sees what was replaced. -/
theorem aliasCb_iff (commandChars command : Str) (argvEol1 : Option Str) :
    aliasCb commandChars ⟨command, false⟩ argvEol1 = aliasSays commandChars ⟨command, false⟩ argvEol1 ↔
      AliasPlain ⟨command, false⟩ argvEol1 := by
  have hiff := aliasRunCommands_iff commandChars argvEol1 ((aliasCommands ⟨command, false⟩).any hasReference)
    (aliasCommands ⟨command, false⟩) (fun _ h => aliasCommands_ne_nil h)
    (fun h c hc => aliasText_ne_nil _ (Bool.eq_false_iff.mpr fun href => (Bool.eq_false_iff.mp h)
      (List.any_eq_true.mpr ⟨c, hc, href⟩)) (aliasCommands_ne_nil hc)) false
  refine hiff.trans (and_congr_right fun _ => forall_congr' fun _ => ?_)
  rw [or_iff_right Bool.false_ne_true]
  by_cases href : (aliasCommands ⟨command, false⟩).any hasReference = true
  · rw [if_pos href, iff_true_right href]
    refine ⟨fun h => h fun hnil => ?_, fun h _ => h⟩
    rw [hnil] at href
    cases href
  · rw [if_neg href, iff_false_right href]
    constructor
    · intro h c hc
      have hnone : hasReference c = false := Bool.eq_false_iff.mpr fun hr => href (List.any_eq_true.mpr ⟨c, hc, hr⟩)
      refine (aliasText_eq_self (argvEol1.getD []) hnone).mp (not_not.mp fun hne => ?_)
      exact h (List.ne_nil_of_mem hc) ⟨c, hc, hne⟩
    · rintro h - ⟨c, hc, hne⟩
      have hnone : hasReference c = false := Bool.eq_false_iff.mpr fun hr => href (List.any_eq_true.mpr ⟨c, hc, hr⟩)
      exact hne ((aliasText_eq_self _ hnone).mpr (h c hc))

/-- `\$x` has no reference, and the argument is lost. `$1` without arguments is run as it is.
`$1` with itself as argument gets it a second time. -/
theorem aliasCb_fails :
    (aliasCb [] ⟨lit "/say \\$x", false⟩ (some (lit "hi")) = [lit "/say $x"] ∧
      aliasSays [] ⟨lit "/say \\$x", false⟩ (some (lit "hi")) = [lit "/say $x hi"]) ∧
    (aliasCb [] ⟨lit "$1", false⟩ none = [lit "/$1"] ∧ aliasSays [] ⟨lit "$1", false⟩ none = [lit "/"]) ∧
    aliasCb [] ⟨lit "/say $1", false⟩ (some (lit "$1")) = [lit "/say $1 $1"] ∧
      aliasSays [] ⟨lit "/say $1", false⟩ (some (lit "$1")) = [lit "/say $1"] := by
  decide +kernel

end

end Wirc

import WhoreIrc.Proof.StringSplit
import WhoreIrc.Spec.IrcMode

/-!
# The modes of a channel

The string of a channel is made of entries, each a mode with its argument if its
type asks for one (`entriesText`). A change of a mode changes the entries
(`channelUpdate_entries`), and the entries are what is read in the string
(`readBack_entries`). From this, when the string is the map of the changes
(`channelModes_faithful_iff`).
-/

namespace Wirc

open Framework

/-! ## Words with a space between them -/

theorem space_isIn : isIn (lit " ") (ch ' ') = true := by decide

/-- Something that is not empty, without a space. -/
def IsWordText (s : Str) : Prop := s ≠ [] ∧ ∀ c ∈ s, isIn (lit " ") c = false

def joinWords (words : List Str) : Str := List.intercalate [ch ' '] words

theorem joinWords_cons_cons (w w' : Str) (words : List Str) :
    joinWords (w :: w' :: words) = w ++ ch ' ' :: joinWords (w' :: words) := by
  simp [joinWords, List.intercalate]

theorem joinWords_singleton (w : Str) : joinWords [w] = w := by simp [joinWords, List.intercalate]

theorem joinWords_eq_nil {words : List Str} (hwords : ∀ w ∈ words, IsWordText w) :
    joinWords words = [] ↔ words = [] := by
  cases words with
  | nil => exact ⟨fun _ => rfl, fun _ => rfl⟩
  | cons w words =>
    have hw := (hwords w (List.mem_cons_self ..)).1
    refine ⟨fun h => ?_, fun h => by cases h⟩
    cases words with
    | nil =>
      rw [joinWords_singleton] at h
      exact absurd h hw
    | cons w' words =>
      rw [joinWords_cons_cons] at h
      exact absurd (List.append_eq_nil_iff.mp h).1 hw

/-- An argument is added after the others. -/
theorem addArgument_joinWords {words : List Str} (hwords : ∀ w ∈ words, IsWordText w) (argument : Option Str) :
    addArgument (joinWords words) argument = joinWords (words ++ argument.toList) := by
  cases argument with
  | none =>
    rw [Option.toList_none, List.append_nil]
    rfl
  | some a =>
    rw [addArgument, Option.toList_some]
    by_cases hnil : words = []
    · rw [hnil, List.nil_append, joinWords_singleton]
      rfl
    · rw [if_neg fun h => hnil ((joinWords_eq_nil hwords).mp h)]
      clear hwords
      induction words with
      | nil => exact absurd rfl hnil
      | cons w words ih =>
        cases words with
        | nil =>
          rw [joinWords_singleton, List.singleton_append, joinWords_cons_cons, joinWords_singleton, List.append_assoc]
          rfl
        | cons w' words =>
          have ih := ih (List.cons_ne_nil _ _)
          rw [List.cons_append] at ih
          rw [joinWords_cons_cons, List.cons_append, List.cons_append, joinWords_cons_cons, ← ih, List.append_assoc,
            List.append_assoc, List.cons_append, List.append_assoc]

/-! ## Entries -/

abbrev ModeEntry := Byte × Option Str

def entryLetters (entries : List ModeEntry) : Str := entries.map Prod.fst

def entryArguments (entries : List ModeEntry) : List Str := entries.filterMap Prod.snd

theorem entryLetters_cons (letter : Byte) (argument : Option Str) (entries : List ModeEntry) :
    entryLetters ((letter, argument) :: entries) = letter :: entryLetters entries := rfl

theorem entryArguments_cons (letter : Byte) (argument : Option Str) (entries : List ModeEntry) :
    entryArguments ((letter, argument) :: entries) = argument.toList ++ entryArguments entries := by
  cases argument with
  | none => rfl
  | some a => rfl

theorem entryLetters_append (entries entries' : List ModeEntry) :
    entryLetters (entries ++ entries') = entryLetters entries ++ entryLetters entries' := List.map_append

theorem entryArguments_append (entries entries' : List ModeEntry) :
    entryArguments (entries ++ entries') = entryArguments entries ++ entryArguments entries' := List.filterMap_append

/-- The string of a channel. -/
def entriesText (entries : List ModeEntry) : Str :=
  ch '+' :: entryLetters entries ++
    if entryArguments entries = [] then [] else ch ' ' :: joinWords (entryArguments entries)

/-- A letter that is no flag. -/
def IsModeLetter (c : Byte) : Prop := c ≠ ch '+' ∧ c ≠ ch '-' ∧ c ≠ ch ' '

section

variable (server : IrcServerModes)

/-- A mode with an argument if its type asks for one. -/
structure EntryOk (entry : ModeEntry) : Prop where
  letter : IsModeLetter entry.1
  argument : entry.2 = none ↔ ircModeGetChanmodeType server entry.1 = .D
  word : ∀ a, entry.2 = some a → IsWordText a

structure EntriesOk (entries : List ModeEntry) : Prop where
  nodup : (entryLetters entries).Nodup
  entry : ∀ entry ∈ entries, EntryOk server entry

variable {server} {entries : List ModeEntry}

theorem EntriesOk.words (hok : EntriesOk server entries) : ∀ w ∈ entryArguments entries, IsWordText w := fun w hw => by
  obtain ⟨entry, hentry, hsome⟩ := List.mem_filterMap.mp hw
  exact (hok.entry entry hentry).word w hsome

theorem EntriesOk.tail {entry : ModeEntry} (hok : EntriesOk server (entry :: entries)) : EntriesOk server entries :=
  ⟨(List.nodup_cons.mp hok.nodup).2, fun e he => hok.entry e (List.mem_cons_of_mem _ he)⟩

/-! ## Reading the string -/

theorem readModes_entries (hok : ∀ entry ∈ entries, EntryOk server entry) :
    readModes server (entryLetters entries) (entryArguments entries) = (entries, []) := by
  induction entries with
  | nil => rfl
  | cons entry entries ih =>
    obtain ⟨hletter, hargument, -⟩ := hok entry (List.mem_cons_self ..)
    have ih := ih fun e he => hok e (List.mem_cons_of_mem _ he)
    obtain ⟨letter, argument⟩ := entry
    rw [entryLetters_cons, entryArguments_cons, readModes, if_neg hletter.1]
    cases argument with
    | none =>
      rw [if_pos (hargument.mp rfl), Option.toList_none, List.nil_append, ih]
    | some a =>
      have htype : ircModeGetChanmodeType server letter ≠ .D := fun h => by
        have hnone := hargument.mpr h
        cases hnone
      rw [if_neg htype, Option.toList_some, List.singleton_append, List.tail_cons, ih]
      rfl

theorem letters_no_space (hok : ∀ entry ∈ entries, EntryOk server entry) : ch ' ' ∉ ch '+' :: entryLetters entries :=
  fun h => by
    rcases List.mem_cons.mp h with h | h
    · exact absurd h (by decide)
    · obtain ⟨entry, hentry, heq⟩ := List.mem_map.mp h
      exact (hok entry hentry).letter.2.2 heq

/-- The string up to its first space, and after it. -/
theorem entriesText_split (hok : ∀ entry ∈ entries, EntryOk server entry) :
    (entriesText entries).takeWhile (· ≠ ch ' ') = ch '+' :: entryLetters entries ∧
      (entriesText entries).dropWhile (· ≠ ch ' ') =
        if entryArguments entries = [] then [] else ch ' ' :: joinWords (entryArguments entries) := by
  have hall : ∀ c ∈ ch '+' :: entryLetters entries, decide (c ≠ ch ' ') = true := fun c hc =>
    decide_eq_true fun h => letters_no_space hok (h ▸ hc)
  rw [entriesText, List.takeWhile_append_of_pos hall, List.dropWhile_append_of_pos hall]
  split
  · exact ⟨List.append_nil _, rfl⟩
  · rw [List.takeWhile_cons_of_neg (by decide), List.dropWhile_cons_of_neg (by decide), List.append_nil]
    exact ⟨rfl, rfl⟩

/-- What is read in the string are its entries. -/
theorem readBack_entries (hok : EntriesOk server entries) :
    readBack server (some (entriesText entries)) = (entries, []) := by
  obtain ⟨htake, hdrop⟩ := entriesText_split hok.entry
  have hwords : modeWords (if entryArguments entries = [] then [] else ch ' ' :: joinWords (entryArguments entries)) =
      entryArguments entries := by
    rw [modeWords]
    split
    · rename_i hnil
      rw [hnil, runs_nil]
    · rw [runs_cons_sep _ space_isIn]
      exact runs_intercalate space_isIn hok.words
  rw [readBack, Option.getD_some, htake, hdrop, hwords, readModes, if_pos rfl]
  exact readModes_entries hok.entry

/-! ## A change of a mode -/

variable (change : ModeChange)

/-- What an entry becomes. -/
def changedEntry (entry : ModeEntry) : Option ModeEntry :=
  if entry.1 = change.mode then (if change.set then some (change.mode, change.argument) else none) else some entry

/-- What the entries become. -/
def changedEntries (entries : List ModeEntry) : List ModeEntry :=
  if change.mode ∈ entryLetters entries then entries.filterMap (changedEntry change)
  else if change.set then
    match change.argument with
    | some _ => entries ++ [(change.mode, change.argument)]
    | none => (change.mode, none) :: entries
  else entries

variable (server) in
/-- A change of a mode with an argument as its type asks for. -/
structure ChangeOk : Prop where
  letter : IsModeLetter change.mode
  argument : change.set = true → (change.argument = none ↔ ircModeGetChanmodeType server change.mode = .D)
  word : ∀ a, change.argument = some a → IsWordText a

variable {change}

theorem ChangeOk.entry (hchange : ChangeOk server change) (hset : change.set = true) :
    EntryOk server (change.mode, change.argument) := ⟨hchange.letter, hchange.argument hset, hchange.word⟩

theorem changedEntry_cases {entry entry' : ModeEntry} (h : changedEntry change entry = some entry') :
    (entry' = entry ∧ entry.1 ≠ change.mode) ∨
      (entry.1 = change.mode ∧ change.set = true ∧ entry' = (change.mode, change.argument)) := by
  rw [changedEntry] at h
  split at h
  · rename_i hmode
    split at h
    · rename_i hset
      cases h
      exact .inr ⟨hmode, hset, rfl⟩
    · cases h
  · rename_i hmode
    cases h
    exact .inl ⟨rfl, hmode⟩

/-- The loop on the letters of entries. -/
theorem updateLoop_entries (hchange : ChangeOk server change) (hok : ∀ entry ∈ entries, EntryOk server entry)
    (newModes : Str) {words : List Str} (hwords : ∀ w ∈ words, IsWordText w) (found : Bool) :
    ircModeChannelUpdateLoop server change.set change.mode change.argument (entryLetters entries)
        (entryArguments entries) (newModes, joinWords words, found) =
      (newModes ++ entryLetters (entries.filterMap (changedEntry change)),
        joinWords (words ++ entryArguments (entries.filterMap (changedEntry change))),
        found || decide (change.mode ∈ entryLetters entries)) := by
  induction entries generalizing newModes words found with
  | nil =>
    rw [List.filterMap_nil]
    simp [ircModeChannelUpdateLoop, entryLetters, entryArguments]
  | cons entry entries ih =>
    obtain ⟨hletter, hargument, hword⟩ := hok entry (List.mem_cons_self ..)
    have ih := fun newModes {words} => @ih (fun e he => hok e (List.mem_cons_of_mem _ he)) newModes words
    obtain ⟨letter, argument⟩ := entry
    have hargv : (if ircModeGetChanmodeType server letter = .D then none
        else (argument.toList ++ entryArguments entries).head?) = argument ∧
        (if argument.isSome then (argument.toList ++ entryArguments entries).tail
          else argument.toList ++ entryArguments entries) = entryArguments entries := by
      cases argument with
      | none =>
        rw [if_pos (hargument.mp rfl)]
        exact ⟨rfl, rfl⟩
      | some a =>
        have htype : ircModeGetChanmodeType server letter ≠ .D := fun h => by
          have hnone := hargument.mpr h
          cases hnone
        rw [if_neg htype]
        exact ⟨rfl, rfl⟩
    have hadd : ∀ argument : Option Str, (∀ a, argument = some a → IsWordText a) →
        ∀ w ∈ words ++ argument.toList, IsWordText w := fun argument hword w hw =>
      (List.mem_append.mp hw).elim (hwords w) fun hw => hword w (Option.mem_toList.mp hw)
    rw [entryLetters_cons, entryArguments_cons, ircModeChannelUpdateLoop,
      if_neg (not_or.mpr ⟨hletter.1, hletter.2.1⟩)]
    dsimp only
    rw [hargv.1, hargv.2, List.filterMap_cons, changedEntry]
    dsimp only
    by_cases hmode : letter = change.mode
    · have hfound : change.mode ∈ letter :: entryLetters entries := hmode ▸ List.mem_cons_self ..
      rw [if_pos hmode, if_pos hmode, decide_eq_true hfound, Bool.or_true]
      by_cases hset : change.set = true
      · rw [if_pos hset, if_pos hset, addArgument_joinWords hwords, ih _ (hadd _ hchange.word), Bool.true_or]
        dsimp only
        rw [entryLetters_cons, entryArguments_cons, hmode, List.append_assoc, List.append_assoc, List.singleton_append]
      · rw [if_neg hset, if_neg hset, ih _ hwords, Bool.true_or]
    · have hfound : change.mode ∈ letter :: entryLetters entries ↔ change.mode ∈ entryLetters entries :=
        ⟨fun h => (List.mem_cons.mp h).resolve_left (Ne.symm hmode), List.mem_cons_of_mem _⟩
      rw [if_neg hmode, if_neg hmode, addArgument_joinWords hwords, ih _ (hadd _ hword), decide_eq_decide.mpr hfound]
      dsimp only
      rw [entryLetters_cons, entryArguments_cons, List.append_assoc, List.append_assoc, List.singleton_append]

theorem filterMap_changedEntry_of_notMem (h : change.mode ∉ entryLetters entries) :
    entries.filterMap (changedEntry change) = entries := by
  induction entries with
  | nil => rfl
  | cons entry entries ih =>
    obtain ⟨letter, argument⟩ := entry
    rw [entryLetters_cons, List.mem_cons, not_or] at h
    have hkept : changedEntry change (letter, argument) = some (letter, argument) := if_neg (Ne.symm h.1)
    rw [List.filterMap_cons_some hkept, ih h.2]

theorem notMem_of_letters {mode : Byte} (h : mode ∉ entryLetters entries) (argument : Option Str) :
    (mode, argument) ∉ entries := fun hmem => h (List.mem_map_of_mem hmem)

/-- What is an entry after a change. -/
theorem mem_changedEntries (mode : Byte) (argument : Option Str) :
    (mode, argument) ∈ changedEntries change entries ↔
      if mode = change.mode then change.set = true ∧ argument = change.argument else (mode, argument) ∈ entries := by
  rw [changedEntries]
  by_cases hfound : change.mode ∈ entryLetters entries
  · rw [if_pos hfound, List.mem_filterMap]
    split
    · rename_i hmode
      constructor
      · rintro ⟨entry, -, hentry⟩
        rcases changedEntry_cases hentry with ⟨hsame, hne⟩ | ⟨-, hset, hsame⟩
        · rw [← hsame] at hne
          exact absurd hmode hne
        · exact ⟨hset, (Prod.ext_iff.mp hsame).2⟩
      · rintro ⟨hset, rfl⟩
        obtain ⟨entry, hentry, hletter⟩ := List.mem_map.mp hfound
        refine ⟨entry, hentry, ?_⟩
        rw [changedEntry, if_pos hletter, if_pos hset, hmode]
    · rename_i hmode
      constructor
      · rintro ⟨entry, hentry, hchanged⟩
        rcases changedEntry_cases hchanged with ⟨hsame, -⟩ | ⟨-, -, hsame⟩
        · rwa [hsame]
        · exact absurd (Prod.ext_iff.mp hsame).1 hmode
      · exact fun hmem => ⟨_, hmem, if_neg hmode⟩
  · rw [if_neg hfound]
    have hnew : ∀ argument', (mode, argument) ∈ entries ∨ (mode, argument) = (change.mode, argument') ↔
        if mode = change.mode then argument = argument' else (mode, argument) ∈ entries := fun argument' => by
      rw [Prod.mk.injEq]
      split
      · rename_i hmode
        rw [hmode]
        exact ⟨fun h => (h.resolve_left (notMem_of_letters hfound argument)).2, fun h => .inr ⟨rfl, h⟩⟩
      · rename_i hmode
        exact ⟨fun h => h.resolve_right fun h => hmode h.1, .inl⟩
    by_cases hset : change.set = true
    · rw [if_pos hset]
      simp only [hset, true_and]
      rw [← hnew]
      cases change.argument with
      | some a => rw [List.mem_append, List.mem_singleton]
      | none => rw [List.mem_cons, or_comm]
    · rw [if_neg hset]
      split
      · rename_i hmode
        rw [hmode]
        exact ⟨fun h => absurd h (notMem_of_letters hfound argument), fun h => absurd h.1 hset⟩
      · exact Iff.rfl

theorem letters_filterMap_sublist :
    (entryLetters (entries.filterMap (changedEntry change))).Sublist (entryLetters entries) := by
  induction entries with
  | nil => exact List.Sublist.refl _
  | cons entry entries ih =>
    obtain ⟨letter, argument⟩ := entry
    cases hchanged : changedEntry change (letter, argument) with
    | none =>
      rw [List.filterMap_cons_none hchanged]
      exact ih.cons _
    | some entry' =>
      obtain ⟨letter', argument'⟩ := entry'
      have hletter : letter' = letter := by
        rcases changedEntry_cases hchanged with ⟨hsame, -⟩ | ⟨hmode, -, hsame⟩
        · exact (Prod.ext_iff.mp hsame).1
        · exact (Prod.ext_iff.mp hsame).1.trans hmode.symm
      rw [List.filterMap_cons_some hchanged, entryLetters_cons, entryLetters_cons, hletter]
      exact ih.cons_cons _

theorem EntriesOk.changed (hok : EntriesOk server entries) (hchange : ChangeOk server change) :
    EntriesOk server (changedEntries change entries) where
  nodup := by
    rw [changedEntries]
    by_cases hfound : change.mode ∈ entryLetters entries
    · rw [if_pos hfound]
      exact hok.nodup.sublist letters_filterMap_sublist
    · rw [if_neg hfound]
      split
      · cases change.argument with
        | some a =>
          dsimp only
          rw [entryLetters_append]
          exact List.nodup_append.mpr ⟨hok.nodup, List.pairwise_singleton _ _, fun letter hletter letter' hletter' heq =>
            hfound (by rwa [heq, List.mem_singleton.mp hletter'] at hletter)⟩
        | none => exact List.nodup_cons.mpr ⟨hfound, hok.nodup⟩
      · exact hok.nodup
  entry entry hentry := by
    obtain ⟨mode, argument⟩ := entry
    have hmem := (mem_changedEntries mode argument).mp hentry
    split at hmem
    · rename_i hmode
      rw [hmode, hmem.2]
      exact hchange.entry hmem.1
    · exact hok.entry _ hmem

/-! ### Sizes -/

/-- The size of words, each with a byte after it. -/
def wordsSize : List Str → Nat
  | [] => 0
  | w :: words => w.length + 1 + wordsSize words

theorem joinWords_length (words : List Str) : (joinWords words).length = wordsSize words - 1 := by
  induction words with
  | nil => rfl
  | cons w words ih =>
    cases words with
    | nil =>
      rw [joinWords_singleton]
      rfl
    | cons w' words =>
      rw [joinWords_cons_cons, List.length_append, List.length_cons, ih]
      simp only [wordsSize]
      omega

theorem wordsSize_append (words words' : List Str) :
    wordsSize (words ++ words') = wordsSize words + wordsSize words' := by
  induction words with
  | nil => exact (Nat.zero_add _).symm
  | cons w words ih =>
    rw [List.cons_append, wordsSize, wordsSize, ih]
    omega

/-- The arguments of entries with a change of one of them. -/
theorem wordsSize_changed (hnodup : (entryLetters entries).Nodup) :
    wordsSize (entryArguments (entries.filterMap (changedEntry change))) ≤
      wordsSize (entryArguments entries) + wordsSize change.argument.toList := by
  induction entries with
  | nil => exact Nat.zero_le _
  | cons entry entries ih =>
    obtain ⟨letter, argument⟩ := entry
    rw [entryLetters_cons, List.nodup_cons] at hnodup
    have ih := ih hnodup.2
    rw [entryArguments_cons, wordsSize_append]
    by_cases hmode : letter = change.mode
    · have hrest : entries.filterMap (changedEntry change) = entries :=
        filterMap_changedEntry_of_notMem (hmode ▸ hnodup.1)
      rw [List.filterMap_cons, changedEntry, if_pos hmode, hrest]
      split
      · omega
      · rename_i entry' hentry'
        split at hentry'
        · cases hentry'
          rw [entryArguments_cons, wordsSize_append]
          omega
        · cases hentry'
    · have hkept : changedEntry change (letter, argument) = some (letter, argument) := if_neg hmode
      rw [List.filterMap_cons_some hkept, entryArguments_cons, wordsSize_append]
      omega

/-- A change adds one letter and one argument at most. -/
theorem changedEntries_sizes (hok : EntriesOk server entries) :
    (entryLetters (changedEntries change entries)).length ≤ (entryLetters entries).length + 1 ∧
      wordsSize (entryArguments (changedEntries change entries)) ≤
        wordsSize (entryArguments entries) + wordsSize change.argument.toList := by
  rw [changedEntries]
  split
  · exact ⟨Nat.le_succ_of_le letters_filterMap_sublist.length_le, wordsSize_changed hok.nodup⟩
  · split
    · cases change.argument with
      | some a =>
        dsimp only
        rw [entryLetters_append, entryArguments_append, List.length_append, wordsSize_append]
        exact ⟨Nat.le_refl _, Nat.le_refl _⟩
      | none => exact ⟨Nat.le_refl _, Nat.le_refl _⟩
    · exact ⟨Nat.le_succ _, Nat.le_add_right _ _⟩

variable {Nicks : Type}

/-- The parts of the string that a change reads. -/
theorem entriesText_parts (hok : EntriesOk server entries) :
    channelModesParts (entriesText entries) = (ch '+' :: entryLetters entries, joinWords (entryArguments entries)) ∧
      (stringSplit (joinWords (entryArguments entries)) (lit " ") none ⟨true, true, true, false⟩ 0).getD [] =
        entryArguments entries := by
  have hspace := letters_no_space hok.entry
  constructor
  · rw [channelModesParts, entriesText]
    by_cases hnil : entryArguments entries = []
    · rw [if_pos hnil, List.append_nil, strchr_none.mpr hspace, hnil]
      rfl
    · rw [if_neg hnil, strchr_append hspace, strchr, if_pos rfl]
      dsimp only
      rw [strndup, take_off_append, List.tail_cons]
      obtain ⟨w, words, hwords⟩ := List.exists_cons_of_ne_nil hnil
      have hw := hok.words w (hwords ▸ List.mem_cons_self ..)
      obtain ⟨c, w, rfl⟩ := List.exists_cons_of_ne_nil hw.1
      have hc : c ≠ ch ' ' := fun h => by
        have := hw.2 c (List.mem_cons_self ..)
        rw [h, space_isIn] at this
        cases this
      have hskip : skipSpaces (joinWords ((c :: w) :: words)) = joinWords ((c :: w) :: words) := by
        cases words with
        | nil =>
          rw [joinWords_singleton]
          exact List.dropWhile_cons_of_neg (by rwa [decide_eq_true_eq])
        | cons w' words =>
          rw [joinWords_cons_cons]
          exact List.dropWhile_cons_of_neg (by rwa [decide_eq_true_eq])
      rw [hwords, hskip]
  · rw [stringSplit_runs _ (by decide), joinWords, runs_intercalate space_isIn hok.words]
    split
    · rename_i hnil
      rw [hnil]
      rfl
    · rfl

/-- `irc_mode_channel_update` changes the entries of the string, and its buffers are
long enough. -/
theorem channelUpdate_entries (hok : EntriesOk server entries) (hchange : ChangeOk server change)
    {channel : IrcChannel Nicks} (hmodes : channel.modes.getD (lit "+") = entriesText entries) :
    ircModeChannelUpdate server channel change.set change.mode change.argument =
      { channel with modes := some (entriesText (changedEntries change entries)) } := by
  obtain ⟨hparts, hargv⟩ := entriesText_parts hok
  have hchanged := hok.changed hchange
  have hloop : ircModeChannelUpdateLoop server change.set change.mode change.argument
      (ch '+' :: entryLetters entries) (entryArguments entries) ([], [], false) =
        (ch '+' :: entryLetters (entries.filterMap (changedEntry change)),
          joinWords (entryArguments (entries.filterMap (changedEntry change))),
          decide (change.mode ∈ entryLetters entries)) := by
    rw [ircModeChannelUpdateLoop, if_pos (.inl rfl)]
    exact updateLoop_entries hchange hok.entry [ch '+'] (fun w hw => absurd hw List.not_mem_nil) false
  have hbuilt : addChanmode change.set change.mode change.argument
      (ch '+' :: entryLetters (entries.filterMap (changedEntry change)),
        joinWords (entryArguments (entries.filterMap (changedEntry change))),
        decide (change.mode ∈ entryLetters entries)) =
          (ch '+' :: entryLetters (changedEntries change entries),
            joinWords (entryArguments (changedEntries change entries))) := by
    unfold addChanmode changedEntries
    dsimp only
    by_cases hfound : change.mode ∈ entryLetters entries
    · rw [if_pos hfound, if_neg fun h => by rw [decide_eq_true hfound] at h; cases h.1]
    · rw [if_neg hfound, filterMap_changedEntry_of_notMem hfound, decide_eq_false hfound]
      by_cases hset : change.set = true
      · rw [if_pos ⟨rfl, hset⟩, if_pos hset, addArgument_joinWords hok.words]
        cases change.argument with
        | some a =>
          dsimp only
          rw [entryLetters_append, entryArguments_append]
          rfl
        | none =>
          have hplus : (entryLetters entries).takeWhile (· = ch '+') = [] ∧
              (entryLetters entries).dropWhile (· = ch '+') = entryLetters entries := by
            cases entries with
            | nil => exact ⟨rfl, rfl⟩
            | cons entry entries =>
              have hletter := (hok.entry entry (List.mem_cons_self ..)).letter.1
              exact ⟨List.takeWhile_cons_of_neg (by rwa [decide_eq_true_eq]),
                List.dropWhile_cons_of_neg (by rwa [decide_eq_true_eq])⟩
          dsimp only
          rw [List.takeWhile_cons_of_pos (by decide), List.dropWhile_cons_of_pos (by decide), hplus.1, hplus.2,
            entryLetters_cons, entryArguments_cons, Option.toList_none]
          rfl
      · rw [if_neg fun h => hset h.2, if_neg hset]
  have hroom : ¬ ((entriesText entries).length + 1 + 1 <
        (ch '+' :: entryLetters (changedEntries change entries)).length + 1 ∨
      (joinWords (entryArguments entries)).length + argumentRoom change.argument + 1 <
        (joinWords (entryArguments (changedEntries change entries))).length + 1) := by
    obtain ⟨hletters, harguments⟩ := @changedEntries_sizes _ _ change hok
    have hargument : wordsSize change.argument.toList = argumentRoom change.argument := by
      cases change.argument with
      | none => rfl
      | some a => exact Nat.add_comm a.length 1
    rw [joinWords_length, joinWords_length, entriesText, List.length_append, List.length_cons, List.length_cons]
    omega
  have htext : (if joinWords (entryArguments (changedEntries change entries)) = [] then
      ch '+' :: entryLetters (changedEntries change entries)
    else ch '+' :: entryLetters (changedEntries change entries) ++
      ch ' ' :: joinWords (entryArguments (changedEntries change entries))) =
        entriesText (changedEntries change entries) := by
    rw [entriesText]
    by_cases hnil : entryArguments (changedEntries change entries) = []
    · rw [if_pos hnil, if_pos ((joinWords_eq_nil hchanged.words).mpr hnil), List.append_nil]
    · rw [if_neg hnil, if_neg fun h => hnil ((joinWords_eq_nil hchanged.words).mp h)]
  unfold ircModeChannelUpdate
  dsimp only
  rw [hmodes, hparts]
  dsimp only
  rw [hargv, hloop, hbuilt]
  dsimp only
  rw [decide_eq_false hroom, Bool.or_false, htext]

/-! ## The changes of calls -/

theorem isNickPrefix_iff (mode : Byte) :
    (ircServerGetPrefixModeIndex server mode).isSome = true ↔ IsNickPrefix server mode := by
  rw [ircServerGetPrefixModeIndex, Option.isSome_map, IsNickPrefix, ← not_iff_not, ← strchr_none, Bool.not_eq_true,
    Option.isSome_eq_false_iff, Option.isNone_iff_eq_none]

variable (server) in
/-- The modes that the string keeps: a prefix of nicks too, if it is `k` or `l`. -/
def IsKept (mode : Byte) : Prop :=
  ircModeGetChanmodeType server mode ≠ .A ∧ (IsNickPrefix server mode → mode = ch 'k' ∨ mode = ch 'l')

instance (mode : Byte) : Decidable (IsKept server mode) := inferInstanceAs (Decidable (_ ∧ _))

/-- What is done for a mode before the string is changed. -/
theorem channelSetMode_keeps (setNickMode : Nicks → Str → Bool → Byte → Nicks) (channel : IrcChannel Nicks)
    (setFlag : Bool) (mode : Byte) (ptrArg : Option Str) :
    let done := ircModeChannelSetMode server setNickMode channel setFlag mode ptrArg
    (done.1 = true ↔ IsKept server mode) ∧ done.2.modes = channel.modes ∧ done.2.overrun = channel.overrun := by
  unfold ircModeChannelSetMode IsKept
  dsimp only
  rw [← isNickPrefix_iff]
  by_cases hk : mode = ch 'k'
  · rw [if_pos hk]
    refine ⟨?_, rfl, rfl⟩
    rw [decide_eq_true_eq]
    exact ⟨fun h => ⟨h, fun _ => .inl hk⟩, fun h => h.1⟩
  · rw [if_neg hk]
    by_cases hl : mode = ch 'l'
    · rw [if_pos hl]
      refine ⟨?_, rfl, rfl⟩
      rw [decide_eq_true_eq]
      exact ⟨fun h => ⟨h, fun _ => .inr hl⟩, fun h => h.1⟩
    · rw [if_neg hl]
      by_cases hnick : ircModeGetChanmodeType server mode ≠ .A ∧ (ircServerGetPrefixModeIndex server mode).isSome = true
      · rw [if_pos hnick]
        refine ⟨⟨fun h => (by cases h), fun h => ?_⟩, ?_⟩
        · rcases h.2 hnick.2 with h | h
          · exact absurd h hk
          · exact absurd h hl
        · cases ptrArg with
          | some argument => exact ⟨rfl, rfl⟩
          | none => exact ⟨rfl, rfl⟩
      · rw [if_neg hnick]
        refine ⟨?_, rfl, rfl⟩
        rw [decide_eq_true_eq]
        exact ⟨fun h => ⟨h, fun hprefix => absurd ⟨h, hprefix⟩ hnick⟩, fun h => h.1⟩

variable (server) in
/-- The entries after a change. -/
def keptEntries (entries : List ModeEntry) (change : ModeChange) : List ModeEntry :=
  if IsKept server change.mode then changedEntries change entries else entries

/-- All that is done for a change. -/
theorem channelChange_entries (setNickMode : Nicks → Str → Bool → Byte → Nicks) (hok : EntriesOk server entries)
    (hchange : ChangeOk server change) {channel : IrcChannel Nicks}
    (hmodes : channel.modes.getD (lit "+") = entriesText entries) :
    let done := ircModeChannelSetMode server setNickMode channel change.set change.mode change.argument
    let channel' := if done.1 then ircModeChannelUpdate server done.2 change.set change.mode change.argument else done.2
    EntriesOk server (keptEntries server entries change) ∧
      channel'.modes.getD (lit "+") = entriesText (keptEntries server entries change) ∧
      channel'.overrun = channel.overrun := by
  obtain ⟨hupdate, hmodes', hoverrun'⟩ :=
    @channelSetMode_keeps server Nicks setNickMode channel change.set change.mode change.argument
  dsimp only at hupdate hmodes' hoverrun' ⊢
  rw [keptEntries]
  by_cases hkept : IsKept server change.mode
  · rw [if_pos hkept, if_pos (hupdate.mpr hkept), channelUpdate_entries hok hchange (hmodes'.symm ▸ hmodes)]
    exact ⟨hok.changed hchange, rfl, hoverrun'⟩
  · rw [if_neg hkept, if_neg fun h => hkept (hupdate.mp h)]
    exact ⟨hok, hmodes'.symm ▸ hmodes, hoverrun'⟩

/-- The change of a letter, with the argument that is taken. -/
theorem changeOk_taken {setFlag : Bool} {c : Byte} (hletter : IsModeLetter c) {argv : List Str}
    (hargv : ∀ w ∈ argv, IsWordText w)
    (hcomplete : ModeChange.Complete server ⟨setFlag, c, if takesArgument server setFlag c then argv.head? else none⟩) :
    ChangeOk server ⟨setFlag, c, if takesArgument server setFlag c then argv.head? else none⟩ where
  letter := hletter
  argument hset := by
    dsimp only at hset ⊢
    rw [ModeChange.Complete] at hcomplete
    dsimp only at hcomplete
    by_cases htakes : takesArgument server setFlag c = true
    · obtain ⟨a, ha, -⟩ := hcomplete htakes
      rw [ha]
      refine ⟨fun h => (by cases h), fun h => ?_⟩
      rw [takesArgument, h] at htakes
      cases htakes
    · refine ⟨fun _ => ?_, fun _ => if_neg htakes⟩
      rw [takesArgument, hset] at htakes
      cases htype : ircModeGetChanmodeType server c with
      | D => rfl
      | A => rw [htype] at htakes; exact absurd rfl htakes
      | B => rw [htype] at htakes; exact absurd rfl htakes
      | C => rw [htype] at htakes; exact absurd rfl htakes
  word a ha := by
    dsimp only at ha
    split at ha
    · exact hargv a (List.mem_of_mem_head? ha)
    · cases ha

/-- A letter in the changes of a call. -/
theorem modeChangesFrom_letter (setFlag : Bool) (c : Byte) (argv : List Str) (modes : Str) :
    (if takesArgument server setFlag c then
        ModeChange.mk setFlag c argv.head? :: modeChangesFrom server setFlag argv.tail modes
      else ⟨setFlag, c, none⟩ :: modeChangesFrom server setFlag argv modes) =
        ⟨setFlag, c, if takesArgument server setFlag c then argv.head? else none⟩ ::
          modeChangesFrom server setFlag (if takesArgument server setFlag c then argv.tail else argv) modes := by
  split
  · rfl
  · rfl

/-- The argument of a letter in the loop. -/
theorem letterArgument (setFlag : Bool) (c : Byte) (argv : List Str) :
    ircModeArgument setFlag argv (ircModeGetChanmodeType server c) =
      if takesArgument server setFlag c then argv.head? else none := by
  rw [takesArgument]
  cases ircModeGetChanmodeType server c with
  | A => rfl
  | B => rfl
  | C => rfl
  | D => rfl

theorem tail_taken (setFlag : Bool) (c : Byte) (argv : List Str) :
    (if (if takesArgument server setFlag c then argv.head? else none).isSome then argv.tail else argv) =
      if takesArgument server setFlag c then argv.tail else argv := by
  by_cases htakes : takesArgument server setFlag c = true
  · rw [if_pos htakes, if_pos htakes]
    cases argv with
    | nil => rfl
    | cons a argv => rfl
  · rw [if_neg htakes, if_neg htakes]
    rfl

/-- No colon is taken off an argument. -/
theorem map_taken {setFlag : Bool} {c : Byte} {argv : List Str}
    (hcomplete : ModeChange.Complete server ⟨setFlag, c, if takesArgument server setFlag c then argv.head? else none⟩) :
    ((if takesArgument server setFlag c then argv.head? else none).map fun argument =>
        if argument.head? = some (ch ':') then argument.tail else argument) =
      if takesArgument server setFlag c then argv.head? else none := by
  by_cases htakes : takesArgument server setFlag c = true
  · obtain ⟨a, ha, hcolon⟩ := hcomplete htakes
    dsimp only at ha
    rw [ha, Option.map_some, if_neg hcolon]
  · rw [if_neg htakes]
    rfl

/-- The changes of a call change the entries one by one. -/
theorem channelSetLoop_entries (setNickMode : Nicks → Str → Bool → Byte → Nicks) (setFlag : Bool) {argv : List Str}
    (hargv : ∀ w ∈ argv, IsWordText w) (hok : EntriesOk server entries) {channel : IrcChannel Nicks}
    (hmodes : channel.modes.getD (lit "+") = entriesText entries) (modes : Str)
    (hcomplete : ∀ change ∈ modeChangesFrom server setFlag argv modes, change.Complete server) :
    let channel' := ircModeChannelSetLoop server setNickMode setFlag argv channel modes
    let entries' := (modeChangesFrom server setFlag argv modes).foldl (keptEntries server) entries
    EntriesOk server entries' ∧ channel'.modes.getD (lit "+") = entriesText entries' ∧
      channel'.overrun = channel.overrun := by
  induction modes generalizing setFlag argv entries channel with
  | nil => exact ⟨hok, hmodes, rfl⟩
  | cons c modes ih =>
    dsimp only
    rw [modeChangesFrom] at hcomplete ⊢
    rw [ircModeChannelSetLoop]
    by_cases hcolon : c = ch ':'
    · rw [if_pos hcolon] at hcomplete ⊢
      rw [if_pos hcolon]
      exact ih setFlag hargv hok hmodes hcomplete
    rw [if_neg hcolon] at hcomplete ⊢
    rw [if_neg hcolon]
    by_cases hspace : c = ch ' '
    · rw [if_pos hspace, if_pos hspace]
      exact ⟨hok, hmodes, rfl⟩
    rw [if_neg hspace] at hcomplete ⊢
    rw [if_neg hspace]
    by_cases hplus : c = ch '+'
    · rw [if_pos hplus] at hcomplete ⊢
      rw [if_pos hplus]
      exact ih true hargv hok hmodes hcomplete
    rw [if_neg hplus] at hcomplete ⊢
    rw [if_neg hplus]
    by_cases hminus : c = ch '-'
    · rw [if_pos hminus] at hcomplete ⊢
      rw [if_pos hminus]
      exact ih false hargv hok hmodes hcomplete
    rw [if_neg hminus, modeChangesFrom_letter, List.forall_mem_cons] at hcomplete
    rw [if_neg hminus, if_neg hminus, modeChangesFrom_letter, List.foldl_cons, letterArgument]
    dsimp only
    rw [tail_taken, map_taken hcomplete.1]
    have hargv' : ∀ w ∈ if takesArgument server setFlag c then argv.tail else argv, IsWordText w := fun w hw => by
      split at hw
      · exact hargv w (List.mem_of_mem_tail hw)
      · exact hargv w hw
    have hchange := changeOk_taken ⟨hplus, hminus, hspace⟩ hargv hcomplete.1
    obtain ⟨hok', hmodes', hoverrun'⟩ := channelChange_entries setNickMode hok hchange hmodes
    obtain ⟨hok'', hmodes'', hoverrun''⟩ := ih setFlag hargv' hok' hmodes' hcomplete.2
    exact ⟨hok'', hmodes'', hoverrun''.trans hoverrun'⟩

/-- A call is the loop with the words of its arguments. -/
theorem channelSet_words (setNickMode : Nicks → Str → Bool → Byte → Nicks) (channel : IrcChannel Nicks) (modes : Str)
    (modesArguments : Option Str) :
    ircModeChannelSet server setNickMode channel modes modesArguments =
      ircModeChannelSetLoop server setNickMode true (modeWords (modesArguments.getD [])) channel modes := by
  unfold ircModeChannelSet
  cases modesArguments with
  | none =>
    dsimp only
    rw [Option.getD_none, modeWords, runs_nil]
  | some arguments =>
    dsimp only
    rw [stringSplit_runs _ (by decide), modeWords, Option.getD_some]
    split
    · rename_i hnil
      rw [hnil]
      rfl
    · rfl

/-- A call changes the entries one by one. -/
theorem channelSet_entries (setNickMode : Nicks → Str → Bool → Byte → Nicks) (hok : EntriesOk server entries)
    {channel : IrcChannel Nicks} (hmodes : channel.modes.getD (lit "+") = entriesText entries) (call : Str × Option Str)
    (hcomplete : ∀ change ∈ modeChanges server call, change.Complete server) :
    let channel' := ircModeChannelSet server setNickMode channel call.1 call.2
    let entries' := (modeChanges server call).foldl (keptEntries server) entries
    EntriesOk server entries' ∧ channel'.modes.getD (lit "+") = entriesText entries' ∧
      channel'.overrun = channel.overrun := by
  dsimp only
  rw [channelSet_words]
  exact channelSetLoop_entries setNickMode true (fun w hw => runs_forall hw) hok hmodes call.1 hcomplete

theorem channelCalls_entries (setNickMode : Nicks → Str → Bool → Byte → Nicks) (hok : EntriesOk server entries)
    {channel : IrcChannel Nicks} (hmodes : channel.modes.getD (lit "+") = entriesText entries)
    (calls : List (Str × Option Str))
    (hcomplete : ∀ change ∈ calls.flatMap (modeChanges server), change.Complete server) :
    let channel' := calls.foldl (fun channel call => ircModeChannelSet server setNickMode channel call.1 call.2) channel
    let entries' := (calls.flatMap (modeChanges server)).foldl (keptEntries server) entries
    EntriesOk server entries' ∧ channel'.modes.getD (lit "+") = entriesText entries' ∧
      channel'.overrun = channel.overrun := by
  induction calls generalizing entries channel with
  | nil => exact ⟨hok, hmodes, rfl⟩
  | cons call calls ih =>
    rw [List.flatMap_cons, List.forall_mem_append] at hcomplete
    obtain ⟨hok', hmodes', hoverrun'⟩ := channelSet_entries setNickMode hok hmodes call hcomplete.1
    obtain ⟨hok'', hmodes'', hoverrun''⟩ := ih hok' hmodes' hcomplete.2
    dsimp only
    rw [List.flatMap_cons, List.foldl_append]
    exact ⟨hok'', hmodes'', hoverrun''.trans hoverrun'⟩

/-! ## The map -/

/-- What the last change of a mode makes of it. -/
def lastValue (changes : List ModeChange) (mode : Byte) : Option (Option Str) :=
  (changes.reverse.find? fun change => change.mode = mode).bind fun change =>
    if change.set then some change.argument else none

theorem lastValue_none (changes : List ModeChange) (mode : Byte) :
    lastValue changes mode = none ↔ ¬ LastSet changes mode := by
  rw [lastValue, LastSet]
  cases changes.reverse.find? fun change => change.mode = mode with
  | none =>
    refine ⟨fun _ hlast => ?_, fun _ => rfl⟩
    obtain ⟨change, hfind, -⟩ := hlast
    cases hfind
  | some change =>
    rw [Option.bind_some]
    split
    · rename_i hset
      exact ⟨fun h => (by cases h), fun h => absurd ⟨change, rfl, hset⟩ h⟩
    · rename_i hset
      refine ⟨fun _ h => ?_, fun _ => rfl⟩
      obtain ⟨change', h, hset'⟩ := h
      cases h
      exact hset hset'

/-- A map that keeps some modes has the last change of each. -/
theorem foldl_lastValue (kept : Byte → Prop) [DecidablePred kept] (changes : List ModeChange) (mode : Byte) :
    changes.foldl (fun map change => if kept change.mode then
        Function.update map change.mode (if change.set then some change.argument else none) else map)
      (fun _ => none) mode = if kept mode then lastValue changes mode else none := by
  induction changes using List.reverseRecOn with
  | nil =>
    rw [lastValue]
    exact (ite_self _).symm
  | append_singleton changes change ih =>
    rw [List.foldl_append, List.foldl_cons, List.foldl_nil, lastValue, List.reverse_append, List.reverse_singleton,
      List.singleton_append, List.find?_cons]
    by_cases hmode : change.mode = mode
    · rw [decide_eq_true hmode]
      dsimp only
      rw [Option.bind_some, hmode]
      split
      · rw [Function.update_self]
      · rename_i hkept
        rw [ih, if_neg hkept]
    · rw [decide_eq_false hmode]
      dsimp only
      rw [← lastValue, ← ih]
      split
      · rw [Function.update_of_ne (Ne.symm hmode)]
      · rfl

/-- The entries are the map of the modes that the string keeps. -/
theorem keptEntries_mem (changes : List ModeChange) (mode : Byte) (argument : Option Str) :
    (mode, argument) ∈ changes.foldl (keptEntries server) [] ↔
      (if IsKept server mode then lastValue changes mode else none) = some argument := by
  rw [← foldl_lastValue]
  induction changes using List.reverseRecOn with
  | nil => exact ⟨fun h => absurd h List.not_mem_nil, fun h => by cases h⟩
  | append_singleton changes change ih =>
    rw [List.foldl_append, List.foldl_cons, List.foldl_nil, List.foldl_append, List.foldl_cons, List.foldl_nil,
      keptEntries]
    split
    · rw [mem_changedEntries]
      by_cases hmode : mode = change.mode
      · rw [if_pos hmode, hmode, Function.update_self]
        split
        · rename_i hset
          exact ⟨fun h => by rw [h.2], fun h => ⟨hset, (Option.some.inj h).symm⟩⟩
        · rename_i hset
          exact ⟨fun h => absurd h.1 hset, fun h => by cases h⟩
      · rw [if_neg hmode, Function.update_of_ne hmode]
        exact ih
    · exact ih

end

variable {server : IrcServerModes}

/-- The map of the changes. -/
theorem foldl_applyChange (changes : List ModeChange) (mode : Byte) :
    changes.foldl (applyChange server) (fun _ => none) mode =
      if ircModeGetChanmodeType server mode ≠ .A ∧ ¬ IsNickPrefix server mode then lastValue changes mode else none := by
  have happly : applyChange server = fun map change =>
      if ircModeGetChanmodeType server change.mode ≠ .A ∧ ¬ IsNickPrefix server change.mode then
        Function.update map change.mode (if change.set then some change.argument else none) else map := by
    funext map change
    rw [applyChange]
    by_cases hkept : ircModeGetChanmodeType server change.mode = .A ∨ IsNickPrefix server change.mode
    · rw [if_pos hkept, if_neg (not_and_or.mpr (hkept.imp not_not.mpr not_not.mpr))]
    · rw [if_neg hkept, if_pos (not_or.mp hkept)]
  rw [happly]
  exact foldl_lastValue (fun mode => ircModeGetChanmodeType server mode ≠ .A ∧ ¬ IsNickPrefix server mode) changes mode

/-- A prefix of nicks has type B. -/
theorem prefix_type {mode : Byte} (h : IsNickPrefix server mode) : ircModeGetChanmodeType server mode = .B := by
  rw [ircModeGetChanmodeType, if_pos ((isNickPrefix_iff mode).mpr h)]

/-- The modes that the string keeps are those of the map, but for `k` and `l`. -/
theorem kept_iff (changes : List ModeChange) :
    (∀ mode, (if IsKept server mode then lastValue changes mode else none) =
        changes.foldl (applyChange server) (fun _ => none) mode) ↔
      ∀ mode, mode = ch 'k' ∨ mode = ch 'l' → IsNickPrefix server mode → ¬ LastSet changes mode := by
  constructor
  · intro h mode hkl hnick
    have hmode := h mode
    have htype : ircModeGetChanmodeType server mode ≠ .A := fun h => by
      rw [prefix_type hnick] at h
      cases h
    have hkept : IsKept server mode := ⟨htype, fun _ => hkl⟩
    rwa [foldl_applyChange, if_pos hkept, if_neg fun h => h.2 hnick, lastValue_none] at hmode
  · intro h mode
    rw [foldl_applyChange]
    by_cases hnick : IsNickPrefix server mode
    · rw [if_neg fun h : _ ∧ ¬ _ => h.2 hnick]
      split
      · rename_i hkept
        exact (lastValue_none changes mode).mpr (h mode (hkept.2 hnick) hnick)
      · rfl
    · by_cases htype : ircModeGetChanmodeType server mode ≠ .A
      · rw [if_pos ⟨htype, fun h => absurd h hnick⟩, if_pos ⟨htype, hnick⟩]
      · rw [if_neg fun h => htype h.1, if_neg fun h => htype h.1]

/-- What is read in the string of entries is a map if and only if its members are the entries. -/
theorem faithful_entries {entries : List ModeEntry} (hok : EntriesOk server entries) {modes : Option Str}
    (hmodes : modes.getD (lit "+") = entriesText entries) (map : ModeMap) :
    FaithfulModes server modes map ↔ ∀ mode argument, (mode, argument) ∈ entries ↔ map mode = some argument := by
  have hread : readBack server modes = (entries, []) := by
    cases modes with
    | some text => rw [← readBack_entries hok, ← hmodes, Option.getD_some]
    | none =>
      have hnil : entries = [] := by
        rw [Option.getD_none, entriesText] at hmodes
        cases entries with
        | nil => rfl
        | cons entry entries => cases hmodes
      rw [hnil]
      rfl
  constructor
  · intro h mode argument
    have hmem := h.mem mode argument
    rwa [hread] at hmem
  · intro h
    refine ⟨?_, ?_, ?_⟩
    · rw [hread]
      exact hok.nodup
    · rwa [hread]
    · rw [hread]

/-- The string of a channel is the map of the changes if and only if no mode `k` or
`l` that is a prefix of nicks is left set; the work buffers are long enough. -/
theorem channelModes_faithful_iff (server : IrcServerModes) {Nicks : Type}
    (setNickMode : Nicks → Str → Bool → Byte → Nicks) (channel : IrcChannel Nicks) (hmodes : channel.modes = none)
    (hoverrun : channel.overrun = false) (calls : List (Str × Option Str))
    (hcomplete : ∀ change ∈ calls.flatMap (modeChanges server), change.Complete server) :
    (FaithfulModes server
        (calls.foldl (fun channel call => ircModeChannelSet server setNickMode channel call.1 call.2) channel).modes
        ((calls.flatMap (modeChanges server)).foldl (applyChange server) fun _ => none) ∧
      (calls.foldl (fun channel call => ircModeChannelSet server setNickMode channel call.1 call.2)
        channel).overrun = false) ↔
      ∀ mode, mode = ch 'k' ∨ mode = ch 'l' → IsNickPrefix server mode →
        ¬ LastSet (calls.flatMap (modeChanges server)) mode := by
  have hnone : EntriesOk server [] := ⟨List.nodup_nil, fun entry h => absurd h List.not_mem_nil⟩
  have hstart : channel.modes.getD (lit "+") = entriesText [] := by
    rw [hmodes]
    rfl
  obtain ⟨hok, htext, hkeeps⟩ := channelCalls_entries setNickMode hnone hstart calls hcomplete
  rw [hkeeps, faithful_entries hok htext, ← kept_iff]
  constructor
  · rintro ⟨hmem, -⟩ mode
    refine Option.ext fun argument => ?_
    rw [← hmem, keptEntries_mem]
  · intro hmap
    refine ⟨fun mode argument => ?_, hoverrun⟩
    rw [keptEntries_mem, hmap]

/-- A key and a limit are kept with the modes. -/
theorem channelModes_faithful_key :
    FaithfulModes ⟨.rfc1459, none, none⟩
        (ircModeChannelSet ⟨.rfc1459, none, none⟩ (fun (nicks : Unit) _ _ _ => nicks) ⟨none, none, 0, (), false⟩
          (lit "+kl-t") (some (lit "key 5"))).modes
        ((modeChanges ⟨.rfc1459, none, none⟩ (lit "+kl-t", some (lit "key 5"))).foldl
          (applyChange ⟨.rfc1459, none, none⟩) fun _ => none) :=
  ((channelModes_faithful_iff ⟨.rfc1459, none, none⟩ (fun (nicks : Unit) _ _ _ => nicks) ⟨none, none, 0, (), false⟩
    rfl rfl [(lit "+kl-t", some (lit "key 5"))] (by
      rw [show [(lit "+kl-t", some (lit "key 5"))].flatMap (modeChanges ⟨.rfc1459, none, none⟩) =
        [⟨true, ch 'k', some (lit "key")⟩, ⟨true, ch 'l', some (lit "5")⟩, ⟨false, ch 't', none⟩] by decide]
      intro change hchange htakes
      simp only [List.mem_cons, List.not_mem_nil, or_false] at hchange
      rcases hchange with rfl | rfl | rfl
      · exact ⟨_, rfl, by decide⟩
      · exact ⟨_, rfl, by decide⟩
      · cases htakes)).mpr fun mode hmode hnick => absurd hnick (by rcases hmode with rfl | rfl <;> decide)).1

/-- A server with the prefix of nicks `k`. -/
def keyPrefixServer : IrcServerModes := ⟨.rfc1459, some ⟨lit "ovk", lit "@+!", rfl⟩, none⟩

/-- The mode of a nick is added to those of the channel. -/
theorem channelModes_faithful_fails :
    (∀ change ∈ modeChanges keyPrefixServer (lit "+k", some (lit "nick")), change.Complete keyPrefixServer) ∧
      ¬ FaithfulModes keyPrefixServer
        (ircModeChannelSet keyPrefixServer (fun (nicks : Unit) _ _ _ => nicks) ⟨none, none, 0, (), false⟩
          (lit "+k") (some (lit "nick"))).modes
        ((modeChanges keyPrefixServer (lit "+k", some (lit "nick"))).foldl (applyChange keyPrefixServer)
          fun _ => none) := by
  have hchanges : modeChanges keyPrefixServer (lit "+k", some (lit "nick")) = [⟨true, ch 'k', some (lit "nick")⟩] := by
    decide
  constructor
  · intro change hchange _
    rw [hchanges, List.mem_singleton] at hchange
    exact ⟨_, by rw [hchange], by decide⟩
  · intro h
    have hread : (ch 'k', some (lit "nick")) ∈ (readBack keyPrefixServer
        (ircModeChannelSet keyPrefixServer (fun (nicks : Unit) _ _ _ => nicks) ⟨none, none, 0, (), false⟩
          (lit "+k") (some (lit "nick"))).modes).1 := by decide +kernel
    have hmap := (h.mem _ _).mp hread
    rw [hchanges] at hmap
    cases hmap

end Wirc

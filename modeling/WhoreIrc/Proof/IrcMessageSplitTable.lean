import WhoreIrc.Proof.IrcMessageSplit

/-!
# The messages of a split

What the hashtable of a split message holds: the pieces of the arguments, and
the messages built around them (`splitHashtable_spec`). From this, when the
messages respect the limit (`ircMessageSplitString_length_iff`) and when they
hold all of the text (`ircMessageSplitString_lossless_iff`).
-/

namespace Wirc

open Framework

/-! ## The hashtable -/

/-- `msgK` and `argsK`. -/
def msgKey (number : Nat) : Str := lit "msg" ++ fmtNat number
def argsKey (number : Nat) : Str := lit "args" ++ fmtNat number

/-- The finite map after calls. -/
def applyCalls (m : Str → Option (Option Str)) (calls : List (HashtableOp Str Str)) : Str → Option (Option Str) :=
  calls.foldl (HashtableOp.apply .string) m

theorem applyCalls_add (m : Str → Option (Option Str)) (number : Nat) (tags : Option Str) (message arguments : Str) :
    applyCalls m (ircMessageSplitAdd number tags message arguments) =
      Function.update (Function.update (Function.update m (msgKey number) (some (some (orEmpty tags ++ message))))
        (argsKey number) (some (some arguments))) (lit "count") (some (some (fmtNat number))) := rfl

theorem msgKey_ne_argsKey (i j : Nat) : msgKey i ≠ argsKey j := fun h => absurd (List.cons.inj h).1 (by decide)

theorem msgKey_ne_count (i : Nat) : msgKey i ≠ lit "count" := fun h => absurd (List.cons.inj h).1 (by decide)

theorem argsKey_ne_count (i : Nat) : argsKey i ≠ lit "count" := fun h => absurd (List.cons.inj h).1 (by decide)

theorem msgKey_injective : Function.Injective msgKey :=
  fun _ _ h => fmtNat_injective (List.append_cancel_left h)

theorem argsKey_injective : Function.Injective argsKey :=
  fun _ _ h => fmtNat_injective (List.append_cancel_left h)

/-- A key for each message, to which a call gives the value `value a` of the
piece `a`, and which the calls for other messages leave. -/
structure NumberedKey (line : SplitLine) (key : Nat → Str) (value : Str → Str) : Prop where
  add_self : ∀ m n a, applyCalls m (ircMessageSplitAdd n line.tags (splitLineMessage line a) a) (key n) =
    some (some (value a))
  add_ne : ∀ m n k a, k ≠ n → applyCalls m (ircMessageSplitAdd n line.tags (splitLineMessage line a) a) (key k) =
    m (key k)

theorem numberedKey_msg (line : SplitLine) :
    NumberedKey line msgKey fun a => orEmpty line.tags ++ splitLineMessage line a where
  add_self m n a := by
    rw [applyCalls_add, Function.update_of_ne (msgKey_ne_count n), Function.update_of_ne (msgKey_ne_argsKey n n),
      Function.update_self]
  add_ne m n k a hk := by
    rw [applyCalls_add, Function.update_of_ne (msgKey_ne_count k), Function.update_of_ne (msgKey_ne_argsKey k n),
      Function.update_of_ne (msgKey_injective.ne hk)]

theorem numberedKey_args (line : SplitLine) : NumberedKey line argsKey id where
  add_self m n a := by
    rw [applyCalls_add, Function.update_of_ne (argsKey_ne_count n), Function.update_self]
    rfl
  add_ne m n k a hk := by
    rw [applyCalls_add, Function.update_of_ne (argsKey_ne_count k), Function.update_of_ne (argsKey_injective.ne hk),
      Function.update_of_ne (msgKey_ne_argsKey n k).symm]

section

variable {line : SplitLine} {key : Nat → Str} {value : Str → Str}

theorem applyCalls_cons (m : Str → Option (Option Str)) (n : Nat) (a : Str) (as : List Str) :
    applyCalls m (splitCalls line n (a :: as)) =
      applyCalls (applyCalls m (ircMessageSplitAdd n line.tags (splitLineMessage line a) a))
        (splitCalls line (n + 1) as) := List.foldl_append ..

theorem NumberedKey.frame (h : NumberedKey line key value) (as : List Str) (m : Str → Option (Option Str))
    {n k : Nat} (hk : k < n) : applyCalls m (splitCalls line n as) (key k) = m (key k) := by
  induction as generalizing m n with
  | nil => rfl
  | cons a as ih => rw [applyCalls_cons, ih _ (Nat.lt_succ_of_lt hk), h.add_ne m n k a (Nat.ne_of_lt hk)]

theorem NumberedKey.apply (h : NumberedKey line key value) (as : List Str) (m : Str → Option (Option Str))
    (n k : Nat) (hm : m (key (n + k)) = none) :
    applyCalls m (splitCalls line n as) (key (n + k)) = as[k]?.map fun a => some (value a) := by
  induction as generalizing m n k with
  | nil => exact hm
  | cons a as ih =>
    rw [applyCalls_cons]
    cases k with
    | zero => exact (h.frame as _ (Nat.lt_add_one n)).trans (h.add_self m n a)
    | succ k =>
      rw [show n + (k + 1) = n + 1 + k by omega] at hm ⊢
      exact ih _ _ _ ((h.add_ne m n _ a (by omega)).trans hm)

theorem applyCalls_count (as : List Str) (m : Str → Option (Option Str)) (n : Nat) (has : as ≠ []) :
    applyCalls m (splitCalls line n as) (lit "count") = some (some (fmtNat (n + as.length - 1))) := by
  induction as generalizing m n with
  | nil => exact absurd rfl has
  | cons a as ih =>
    rw [applyCalls_cons]
    by_cases h : as = []
    · subst h
      change applyCalls m (ircMessageSplitAdd n line.tags (splitLineMessage line a) a) (lit "count") = _
      rw [applyCalls_add, Function.update_self]
      rfl
    · rw [ih _ _ h, List.length_cons]
      congr 3
      omega

/-- What the hashtable holds for each piece. -/
theorem splitHashtable_spec (line : SplitLine) {as : List Str} (has : as ≠ []) :
    ∃ table, splitHashtable (splitCalls line 1 as) = some table ∧
      hashtableGet table (lit "count") = some (some (fmtNat as.length)) ∧
      ∀ k, hashtableGet table (argsKey (k + 1)) = some as[k]? ∧
        hashtableGet table (msgKey (k + 1)) =
          some (as[k]?.map fun a => orEmpty line.tags ++ splitLineMessage line a) := by
  obtain ⟨table0, hnew, -, htype, -, -, href⟩ := hashtableNew_refines Str
    (by decide : (0 : Int) < 32) (by decide : HashtableType.string ≠ .buffer) .string
  obtain ⟨table, hrun, -, href⟩ := href.run (splitCalls line 1 as)
  rw [htype] at href
  have hget : ∀ key, hashtableGet table key =
      some (applyCalls (fun _ => none) (splitCalls line 1 as) key).join := href.get
  refine ⟨table, by rw [splitHashtable, hnew]; exact hrun, ?_, fun k => ⟨?_, ?_⟩⟩
  · rw [hget, applyCalls_count as _ 1 has, Nat.add_sub_cancel_left]
    rfl
  · rw [hget, Nat.add_comm k 1, (numberedKey_args line).apply as _ 1 k rfl]
    cases as[k]? <;> rfl
  · rw [hget, Nat.add_comm k 1, (numberedKey_msg line).apply as _ 1 k rfl]
    cases as[k]? <;> rfl

end

/-- A split that succeeds makes the calls for the pieces of the arguments, or
for one empty piece. -/
theorem ircMessageSplitString_one {line : SplitLine} {arguments : Option Str} {maxLengthHost maxLength : Int}
    {rounds : Nat} {calls : List (HashtableOp Str Str)}
    (h : ircMessageSplitString line arguments maxLengthHost maxLength rounds = some (1, calls)) :
    2 ≤ splitMaxLength line maxLengthHost maxLength ∧ ∃ as, calls = splitCalls line 1 as ∧
      (orEmpty arguments = [] ∧ as = [[]] ∨ orEmpty arguments ≠ [] ∧
        ∃ ps, Pieces (splitMaxLength line maxLengthHost maxLength) line.delimiter (orEmpty arguments) ps ∧
          as = ps.map Prod.fst) := by
  simp only [ircMessageSplitString] at h
  split at h
  · cases h
  · rename_i hB
    refine ⟨Int.not_lt.mp hB, ?_⟩
    split at h
    · rename_i hempty
      cases h
      exact ⟨[[]], (List.append_nil _).symm, .inl ⟨hempty, rfl⟩⟩
    · rename_i hne
      obtain ⟨r, hr, hcalls⟩ := Option.map_eq_some_iff.mp h
      cases hcalls
      obtain ⟨ps, hps, rfl⟩ := ends_pieces line (by omega) ⟨rounds, hr⟩
      exact ⟨ps.map Prod.fst, List.nil_append _, .inr ⟨hne, ps, hps, rfl⟩⟩

/-! ## The limit of a line -/

/-- The bytes left for the arguments, before any conversion to `int`. -/
def splitRoom (line : SplitLine) (maxLength : Int) : Int :=
  maxLength - 2 - (if line.host.isSome then lengthOrZero line.host + 1 else 0) - (line.command.length + 1) -
    lengthOrZero line.target - lengthOrZero line.pfx - lengthOrZero line.suffix

theorem toInt_sub (x y : Int) : toInt (toInt x - y) = toInt (x - y) := Int.bmod_sub_bmod ..

theorem splitMaxLength_eq (line : SplitLine) (maxLength : Int) :
    splitMaxLength line (-1) maxLength = toInt (splitRoom line maxLength) := by
  simp only [splitMaxLength, splitRoom, toInt_sub, show ¬ (-1 : Int) ≥ 0 by decide, if_false]

/-- The length of a message: the arguments, and what is not left for them, with
the space after the target, which was not counted. -/
theorem splitLineMessage_length (line : SplitLine) (maxLength : Int) (a : Str) :
    ((splitLineMessage line a).length : Int) =
      min 8191 (maxLength - 2 - splitRoom line maxLength + a.length + (if orEmpty line.target = [] then 0 else 1)) := by
  have hstart : ((splitLineStart line).length : Int) = (if line.host.isSome then lengthOrZero line.host + 1 else 0) +
      (line.command.length + 1) + lengthOrZero line.target + lengthOrZero line.pfx +
      (if orEmpty line.target = [] then 0 else 1) := by
    simp only [splitLineStart, List.length_append, lengthOrZero, lit]
    cases line.host <;> by_cases htarget : orEmpty line.target = [] <;> simp [htarget] <;> omega
  simp only [splitLineMessage, List.length_take, List.length_append, splitRoom]
  simp only [lengthOrZero] at hstart ⊢
  omega

/-- Without its tags, no message is longer than the limit. -/
def SplitWithinLimit (line : SplitLine) (maxLength : Int) (table : Hashtable Str Str) : Prop :=
  ∀ k value, hashtableGet table (msgKey (k + 1)) = some (some value) →
    (value.length : Int) - (orEmpty line.tags).length ≤ maxLength - 2

theorem splitWithinLimit_iff (line : SplitLine) (maxLength : Int) {as : List Str} (has : as ≠ []) :
    (∃ table, splitHashtable (splitCalls line 1 as) = some table ∧ SplitWithinLimit line maxLength table) ↔
      ∀ a ∈ as, ((splitLineMessage line a).length : Int) ≤ maxLength - 2 := by
  obtain ⟨table, htable, -, hget⟩ := splitHashtable_spec line has
  constructor
  · rintro ⟨table', htable', h⟩ a ha
    cases htable.symm.trans htable'
    obtain ⟨k, hk⟩ := List.mem_iff_getElem?.mp ha
    have := h k (orEmpty line.tags ++ splitLineMessage line a) (by rw [(hget k).2, hk]; rfl)
    rw [List.length_append] at this
    omega
  · refine fun h => ⟨table, htable, fun k value hvalue => ?_⟩
    rw [(hget k).2] at hvalue
    obtain ⟨a, ha, rfl⟩ := Option.map_eq_some_iff.mp (Option.some.inj hvalue)
    have := h a (List.mem_of_getElem? ha)
    rw [List.length_append]
    omega

/-- A message that fills its room is one byte too long when there is a target. -/
theorem splitLineMessage_le_iff (line : SplitLine) {maxLength : Int} (hint : maxLength < 2147483648) {a : Str}
    (ha : a.length ≤ splitMaxLength line (-1) maxLength) :
    ((splitLineMessage line a).length : Int) ≤ maxLength - 2 ↔
      8193 ≤ maxLength ∨ -2147483648 ≤ splitRoom line maxLength ∧
        (orEmpty line.target = [] ∨ (a.length : Int) ≠ splitRoom line maxLength) := by
  have hroom : splitRoom line maxLength < 2147483648 := by
    simp only [splitRoom, lengthOrZero]
    split <;> omega
  rw [splitMaxLength_eq] at ha
  rw [splitLineMessage_length line maxLength a, min_le_iff]
  by_cases hwrap : -2147483648 ≤ splitRoom line maxLength
  · rw [toInt_of_range hwrap hroom] at ha
    by_cases htarget : orEmpty line.target = []
    · simp only [htarget, hwrap, if_true, true_or, and_self, or_true, iff_true]
      omega
    · simp only [htarget, hwrap, if_false, false_or, true_and]
      omega
  · simp only [hwrap, false_and, or_false]
    split <;> omega

/-- When the messages respect the limit: when nothing is longer than the buffer
in which they are built, or the lengths are in the range of an `int` and, where
there is a target, no piece fills the room that was computed for it. -/
theorem ircMessageSplitString_length_iff {line : SplitLine} {arguments : Option Str} {maxLength : Int}
    (hint : maxLength < 2147483648) {rounds : Nat} {calls : List (HashtableOp Str Str)}
    (h : ircMessageSplitString line arguments (-1) maxLength rounds = some (1, calls)) :
    (∃ table, splitHashtable calls = some table ∧ SplitWithinLimit line maxLength table) ↔
      8193 ≤ maxLength ∨ -2147483648 ≤ splitRoom line maxLength ∧ (orEmpty line.target = [] ∨
        ∀ p, Starts (splitRoom line maxLength) line.delimiter (orEmpty arguments) p → p ≠ [] →
          ∀ a dropped q, IsCut (splitRoom line maxLength) line.delimiter p a dropped q →
            (a.length : Int) ≠ splitRoom line maxLength) := by
  obtain ⟨hB, as, rfl, hcases⟩ := ircMessageSplitString_one h
  have hroom : splitRoom line maxLength < 2147483648 := by
    simp only [splitRoom, lengthOrZero]
    split <;> omega
  -- the pieces are not empty, fit, and fill the room as the condition says
  have hpieces : as ≠ [] ∧ (∀ a ∈ as, (a.length : Int) ≤ splitMaxLength line (-1) maxLength) ∧
      (-2147483648 ≤ splitRoom line maxLength → ((∀ a ∈ as, (a.length : Int) ≠ splitRoom line maxLength) ↔
        ∀ p, Starts (splitRoom line maxLength) line.delimiter (orEmpty arguments) p → p ≠ [] →
          ∀ a dropped q, IsCut (splitRoom line maxLength) line.delimiter p a dropped q →
            (a.length : Int) ≠ splitRoom line maxLength)) := by
    rcases hcases with ⟨hempty, rfl⟩ | ⟨hne, ps, hps, rfl⟩
    · refine ⟨List.cons_ne_nil _ _, ?_, fun hwrap => ?_⟩
      · simp only [List.mem_singleton, forall_eq, List.length_nil]
        omega
      · rw [splitMaxLength_eq, toInt_of_range hwrap hroom] at hB
        refine ⟨fun _ p hs hp => ?_, fun _ => ?_⟩
        · rw [hempty] at hs
          exact absurd (starts_nil hs) hp
        · simp only [List.mem_singleton, forall_eq, List.length_nil]
          omega
    · refine ⟨?_, hps.forall_iff.mpr fun p _ _ a dropped q hcut => hcut.length_le, fun hwrap => ?_⟩
      · exact hps.map_ne_nil hne
      · rw [splitMaxLength_eq, toInt_of_range hwrap hroom] at hps
        exact hps.forall_iff
  obtain ⟨hne, hle, hfill⟩ := hpieces
  rw [splitWithinLimit_iff line maxLength hne]
  constructor
  · intro hall
    have hall' := fun a ha => (splitLineMessage_le_iff line hint (hle a ha)).mp (hall a ha)
    obtain ⟨a, ha⟩ := List.exists_mem_of_ne_nil as hne
    rcases hall' a ha with hbig | ⟨hwrap, -⟩
    · exact .inl hbig
    · by_cases hbig : 8193 ≤ maxLength
      · exact .inl hbig
      by_cases htarget : orEmpty line.target = []
      · exact .inr ⟨hwrap, .inl htarget⟩
      · refine .inr ⟨hwrap, .inr ((hfill hwrap).mp fun a ha => ?_)⟩
        exact ((hall' a ha).resolve_left hbig).2.resolve_left htarget
  · intro hcond a ha
    refine (splitLineMessage_le_iff line hint (hle a ha)).mpr ?_
    rcases hcond with hbig | ⟨hwrap, htarget | hnot⟩
    · exact .inl hbig
    · exact .inr ⟨hwrap, .inl htarget⟩
    · exact .inr ⟨hwrap, .inr ((hfill hwrap).mpr hnot a ha)⟩

theorem ircMessageSplitString_length_iff_room :
    ∃ table, splitHashtable (splitCalls ⟨none, none, lit "A", none, none, none, ch ' '⟩ 1
      [lit "ab", lit "cd"]) = some table ∧
      SplitWithinLimit ⟨none, none, lit "A", none, none, none, ch ' '⟩ 6 table := by
  have h : ircMessageSplitString ⟨none, none, lit "A", none, none, none, ch ' '⟩ (some (lit "ab cd")) (-1) 6 3 =
      some (1, splitCalls ⟨none, none, lit "A", none, none, none, ch ' '⟩ 1 [lit "ab", lit "cd"]) := by
    decide +kernel
  exact (ircMessageSplitString_length_iff (by decide) h).mpr (.inr ⟨by decide, .inl rfl⟩)

/-- `A t ab` is built for a limit of 5 bytes. -/
theorem ircMessageSplitString_length_fails :
    ircMessageSplitString ⟨none, none, lit "A", some (lit "t"), none, none, ch ' '⟩ (some (lit "ab")) (-1) 7 2 =
        some (1, splitCalls ⟨none, none, lit "A", some (lit "t"), none, none, ch ' '⟩ 1 [lit "ab"]) ∧
      ¬ ∃ table, splitHashtable (splitCalls ⟨none, none, lit "A", some (lit "t"), none, none, ch ' '⟩ 1
          [lit "ab"]) = some table ∧
        SplitWithinLimit ⟨none, none, lit "A", some (lit "t"), none, none, ch ' '⟩ 7 table := by
  refine ⟨by decide +kernel, fun h => ?_⟩
  have := (splitWithinLimit_iff _ 7 (List.cons_ne_nil _ _)).mp h (lit "ab") (List.mem_singleton_self _)
  exact absurd this (by decide)

/-! ## The text of the messages -/

/-- The messages of the hashtable hold all of the text, in the pieces
`chunks`. -/
structure SplitLossless (line : SplitLine) (arguments : Str) (table : Hashtable Str Str) (chunks : List Str) :
    Prop where
  count : hashtableGet table (lit "count") = some (some (fmtNat chunks.length))
  args : ∀ k a, chunks[k]? = some a → hashtableGet table (argsKey (k + 1)) = some (some a)
  msgs : ∀ k a, chunks[k]? = some a → hashtableGet table (msgKey (k + 1)) =
    some (some (orEmpty line.tags ++ (splitLineStart line ++ a ++ orEmpty line.suffix)))
  joined : Joined line.delimiter chunks arguments
  valid : ∀ a ∈ chunks, ValidUtf8 a

theorem splitLineMessage_eq_iff (line : SplitLine) (a : Str) :
    splitLineMessage line a = splitLineStart line ++ a ++ orEmpty line.suffix ↔
      (splitLineStart line).length + a.length + (orEmpty line.suffix).length ≤ 8191 := by
  rw [splitLineMessage, List.take_eq_self_iff, List.length_append, List.length_append]

/-- The pieces are what the hashtable holds. -/
theorem splitLossless_iff (line : SplitLine) (arguments : Str) {as : List Str} (has : as ≠ []) :
    (∃ table chunks, splitHashtable (splitCalls line 1 as) = some table ∧
        SplitLossless line arguments table chunks) ↔
      (∀ a ∈ as, (splitLineStart line).length + a.length + (orEmpty line.suffix).length ≤ 8191) ∧
        Joined line.delimiter as arguments ∧ ∀ a ∈ as, ValidUtf8 a := by
  obtain ⟨table, htable, hcount, hget⟩ := splitHashtable_spec line has
  constructor
  · rintro ⟨table', chunks, htable', h⟩
    cases htable.symm.trans htable'
    have hlen : as.length = chunks.length :=
      fmtNat_injective (Option.some.inj (Option.some.inj (hcount.symm.trans h.count)))
    have heq : as = chunks := by
      refine List.ext_getElem? fun k => ?_
      by_cases hk : k < chunks.length
      · have hchunk := List.getElem?_eq_getElem hk
        have := (hget k).1.symm.trans (h.args k _ hchunk)
        rw [Option.some.inj this, hchunk]
      · rw [List.getElem?_eq_none (by omega), List.getElem?_eq_none (by omega)]
    subst heq
    refine ⟨fun a ha => ?_, h.joined, h.valid⟩
    obtain ⟨k, hk⟩ := List.mem_iff_getElem?.mp ha
    have hmsg := (hget k).2.symm.trans (h.msgs k a hk)
    rw [hk] at hmsg
    exact (splitLineMessage_eq_iff line a).mp
      (List.append_cancel_left (Option.some.inj (Option.some.inj hmsg)))
  · rintro ⟨hfull, hjoined, hvalid⟩
    refine ⟨table, as, htable, hcount, fun k a ha => ?_, fun k a ha => ?_, hjoined, hvalid⟩
    · rw [(hget k).1, ha]
    · rw [(hget k).2, ha, Option.map_some, (splitLineMessage_eq_iff line a).mpr (hfull a (List.mem_of_getElem? ha))]

/-- When the messages hold all of the text: when each of them is short enough
for the buffer in which it is built, and a delimiter is dropped only before
other text and only as a whole character. -/
theorem ircMessageSplitString_lossless_iff {line : SplitLine} {arguments : Str} (hne : arguments ≠ [])
    (hvalid : ValidUtf8 arguments) {maxLengthHost maxLength : Int} {rounds : Nat}
    {calls : List (HashtableOp Str Str)}
    (h : ircMessageSplitString line (some arguments) maxLengthHost maxLength rounds = some (1, calls)) :
    (∃ table chunks, splitHashtable calls = some table ∧ SplitLossless line arguments table chunks) ↔
      ∀ p, Starts (splitMaxLength line maxLengthHost maxLength) line.delimiter arguments p → p ≠ [] →
        ∀ a dropped q, IsCut (splitMaxLength line maxLengthHost maxLength) line.delimiter p a dropped q →
          (splitLineStart line).length + a.length + (orEmpty line.suffix).length ≤ 8191 ∧
          (dropped = true → q ≠ [] ∧ line.delimiter < 0x80) := by
  obtain ⟨-, as, rfl, ⟨hempty, -⟩ | ⟨-, ps, hps, rfl⟩⟩ := ircMessageSplitString_one h
  · exact absurd hempty hne
  rw [orEmpty_some] at hps
  rw [splitLossless_iff line arguments (hps.map_ne_nil hne)]
  constructor
  · rintro ⟨hfull, hjoined, hall⟩ p hs hp a dropped q hcut
    have hq := hps.dropped_of_joined hjoined (List.suffix_refl _) p hs hp a dropped q hcut
    exact ⟨hps.forall_iff.mp hfull p hs hp a dropped q hcut,
      fun hd => ⟨hq hd, hps.delimiter_of_valid hvalid hall p hs hp a dropped q hcut hd (hq hd)⟩⟩
  · intro hcond
    exact ⟨hps.forall_iff.mpr fun p hs hp a dropped q hcut => (hcond p hs hp a dropped q hcut).1,
      hps.joined hvalid hne fun p hs hp a dropped q hcut => (hcond p hs hp a dropped q hcut).2⟩

theorem ircMessageSplitString_lossless_iff_ab :
    ∃ table chunks, splitHashtable (splitCalls ⟨none, none, lit "A", none, none, none, ch ' '⟩ 1
      [lit "ab", lit "cd"]) = some table ∧
      SplitLossless ⟨none, none, lit "A", none, none, none, ch ' '⟩ (lit "ab cd") table chunks := by
  have hcut1 : IsCut 2 (ch ' ') (lit "ab cd") (lit "ab") true (lit "cd") := by
    refine .delimiter (by decide) ⟨rfl, ?_, by decide⟩ fun a' q' h => by exact_mod_cast h.reach
    exact ((Boundary.refl _).next (by decide)).next (by decide)
  have hcut2 : IsCut 2 (ch ' ') (lit "cd") (lit "cd") false [] := .fits (by decide)
  have h : ircMessageSplitString ⟨none, none, lit "A", none, none, none, ch ' '⟩ (some (lit "ab cd")) (-1) 6 3 =
      some (1, splitCalls ⟨none, none, lit "A", none, none, none, ch ' '⟩ 1 [lit "ab", lit "cd"]) := by
    decide +kernel
  refine (ircMessageSplitString_lossless_iff (by decide) (validUtf8_ascii (by decide)) h).mpr ?_
  refine (starts_iff (G := fun a dropped q => _ ∧ (dropped = true → q ≠ [] ∧ _)) (by decide) hcut1).mpr
    ⟨by decide, ?_⟩
  refine (starts_iff (G := fun a dropped q => _ ∧ (dropped = true → q ≠ [] ∧ _)) (by decide) hcut2).mpr
    ⟨by decide, ?_⟩
  exact fun p hs hp => absurd (starts_nil hs) hp

/-- The space at the end of `ab ` is in no message. -/
theorem ircMessageSplitString_lossless_fails :
    ircMessageSplitString ⟨none, none, lit "A", none, none, none, ch ' '⟩ (some (lit "ab ")) (-1) 6 2 =
        some (1, splitCalls ⟨none, none, lit "A", none, none, none, ch ' '⟩ 1 [lit "ab"]) ∧
      ValidUtf8 (lit "ab ") ∧
      ¬ ∃ table chunks, splitHashtable (splitCalls ⟨none, none, lit "A", none, none, none, ch ' '⟩ 1
          [lit "ab"]) = some table ∧
        SplitLossless ⟨none, none, lit "A", none, none, none, ch ' '⟩ (lit "ab ") table chunks := by
  refine ⟨by decide +kernel, validUtf8_ascii (by decide), fun h => ?_⟩
  obtain ⟨-, hjoined, -⟩ := (splitLossless_iff _ _ (List.cons_ne_nil _ _)).mp h
  generalize htext : lit "ab " = text at hjoined
  cases hjoined with
  | one => exact absurd htext (by decide)
  | next _ hj => exact not_joined_nil hj
  | delimiter _ hj => exact not_joined_nil hj

end Wirc

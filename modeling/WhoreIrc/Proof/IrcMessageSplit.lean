import WhoreIrc.Impl.IrcMessageSplit
import WhoreIrc.Proof.Hashtable
import WhoreIrc.Proof.SplitText

/-!
# The split of a message

The scan of `irc_message_split_string` finds the first piece of the text
(`splitScan_spec`, `splitRound_next`), so that the function ends with the
pieces of the arguments (`ends_pieces`), unless it comes to a place where the
first character does not fit (`ircMessageSplitString_terminates_iff`).
-/

namespace Wirc

open Framework

/-! ## The scan of one piece -/

section

variable {B : Int} {d : Byte} {p pos : Str} {last : Option Str}

/-- `last` is the last delimiter of `p` that is not in its last bytes, of which
there are fewer than `n`. -/
structure LastDelim (d : Byte) (p : Str) (n : Nat) (last : Option Str) : Prop where
  delim : ∀ l, last = some l → Boundary p l ∧ l.head? = some d ∧ n ≤ l.length
  le : ∀ l, Boundary p l → l.head? = some d → n ≤ l.length → ∃ l', last = some l' ∧ l'.length ≤ l.length

theorem lastDelim_start (d : Byte) (p : Str) : LastDelim d p (p.length + 1) none where
  delim l h := by cases h
  le l hb _ hn := by
    have := hb.suffix.length_le
    omega

theorem LastDelim.check (h : LastDelim d p (pos.length + 1) last) (hb : Boundary p pos) :
    LastDelim d p pos.length (if pos.head? = some d then some pos else last) := by
  split
  · rename_i hd
    refine ⟨fun l hl => ?_, fun l _ _ hn => ⟨pos, rfl, hn⟩⟩
    cases hl
    exact ⟨hb, hd, Nat.le_refl _⟩
  · rename_i hd
    refine ⟨fun l hl => ?_, fun l hbl hdl hn => ?_⟩
    · obtain ⟨h1, h2, h3⟩ := h.delim l hl
      exact ⟨h1, h2, by omega⟩
    · rcases Nat.lt_or_eq_of_le hn with hlt | heq
      · exact h.le l hbl hdl hlt
      · rw [hb.eq_of_length hbl heq] at hd
        exact absurd hdl hd

theorem LastDelim.next (h : LastDelim d p pos.length last) (hb : Boundary p pos) (hpos : pos ≠ []) :
    LastDelim d p ((utf8NextChar pos).length + 1) last := by
  have hlt := utf8NextChar_length_lt hpos
  refine ⟨fun l hl => ?_, fun l hbl hdl hn => h.le l hbl hdl ?_⟩
  · obtain ⟨h1, h2, h3⟩ := h.delim l hl
    exact ⟨h1, h2, by omega⟩
  · by_contra hc
    have := (hb.next_le hbl (by omega)).2.suffix.length_le
    omega

/-- Where the scan stops: at the end of the text, or before a character that
does not fit. -/
theorem splitScan_spec {pos : Str} {last : Option Str} (hb : Boundary p pos) (hoff : off p pos ≤ B)
    (hlast : LastDelim d p (pos.length + 1) last) :
    ∃ pos' last', splitScan p d B pos last = (pos', last') ∧ Boundary p pos' ∧ off p pos' ≤ B ∧
      LastDelim d p pos'.length last' ∧ (pos' ≠ [] → B < off p (utf8NextChar pos')) := by
  rw [splitScan]
  split
  · rename_i hpos
    subst hpos
    refine ⟨[], last, rfl, hb, hoff, ⟨fun l hl => ?_, fun l hbl hdl _ => ?_⟩, fun h => absurd rfl h⟩
    · obtain ⟨h1, h2, -⟩ := hlast.delim l hl
      exact ⟨h1, h2, Nat.zero_le _⟩
    · refine hlast.le l hbl hdl ?_
      cases l with
      | nil => cases hdl
      | cons _ _ => simp
  · rename_i hpos
    have hcheck := hlast.check hb
    dsimp only
    split
    · rename_i hgt
      exact ⟨pos, _, rfl, hb, hoff, hcheck, fun _ => hgt⟩
    · rename_i hle
      exact splitScan_spec (hb.next hpos) (Int.not_lt.mp hle) (hcheck.next hb hpos)
termination_by pos.length
decreasing_by exact utf8NextChar_length_lt ‹_›

/-- A round splits off the first piece. -/
theorem splitRound_next (line : SplitLine) (hB : 0 ≤ B) {s : SplitState} (hs : s.arguments ≠ []) :
    ∃ a dropped q, IsCut B line.delimiter s.arguments a dropped q ∧
      splitRound line B s = .next ⟨q, s.number + 1,
        s.calls ++ ircMessageSplitAdd s.number line.tags (splitLineMessage line a) a⟩ := by
  obtain ⟨pos, last, hscan, hb, hoff, hlast, hnext⟩ := splitScan_spec (d := line.delimiter) (.refl s.arguments)
    (by simpa [off] using hB) (lastDelim_start line.delimiter s.arguments)
  obtain ⟨u, hu⟩ := hb.suffix
  rw [splitRound, if_neg hs, hscan]
  by_cases hpos : pos = []
  · -- the end of the text: the last delimiter is not there
    subst hpos
    have hne : some [] ≠ last := fun h => by
      have := (hlast.delim [] h.symm).2.1
      cases this
    refine ⟨s.arguments, false, [], .fits (by simpa [off] using hoff), ?_⟩
    simp [hne, strndup, off]
  · have hlen : s.arguments.length = u.length + pos.length := by rw [← hu, List.length_append]
    have hfit : B < u.length + utf8CharSize pos := by
      have h1 := hnext hpos
      have h2 := utf8CharSize_le_length hpos
      rw [off, utf8NextChar_length] at h1
      omega
    have hlong : B < s.arguments.length := by
      have := utf8CharSize_le_length hpos
      omega
    -- a delimiter in reach is not after the place where the scan stops
    have hreach : ∀ a' q', DelimiterAt B line.delimiter s.arguments a' q' →
        pos.length ≤ (line.delimiter :: q').length := by
      intro a' q' h
      by_contra hc
      have h1 := hb.size_add_le h.boundary (by omega)
      have h2 := h.lengths
      have h3 := h.reach
      rw [List.length_cons] at h1
      omega
    cases last with
    | none =>
      refine ⟨u, false, pos, .whole hlong hu.symm hb ?_ hfit fun a' q' h => ?_, ?_⟩
      · rw [off] at hoff
        omega
      · obtain ⟨l', hl', -⟩ := hlast.le _ h.boundary rfl (hreach a' q' h)
        cases hl'
      · simp only [hpos, ne_eq, not_false_eq_true, if_true, Option.getD_none, strndup, reduceCtorEq, if_false]
        rw [← hu, take_off_append]
    | some l =>
      obtain ⟨hbl, hdl, hle⟩ := hlast.delim l rfl
      obtain ⟨q, rfl⟩ := List.head?_eq_some_iff.mp hdl
      obtain ⟨v, hv⟩ := hbl.suffix
      have hlen' : s.arguments.length = v.length + (q.length + 1) := by
        rw [← hv, List.length_append, List.length_cons]
      refine ⟨v, true, q, .delimiter hlong ⟨hv.symm, hbl, ?_⟩ fun a' q' h => ?_, ?_⟩
      · rw [List.length_cons] at hle
        rw [off] at hoff
        omega
      · obtain ⟨l', hl', hl'le⟩ := hlast.le _ h.boundary rfl (hreach a' q' h)
        cases hl'
        have := h.lengths
        simp only [List.length_cons] at hl'le
        omega
      · simp only [hpos, ne_eq, not_false_eq_true, if_true, Option.getD_some, strndup, List.tail_cons]
        rw [← hv, take_off_append]

theorem splitRound_done (line : SplitLine) (B : Int) {s : SplitState} (hs : s.arguments = []) :
    splitRound line B s = .done s.calls := by
  rw [splitRound, if_pos hs]

theorem isCut_exists (d : Byte) (hB : 0 ≤ B) (hp : p ≠ []) : ∃ a dropped q, IsCut B d p a dropped q := by
  obtain ⟨a, dropped, q, h, -⟩ := splitRound_next ⟨none, none, [], none, none, none, d⟩ hB (s := ⟨p, 1, []⟩) hp
  exact ⟨a, dropped, q, h⟩

/-! ## The end of the loop -/

/-- The loop comes to the places where a piece begins. -/
theorem reached_starts (line : SplitLine) (hB : 0 ≤ B) {s s' : SplitState}
    (h : Reached (splitRound line B) s s') : Starts B line.delimiter s.arguments s'.arguments := by
  induction h with
  | refl => exact .refl
  | @tail t t' _ hstep ih =>
    by_cases ht : t.arguments = []
    · rw [splitRound_done line B ht] at hstep
      cases hstep
    · obtain ⟨a, dropped, q, hcut, hround⟩ := splitRound_next line hB ht
      rw [hround] at hstep
      cases hstep
      exact ih.tail ⟨ht, a, dropped, hcut⟩

theorem starts_reached (line : SplitLine) (hB : 0 ≤ B) {s : SplitState}
    (h : Starts B line.delimiter s.arguments p) :
    ∃ s', Reached (splitRound line B) s s' ∧ s'.arguments = p := by
  induction h with
  | refl => exact ⟨s, .refl, rfl⟩
  | @tail p q _ hstep ih =>
    obtain ⟨s', hs', rfl⟩ := ih
    obtain ⟨hne, a, dropped, hcut⟩ := hstep
    obtain ⟨a', dropped', q', hcut', hround⟩ := splitRound_next line hB hne
    obtain ⟨-, -, rfl⟩ := hcut.unique hcut'
    exact ⟨_, hs'.tail hround, rfl⟩

/-- The loop ends with the calls for the pieces. -/
def splitCalls (line : SplitLine) : Nat → List Str → List (HashtableOp Str Str)
  | _, [] => []
  | number, a :: as =>
    ircMessageSplitAdd number line.tags (splitLineMessage line a) a ++ splitCalls line (number + 1) as

theorem ends_pieces (line : SplitLine) (hB : 0 ≤ B) {s : SplitState} {r : List (HashtableOp Str Str)}
    (h : Ends (splitRound line B) s r) :
    ∃ ps, Pieces B line.delimiter s.arguments ps ∧
      r = s.calls ++ splitCalls line s.number (ps.map Prod.fst) := by
  refine h.induction (P := fun s => ∃ ps, Pieces B line.delimiter s.arguments ps ∧
    r = s.calls ++ splitCalls line s.number (ps.map Prod.fst)) (fun s hs => ?_) (fun s s' hs _ ih => ?_)
  · by_cases hp : s.arguments = []
    · rw [splitRound_done line B hp] at hs
      cases hs
      rw [hp]
      exact ⟨[], .nil, (List.append_nil _).symm⟩
    · obtain ⟨a, dropped, q, -, hround⟩ := splitRound_next line hB hp
      rw [hround] at hs
      cases hs
  · by_cases hp : s.arguments = []
    · rw [splitRound_done line B hp] at hs
      cases hs
    · obtain ⟨a, dropped, q, hcut, hround⟩ := splitRound_next line hB hp
      rw [hround] at hs
      cases hs
      obtain ⟨ps, hps, hr⟩ := ih
      refine ⟨(a, dropped) :: ps, .cons hp hcut hps, hr.trans ?_⟩
      simp only [List.map_cons, splitCalls, List.append_assoc]

/-- With a delimiter of one byte, the first characters of the pieces fit when
all characters do. -/
theorem starts_size_iff (hd : utf8LeadSize d = 1) (hB : 1 ≤ B) (p : Str) :
    (∀ q, Starts B d p q → q ≠ [] → utf8CharSize q ≤ B ∨ q.head? = some d) ↔
      ∀ q, Boundary p q → q ≠ [] → utf8CharSize q ≤ B := by
  constructor
  · intro hall q hb hq
    by_cases hp : p = []
    · subst hp
      exact absurd (List.eq_nil_of_suffix_nil hb.suffix) hq
    obtain ⟨a, dropped, r, hcut⟩ := isCut_exists d (Int.le_trans (by decide) hB) hp
    by_cases hlt : r.length < q.length
    · exact hcut.size_le hd hB hb hlt
    · have hr : Boundary r q := by
        rcases (hcut.boundary hd).total hb with h | h
        · exact h
        · rw [hb.eq_of_length (hcut.boundary hd) (Nat.le_antisymm (Nat.not_lt.mp hlt) h.suffix.length_le)]
          exact .refl r
      have hshort := hcut.length_lt (Int.le_trans (by decide) hB) hp (hall p .refl hp)
      exact (starts_size_iff hd hB r).mp (fun q' hq' => hall q' (.head ⟨hp, a, dropped, hcut⟩ hq')) q hr hq
  · intro hall q hs hq
    refine .inl (hall q ?_ hq)
    clear hq
    induction hs with
    | refl => exact .refl p
    | tail _ hstep ih =>
      obtain ⟨-, a, dropped, hcut⟩ := hstep
      exact ih.trans (hcut.boundary hd)
termination_by p.length
decreasing_by exact hshort

/-- The function returns, and each round of its loop advances `arguments`. -/
structure SplitTerminates (line : SplitLine) (arguments : Option Str) (maxLengthHost maxLength : Int) : Prop where
  returns : ∃ rounds r, ircMessageSplitString line arguments maxLengthHost maxLength rounds = some r
  advances : ∀ s s', 2 ≤ splitMaxLength line maxLengthHost maxLength →
    Reached (splitRound line (splitMaxLength line maxLengthHost maxLength)) ⟨orEmpty arguments, 1, []⟩ s →
    splitRound line (splitMaxLength line maxLengthHost maxLength) s = .next s' →
    s'.arguments.length < s.arguments.length

theorem ircMessageSplitString_returns_iff (line : SplitLine) (arguments : Option Str)
    (maxLengthHost maxLength : Int) :
    (∃ rounds r, ircMessageSplitString line arguments maxLengthHost maxLength rounds = some r) ↔
      splitMaxLength line maxLengthHost maxLength < 2 ∨
        ∃ r, Ends (splitRound line (splitMaxLength line maxLengthHost maxLength)) ⟨orEmpty arguments, 1, []⟩ r := by
  simp only [ircMessageSplitString]
  split
  · rename_i hB
    exact ⟨fun _ => .inl hB, fun _ => ⟨0, _, rfl⟩⟩
  · rename_i hB
    split
    · rename_i hempty
      exact ⟨fun _ => .inr ⟨[], (ends_done (splitRound_done line _ hempty)).mpr rfl⟩, fun _ => ⟨0, _, rfl⟩⟩
    · constructor
      · rintro ⟨rounds, r, h⟩
        obtain ⟨calls, hcalls, -⟩ := Option.map_eq_some_iff.mp h
        exact .inr ⟨calls, rounds, hcalls⟩
      · rintro (h | ⟨r, rounds, h⟩)
        · exact absurd h hB
        · exact ⟨rounds, (1, r), by rw [h]; rfl⟩

theorem splitTerminates_iff (line : SplitLine) (arguments : Option Str) (maxLengthHost maxLength : Int) :
    SplitTerminates line arguments maxLengthHost maxLength ↔
      splitMaxLength line maxLengthHost maxLength < 2 ∨
        ∀ p, Starts (splitMaxLength line maxLengthHost maxLength) line.delimiter (orEmpty arguments) p → p ≠ [] →
          utf8CharSize p ≤ splitMaxLength line maxLengthHost maxLength ∨ p.head? = some line.delimiter := by
  have hret := ircMessageSplitString_returns_iff line arguments maxLengthHost maxLength
  generalize hM : splitMaxLength line maxLengthHost maxLength = B at hret ⊢
  constructor
  · intro h
    rcases Int.lt_or_le B 2 with hB | hB
    · exact .inl hB
    · refine .inr fun p hs hp => ?_
      obtain ⟨s, hreach, rfl⟩ := starts_reached line (B := B) (s := ⟨orEmpty arguments, 1, []⟩) (by omega) hs
      obtain ⟨a, dropped, q, hcut, hround⟩ := splitRound_next line (B := B) (by omega) hp
      have hlt := h.advances s _ (by rw [hM]; exact hB) (by rw [hM]; exact hreach) (by rw [hM]; exact hround)
      -- a piece that begins where nothing fits is empty, and the next one begins at the same place
      by_contra hc
      obtain ⟨hsize, hhead⟩ := not_or.mp hc
      obtain ⟨-, -, rfl⟩ := hcut.unique (isCut_stuck (by omega) hp (Int.not_le.mp hsize) hhead)
      exact absurd hlt (Nat.lt_irrefl _)
  · intro h
    have hadv : ∀ s s', 2 ≤ B → Reached (splitRound line B) ⟨orEmpty arguments, 1, []⟩ s →
        splitRound line B s = .next s' → s'.arguments.length < s.arguments.length := by
      intro s s' hB hs hround
      by_cases hp : s.arguments = []
      · rw [splitRound_done line _ hp] at hround
        cases hround
      · obtain ⟨a, dropped, q, hcut, hround'⟩ := splitRound_next line (B := B) (by omega) hp
        rw [hround'] at hround
        cases hround
        exact hcut.length_lt (by omega) hp
          (h.resolve_left (Int.not_lt.mpr hB) _ (reached_starts line (by omega) hs) hp)
    refine ⟨hret.mpr ?_, by rw [hM]; exact hadv⟩
    rcases Int.lt_or_le B 2 with hB | hB
    · exact .inl hB
    · exact .inr (ends_of_reached_lt (fun s => s.arguments.length) fun s s' => hadv s s' hB)

/-- The split ends if and only if it comes to no place where neither the first
character fits nor a delimiter is. With a delimiter of one byte, these are the
arguments all characters of which fit. -/
theorem ircMessageSplitString_terminates_iff (line : SplitLine) (arguments : Option Str)
    (maxLengthHost maxLength : Int) :
    (SplitTerminates line arguments maxLengthHost maxLength ↔
      splitMaxLength line maxLengthHost maxLength < 2 ∨
        ∀ p, Starts (splitMaxLength line maxLengthHost maxLength) line.delimiter (orEmpty arguments) p → p ≠ [] →
          utf8CharSize p ≤ splitMaxLength line maxLengthHost maxLength ∨ p.head? = some line.delimiter) ∧
    (utf8LeadSize line.delimiter = 1 →
      (SplitTerminates line arguments maxLengthHost maxLength ↔
        splitMaxLength line maxLengthHost maxLength < 2 ∨
          ∀ p, Boundary (orEmpty arguments) p → p ≠ [] →
            utf8CharSize p ≤ splitMaxLength line maxLengthHost maxLength)) := by
  refine ⟨splitTerminates_iff .., fun hd => (splitTerminates_iff ..).trans ?_⟩
  rcases Int.lt_or_le (splitMaxLength line maxLengthHost maxLength) 2 with hB | hB
  · exact ⟨fun _ => .inl hB, fun _ => .inl hB⟩
  · rw [starts_size_iff hd (by omega)]

/-- With a budget of two bytes, a character of three bytes is never passed. -/
theorem ircMessageSplitString_terminates_fails :
    ¬ ∃ rounds r, ircMessageSplitString ⟨none, none, lit "A", none, none, none, ch ' '⟩
      (some [0xE2, 0x82, 0xAC]) (-1) 6 rounds = some r := by
  intro h
  rcases (ircMessageSplitString_returns_iff ..).mp h with hB | ⟨r, hr⟩
  · exact absurd hB (by decide)
  · refine not_ends_of_closed (I := fun s => s.arguments = [0xE2, 0x82, 0xAC]) (fun s hs => ?_) rfl hr
    obtain ⟨a, dropped, q, hcut, hround⟩ := splitRound_next ⟨none, none, lit "A", none, none, none, ch ' '⟩
      (B := 2) (by decide) (s := s) (by rw [hs]; decide)
    rw [hs] at hcut
    obtain ⟨-, -, rfl⟩ := hcut.unique (isCut_stuck (by decide) (by decide) (by decide) (by decide))
    exact ⟨_, hround, rfl⟩

end

end Wirc

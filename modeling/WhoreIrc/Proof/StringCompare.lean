import WhoreIrc.Impl.StringMatch
import WhoreIrc.Proof.StringCase
import WhoreIrc.Proof.Utf8

/-!
# What the comparison ignores (`stringStrcmpIgnoreChars_iff`)

Strings are compared by the first bytes of their characters that are not
ignored (`leads`), and a string without any character is not the same as one
with ignored characters only (`stringStrcmpIgnoreChars_eq_zero`).
-/

namespace Wirc

/-- The string without the ignored characters. -/
def withoutIgnored (charsIgnored string : Str) : Str := string.filter (· ∉ charsIgnored)

/-- The first bytes of the characters. -/
def firstBytes (string : Str) : Str := string.filter (¬ · &&& 0xC0 = 0x80)

variable {charsIgnored string : Str}

/-! ## One character -/

theorem firstBytes_withoutIgnored_cons {b : Byte} {s : Str} (h : utf8IsValid (b :: s) = none) :
    firstBytes (withoutIgnored charsIgnored (b :: s)) =
      (if b ∈ charsIgnored then [] else [b]) ++ firstBytes (withoutIgnored charsIgnored (utf8NextChar (b :: s))) := by
  obtain ⟨t, hchar, hs, -⟩ := valid_cons h
  obtain ⟨hb, ht⟩ := hchar.continuation
  have hrest : firstBytes (withoutIgnored charsIgnored t) = [] :=
    List.filter_eq_nil_iff.mpr fun d hd => by simpa using ht d (List.mem_of_mem_filter hd)
  have hsplit : firstBytes (withoutIgnored charsIgnored s) =
      firstBytes (withoutIgnored charsIgnored (utf8NextChar (b :: s))) := by
    conv_lhs => rw [hs]
    rw [withoutIgnored, List.filter_append, firstBytes, List.filter_append]
    exact congrArg (· ++ _) hrest
  rw [← hsplit]
  by_cases hmem : b ∈ charsIgnored <;> simp [withoutIgnored, firstBytes, hmem, hb]

/-- Only ignored characters are skipped. -/
theorem skipIgnored_valid (h : utf8IsValid string = none) : utf8IsValid (skipIgnored charsIgnored string) = none ∧
    firstBytes (withoutIgnored charsIgnored (skipIgnored charsIgnored string)) = firstBytes (withoutIgnored charsIgnored string) := by
  fun_induction skipIgnored charsIgnored string with
  | case1 => exact ⟨h, rfl⟩
  | case2 b s hb ih =>
    obtain ⟨-, -, -, hnext⟩ := valid_cons h
    obtain ⟨hvalid, heq⟩ := ih hnext
    rw [firstBytes_withoutIgnored_cons h, if_pos hb]
    exact ⟨hvalid, heq⟩
  | case3 b s _ => exact ⟨h, rfl⟩

theorem skipIgnored_head {b : Byte} {s : Str} (h : skipIgnored charsIgnored string = b :: s) : b ∉ charsIgnored := by
  fun_induction skipIgnored charsIgnored string with
  | case1 => cases h
  | case2 _ _ _ ih => exact ih h
  | case3 c t hc =>
    obtain ⟨rfl, -⟩ := List.cons.inj h
    exact hc

/-- What is left begins with the first byte of a character that is not ignored. -/
theorem firstBytes_skipIgnored {b : Byte} {s : Str} (h : utf8IsValid string = none)
    (heq : skipIgnored charsIgnored string = b :: s) : firstBytes (withoutIgnored charsIgnored string) =
      b :: firstBytes (withoutIgnored charsIgnored (utf8NextChar (b :: s))) := by
  obtain ⟨hvalid, hfirst⟩ := @skipIgnored_valid charsIgnored string h
  rw [heq] at hvalid hfirst
  rw [← hfirst, firstBytes_withoutIgnored_cons hvalid, if_neg (skipIgnored_head heq)]
  rfl

theorem skipIgnored_eq_nil (h : utf8IsValid string = none) :
    skipIgnored charsIgnored string = [] ↔ firstBytes (withoutIgnored charsIgnored string) = [] := by
  cases heq : skipIgnored charsIgnored string with
  | nil =>
    rw [← (@skipIgnored_valid charsIgnored string h).2, heq]
    exact ⟨fun _ => rfl, fun _ => rfl⟩
  | cons b s =>
    rw [firstBytes_skipIgnored h heq]
    exact iff_of_false (List.cons_ne_nil _ _) (List.cons_ne_nil _ _)

/-- Without a first byte, nothing is left. -/
theorem withoutIgnored_eq_nil (hignored : ∀ c ∈ charsIgnored, c < 0x80) (h : utf8IsValid string = none)
    (hfirst : firstBytes (withoutIgnored charsIgnored string) = []) : withoutIgnored charsIgnored string = [] := by
  fun_induction utf8Strlen string with
  | case1 => rfl
  | case2 string hne ih =>
    obtain ⟨b, s, rfl⟩ := List.exists_cons_of_ne_nil hne
    obtain ⟨t, hchar, hs, hnext⟩ := valid_cons h
    rw [firstBytes_withoutIgnored_cons h] at hfirst
    obtain ⟨hb, hrest⟩ := List.append_eq_nil_iff.mp hfirst
    have hmem : b ∈ charsIgnored := by
      by_contra hb'
      rw [if_neg hb'] at hb
      cases hb
    -- an ASCII character is one byte
    have ht : t = [] := by
      obtain ⟨b, t, heq, hsize, -⟩ := hchar
      obtain ⟨rfl, rfl⟩ := List.cons.inj heq
      rw [utf8LeadSize_ascii (hignored b hmem)] at hsize
      exact List.length_eq_zero_iff.mp (Nat.succ.inj hsize)
    rw [ht, List.nil_append] at hs
    rw [withoutIgnored, List.filter_cons_of_neg (by simpa using hmem), hs]
    exact ih hnext hrest

/-! ## The comparison -/

theorem charInt_injective {b c : Byte} (h : charInt b = charInt c) : b = c :=
  congrArg Int8.toUInt8 (Int8.toInt_inj.mp h)

/-- Strings compare equal by the first bytes of their characters. -/
theorem stringStrcmpIgnoreChars_eq_zero (string1 string2 charsIgnored : Str) (h1 : utf8IsValid string1 = none)
    (h2 : utf8IsValid string2 = none) : stringStrcmpIgnoreChars string1 string2 charsIgnored true = 0 ↔
      firstBytes (withoutIgnored charsIgnored string1) = firstBytes (withoutIgnored charsIgnored string2) ∧
        (string1 = [] ↔ string2 = []) := by
  rw [stringStrcmpIgnoreChars]
  by_cases hne : string1 ≠ [] ∧ string2 ≠ []
  · rw [if_pos hne, and_iff_left (iff_of_false hne.1 hne.2)]
    dsimp only
    cases hrest1 : skipIgnored charsIgnored string1 with
    | nil =>
      rw [dif_pos rfl, (skipIgnored_eq_nil h1).mp hrest1, eq_comm (a := []), ← skipIgnored_eq_nil h2]
      split
      · rename_i hrest2
        exact iff_of_true rfl hrest2
      · rename_i hrest2
        exact iff_of_false (by decide) hrest2
    | cons b s =>
      rw [dif_neg (List.cons_ne_nil b s), firstBytes_skipIgnored h1 hrest1]
      cases hrest2 : skipIgnored charsIgnored string2 with
      | nil =>
        rw [if_pos rfl, (skipIgnored_eq_nil h2).mp hrest2]
        exact iff_of_false (by decide) (List.cons_ne_nil _ _)
      | cons c t =>
        rw [if_neg (List.cons_ne_nil c t), firstBytes_skipIgnored h2 hrest2]
        by_cases hdiff : charDiff (b :: s) (c :: t) true = 0
        · -- the same first byte: the comparison goes on after the two characters
          have hbc : b = c := charInt_injective (Int.sub_eq_zero.mp hdiff)
          subst hbc
          have hvalid1 : utf8IsValid (b :: s) = none := hrest1 ▸ (skipIgnored_valid h1).1
          have hvalid2 : utf8IsValid (b :: t) = none := hrest2 ▸ (skipIgnored_valid h2).1
          obtain ⟨-, -, -, hnext1⟩ := valid_cons hvalid1
          obtain ⟨-, -, -, hnext2⟩ := valid_cons hvalid2
          have hlt : (skipIgnored charsIgnored (utf8NextChar (b :: s))).length < string1.length := by
            have hskip := skipIgnored_length_le charsIgnored string1
            have hnext := utf8NextChar_length_lt (List.cons_ne_nil b s)
            have hrest := skipIgnored_length_le charsIgnored (utf8NextChar (b :: s))
            rw [hrest1] at hskip
            omega
          rw [if_neg (not_not.mpr hdiff), stringStrcmpIgnoreChars_eq_zero _ _ charsIgnored (skipIgnored_valid hnext1).1
            (skipIgnored_valid hnext2).1, (skipIgnored_valid hnext1).2, (skipIgnored_valid hnext2).2,
            skipIgnored_eq_nil hnext1, skipIgnored_eq_nil hnext2]
          constructor
          · rintro ⟨hfirst, -⟩
            rw [hfirst]
          · intro hfirst
            obtain ⟨-, htail⟩ := List.cons.inj hfirst
            rw [htail]
            exact ⟨rfl, Iff.rfl⟩
        · rw [if_pos hdiff]
          refine iff_of_false (by split <;> decide) fun hfirst => hdiff ?_
          rw [(List.cons.inj hfirst).1]
          exact Int.sub_self _
  · rw [if_neg hne]
    rw [not_and_or, not_not, not_not] at hne
    rcases hne with rfl | rfl
    · split
      · rename_i hne2
        exact iff_of_false (by decide) fun h => hne2 (h.2.mp rfl)
      · rename_i hnil2
        rw [not_not.mp hnil2, if_neg (not_not.mpr rfl)]
        exact iff_of_true rfl ⟨rfl, Iff.rfl⟩
    · rw [if_neg (not_not.mpr rfl)]
      split
      · rename_i hne1
        exact iff_of_false (by decide) fun h => hne1 (h.2.mpr rfl)
      · rename_i hnil1
        rw [not_not.mp hnil1]
        exact iff_of_true rfl ⟨rfl, Iff.rfl⟩
termination_by string1.length
decreasing_by exact hlt

theorem charDiff_swap (string1 string2 : Str) (caseSensitive : Bool) :
    charDiff string2 string1 caseSensitive = - charDiff string1 string2 caseSensitive := by
  cases caseSensitive with
  | true => exact (Int.neg_sub _ _).symm
  | false => exact utf8Charcasecmp_swap string1 string2

theorem stringStrcmpIgnoreChars_swap (string1 string2 charsIgnored : Str) (caseSensitive : Bool) :
    stringStrcmpIgnoreChars string2 string1 charsIgnored caseSensitive =
      - stringStrcmpIgnoreChars string1 string2 charsIgnored caseSensitive := by
  fun_induction stringStrcmpIgnoreChars string1 string2 charsIgnored caseSensitive with
  | case1 string1 string2 hne rest1 rest2 hrest1 hrest2 =>
    rw [stringStrcmpIgnoreChars, if_pos hne.symm, dif_pos hrest2, if_pos hrest1]
    rfl
  | case2 string1 string2 hne rest1 rest2 hrest1 hrest2 =>
    rw [stringStrcmpIgnoreChars, if_pos hne.symm, dif_neg hrest2, if_pos hrest1]
    rfl
  | case3 string1 string2 hne rest1 rest2 hrest1 hrest2 =>
    rw [stringStrcmpIgnoreChars, if_pos hne.symm, dif_pos hrest2, if_neg hrest1]
  | case4 string1 string2 hne rest1 rest2 hrest1 hrest2 diff hdiff hneg =>
    have hswap : charDiff rest2 rest1 caseSensitive = -diff := charDiff_swap rest1 rest2 caseSensitive
    rw [stringStrcmpIgnoreChars, if_pos hne.symm, dif_neg hrest2, if_neg hrest1, hswap, if_pos (by omega),
      if_neg (by omega)]
    rfl
  | case5 string1 string2 hne rest1 rest2 hrest1 hrest2 diff hdiff hneg =>
    have hswap : charDiff rest2 rest1 caseSensitive = -diff := charDiff_swap rest1 rest2 caseSensitive
    rw [stringStrcmpIgnoreChars, if_pos hne.symm, dif_neg hrest2, if_neg hrest1, hswap, if_pos (by omega),
      if_pos (by omega)]
  | case6 string1 string2 hne rest1 rest2 hrest1 hrest2 diff hdiff ih =>
    have hswap : charDiff rest2 rest1 caseSensitive = -diff := charDiff_swap rest1 rest2 caseSensitive
    rw [stringStrcmpIgnoreChars, if_pos hne.symm, dif_neg hrest2, if_neg hrest1, hswap, if_neg (by omega), ih]
  | case7 string1 string2 hne h2 =>
    have h1 : string1 = [] := by_contra fun h => hne ⟨h, h2⟩
    rw [stringStrcmpIgnoreChars, if_neg fun h => hne h.symm, if_neg (not_not.mpr h1), if_pos h2]
    rfl
  | case8 string1 string2 hne h2 h1 =>
    rw [stringStrcmpIgnoreChars, if_neg fun h => hne h.symm, if_pos h1]
  | case9 string1 string2 hne h2 h1 =>
    rw [stringStrcmpIgnoreChars, if_neg fun h => hne h.symm, if_neg h1, if_neg h2]
    rfl

/-! ## The claim about the two strings -/

/-- Strings compare equal when nothing else differs, and the other way round when exchanged. -/
def IgnoresChars (string1 string2 charsIgnored : Str) : Prop :=
  (stringStrcmpIgnoreChars string1 string2 charsIgnored true = 0 ↔
      withoutIgnored charsIgnored string1 = withoutIgnored charsIgnored string2) ∧
    stringStrcmpIgnoreChars string2 string1 charsIgnored true = - stringStrcmpIgnoreChars string1 string2 charsIgnored true

/-- Exactly the ignored characters do not matter if and only if the other characters do
not differ after their first bytes only, and not just one of the strings is empty when
no other characters differ. -/
theorem stringStrcmpIgnoreChars_iff (string1 string2 charsIgnored : Str) (h1 : utf8IsValid string1 = none)
    (h2 : utf8IsValid string2 = none) (hignored : ∀ c ∈ charsIgnored, c < 0x80) :
    IgnoresChars string1 string2 charsIgnored ↔
      (firstBytes (withoutIgnored charsIgnored string1) = firstBytes (withoutIgnored charsIgnored string2) →
        withoutIgnored charsIgnored string1 = withoutIgnored charsIgnored string2) ∧
      (withoutIgnored charsIgnored string1 = withoutIgnored charsIgnored string2 → (string1 = [] ↔ string2 = [])) := by
  rw [IgnoresChars, and_iff_left (stringStrcmpIgnoreChars_swap _ _ _ _),
    stringStrcmpIgnoreChars_eq_zero string1 string2 charsIgnored h1 h2]
  have hnil1 := @withoutIgnored_eq_nil charsIgnored string1 hignored h1
  have hnil2 := @withoutIgnored_eq_nil charsIgnored string2 hignored h2
  constructor
  · refine fun h => ⟨fun hfirst => ?_, fun heq => (h.mpr heq).2⟩
    by_cases hempty : string1 = [] ↔ string2 = []
    · exact h.mp ⟨hfirst, hempty⟩
    · -- the empty string has no first bytes
      rw [not_iff] at hempty
      by_cases hstring1 : string1 = []
      · subst hstring1
        exact (hnil2 hfirst.symm).symm
      · have hstring2 := hempty.mp hstring1
        subst hstring2
        exact hnil1 hfirst
  · rintro ⟨hfirst, hempty⟩
    refine ⟨fun h => hfirst h.1, fun heq => ⟨congrArg firstBytes heq, hempty heq⟩⟩

/-- The claim's condition is met by two strings of ASCII characters. -/
theorem stringStrcmpIgnoreChars_iff_ascii : IgnoresChars (lit "abc..abc") (lit "abc-.-.abc") (lit ".-") :=
  (stringStrcmpIgnoreChars_iff (lit "abc..abc") (lit "abc-.-.abc") (lit ".-") (utf8IsValid_ascii (by decide))
    (utf8IsValid_ascii (by decide)) (by decide)).mpr (by decide)

/-- `é` and `è` begin with the same byte. -/
theorem stringStrcmpIgnoreChars_fails : utf8IsValid [0xC3, 0xA9] = none ∧ utf8IsValid [0xC3, 0xA8] = none ∧
    ¬ IgnoresChars [0xC3, 0xA9] [0xC3, 0xA8] [] := by
  have hvalid1 : utf8IsValid [0xC3, 0xA9] = none := by
    rw [utf8IsValid, if_pos (by decide), utf8IsValid.eq_def]
    rfl
  have hvalid2 : utf8IsValid [0xC3, 0xA8] = none := by
    rw [utf8IsValid, if_pos (by decide), utf8IsValid.eq_def]
    rfl
  refine ⟨hvalid1, hvalid2, fun h => absurd (h.1.mp ?_) (by decide)⟩
  exact (stringStrcmpIgnoreChars_eq_zero [0xC3, 0xA9] [0xC3, 0xA8] [] hvalid1 hvalid2).mpr (by decide)

end Wirc

import WhoreIrc.Proof.CString
import WhoreIrc.Proof.Utf8
import WhoreIrc.Spec.IrcColor

/-!
# Colors are removed (`color_strip_iff`)

Both loops remove the same codes, but for what they skip after the digits of a color
(`stripped`, for a way to skip it). The text that is left has no codes, so that nothing
more is removed (`stripped_self`), and the two ways to skip give the same text unless a
comma is not followed by a digit: then one text is shorter (`stripped_cases`).
-/

namespace Wirc

variable {env : IrcColorEnv} {bg : ColorBg} {c : Byte} {string : Str}

/-! ## Skipping -/

theorem digits_append (string : Str) : (ircColorDigits string).1 ++ (ircColorDigits string).2 = string := by
  have hprefix : (string.take 2).takeWhile isdigit <+: string :=
    (List.takeWhile_prefix _).trans (List.take_prefix 2 string)
  show (string.take 2).takeWhile isdigit ++ string.drop ((string.take 2).takeWhile isdigit).length = string
  conv_rhs => rw [← List.take_append_drop ((string.take 2).takeWhile isdigit).length string]
  rw [← List.prefix_iff_eq_take.mp hprefix]

theorem digits_forall (string : Str) : ∀ c ∈ (ircColorDigits string).1, isdigit c = true :=
  fun _ hc => List.mem_takeWhile_imp hc

/-- What `irc_color_encode` skips. -/
def encodeBg : ColorBg where
  skip string := (ircColorEncodeBg string).2
  skipped string := by
    cases string with
    | nil => exact ⟨[], rfl, List.forall_mem_nil _⟩
    | cons c string =>
      rw [ircColorEncodeBg]
      split
      · rename_i hc
        refine ⟨c :: (ircColorDigits string).1, ?_, List.forall_mem_cons.mpr ⟨.inl hc, fun d hd => ?_⟩⟩
        · rw [List.cons_append, digits_append]
        · exact .inr (digits_forall string d hd)
      · exact ⟨[], rfl, List.forall_mem_nil _⟩

/-- What `irc_color_decode` skips. -/
def decodeBg : ColorBg where
  skip string := (ircColorDecodeBg string).2
  skipped string := by
    cases string with
    | nil => exact ⟨[], rfl, List.forall_mem_nil _⟩
    | cons c string =>
      rw [ircColorDecodeBg]
      split
      · rename_i hc
        refine ⟨c :: (ircColorDigits string).1, ?_, List.forall_mem_cons.mpr ⟨.inl hc.1, fun d hd => ?_⟩⟩
        · rw [List.cons_append, digits_append]
        · exact .inr (digits_forall string d hd)
      · exact ⟨[], rfl, List.forall_mem_nil _⟩

/-- A color is followed by chars that are neither control chars nor parts of others. -/
theorem skip_append (bg : ColorBg) (string : Str) :
    ∃ chars, string = chars ++ bg.skip (ircColorDigits string).2 ∧ ∀ c ∈ chars, c = ch ',' ∨ isdigit c = true := by
  obtain ⟨chars, hchars, hall⟩ := bg.skipped (ircColorDigits string).2
  refine ⟨(ircColorDigits string).1 ++ chars, ?_, fun c hc => ?_⟩
  · rw [List.append_assoc, ← hchars, digits_append]
  · rcases List.mem_append.mp hc with hc | hc
    · exact .inr (digits_forall string c hc)
    · exact hall c hc

set_option maxRecDepth 10000 in
theorem ascii_of_skipped (h : c = ch ',' ∨ isdigit c = true) : c < 0x80 ∧ isColorChar c = false :=
  byte_forall (P := fun c => c = ch ',' ∨ isdigit c = true → c < 0x80 ∧ isColorChar c = false) (by decide) c h

set_option maxRecDepth 10000 in
theorem ascii_of_colorChar (h : isColorChar c = true) : c < 0x80 :=
  byte_forall (P := fun c => isColorChar c = true → c < 0x80) (by decide) c h

set_option maxRecDepth 10000 in
theorem not_colorChar_of_continuation (h : c &&& 0xC0 = 0x80) : isColorChar c = false ∧ c ≠ 0x11 :=
  byte_forall (P := fun c => c &&& 0xC0 = 0x80 → isColorChar c = false ∧ c ≠ 0x11) (by decide) c h

/-! ## Valid strings -/

/-- A byte of a valid string that is a char by itself is before a valid string. -/
theorem valid_of_ascii (h : utf8IsValid (c :: string) = none) (hc : c < 0x80) : utf8IsValid string = none := by
  rw [utf8IsValid] at h
  split at h
  · rw [utf8LeadSize_ascii hc] at h
    exact h
  · cases h

theorem valid_of_chars {chars : Str} (h : utf8IsValid (chars ++ string) = none) (hchars : ∀ c ∈ chars, c < 0x80) :
    utf8IsValid string = none := by
  induction chars with
  | nil => exact h
  | cons c chars ih =>
    rw [List.forall_mem_cons] at hchars
    exact ih (valid_of_ascii h hchars.1) hchars.2

/-- The rest of a valid string is valid. -/
theorem valid_turn (bg : ColorBg) (h : utf8IsValid (c :: string) = none) :
    utf8IsValid (stripTurn bg c string).2 = none := by
  rw [stripTurn]
  split
  · rename_i hc
    obtain ⟨chars, hchars, hall⟩ := skip_append bg string
    have hvalid := valid_of_ascii h (hc ▸ by decide)
    rw [hchars] at hvalid
    exact valid_of_chars hvalid fun d hd => (ascii_of_skipped (hall d hd)).1
  · split
    · rename_i hc
      exact valid_of_ascii h (ascii_of_colorChar hc)
    · exact (valid_cons h).choose_spec.2.2

/-- A char of a valid string, and the rest. -/
theorem turn_char (bg : ColorBg) (h : utf8IsValid (c :: string) = none) (hc : isColorChar c = false) :
    ∃ t, stripTurn bg c string = (c :: t, utf8NextChar (c :: string)) ∧ string = t ++ utf8NextChar (c :: string) ∧
      ∀ d ∈ t, isColorChar d = false ∧ d ≠ 0x11 := by
  obtain ⟨t, hchar, hstring, -⟩ := valid_cons h
  refine ⟨t, ?_, hstring, fun d hd => not_colorChar_of_continuation (hchar.continuation.2 d hd)⟩
  have hne : c ≠ 0x03 := fun heq => absurd hc (heq ▸ by decide)
  have hsize : utf8CharSize (c :: string) = (c :: t).length := by
    conv_lhs => rw [hstring, ← List.cons_append, hchar.charSize]
  have htake : (c :: string).take (c :: t).length = c :: t := by
    conv_lhs => rw [hstring, ← List.cons_append, List.take_left]
  rw [stripTurn, if_neg hne, if_neg (by rw [hc]; exact Bool.false_ne_true), hsize, htake]

/-! ## The text that is left -/

theorem stripped_nil (bg : ColorBg) : stripped bg [] = [] := by rw [stripped]

theorem stripped_cons (bg : ColorBg) (c : Byte) (string : Str) :
    stripped bg (c :: string) = (stripTurn bg c string).1 ++ stripped bg (stripTurn bg c string).2 := by
  rw [stripped]

/-- The turns of a string are an induction on it. -/
theorem turn_induction (bg : ColorBg) {P : Str → Prop} (hnil : P [])
    (hcons : ∀ c string, P (stripTurn bg c string).2 → P (c :: string)) (string : Str) : P string := by
  induction hn : string.length using Nat.strong_induction_on generalizing string with
  | _ n ih =>
    cases string with
    | nil => exact hnil
    | cons c string => exact hcons c string (ih _ (hn ▸ stripTurn_length_lt bg c string) _ rfl)

/-- Of a turn nothing is left, or a char that is no control char. -/
theorem turn_cases (bg : ColorBg) (c : Byte) (string : Str) :
    isColorChar c = true ∧ (stripTurn bg c string).1 = [] ∨ isColorChar c = false := by
  cases hc : isColorChar c with
  | false => exact .inr rfl
  | true =>
    refine .inl ⟨rfl, ?_⟩
    rw [stripTurn, if_pos hc]
    split <;> rfl

theorem turn_suffix (bg : ColorBg) (c : Byte) (string : Str) : (stripTurn bg c string).2 <:+ c :: string := by
  rw [stripTurn]
  split
  · obtain ⟨chars, hchars, -⟩ := skip_append bg string
    exact ⟨c :: chars, by conv_rhs => rw [hchars, ← List.cons_append]⟩
  · split
    · exact List.suffix_cons c string
    · exact List.drop_suffix _ _

/-- A turn leaves no more than it takes. -/
theorem turn_length (bg : ColorBg) (c : Byte) (string : Str) :
    (stripTurn bg c string).1.length + (stripTurn bg c string).2.length ≤ string.length + 1 := by
  have hsuffix := (turn_suffix bg c string).length_le
  rw [stripTurn] at hsuffix ⊢
  split
  · rwa [if_pos ‹_›, List.length_cons, ← Nat.zero_add (List.length _)] at hsuffix
  · split
    · exact Nat.le_of_eq ((Nat.zero_add _).trans rfl) |>.trans (Nat.le_succ _)
    · rw [utf8NextChar, ← List.length_append, List.take_append_drop, List.length_cons]

/-- There is no control char in the text that is left of a valid string. -/
theorem stripped_clean (bg : ColorBg) (h : utf8IsValid string = none) (hfixed : 0x11 ∉ string) :
    ∀ d ∈ stripped bg string, isColorChar d = false ∧ d ≠ 0x11 := by
  induction string using turn_induction bg with
  | hnil =>
    rw [stripped_nil]
    exact List.forall_mem_nil _
  | hcons c string ih =>
    have hrest : 0x11 ∉ (stripTurn bg c string).2 := fun hmem =>
      hfixed ((turn_suffix bg c string).subset hmem)
    rw [stripped_cons, List.forall_mem_append]
    refine ⟨?_, ih (valid_turn bg h) hrest⟩
    rcases turn_cases bg c string with ⟨-, hnil⟩ | hc
    · rw [hnil]
      exact List.forall_mem_nil _
    · obtain ⟨t, hturn, -, ht⟩ := turn_char bg h hc
      rw [hturn, List.forall_mem_cons]
      exact ⟨⟨hc, fun heq => hfixed (heq ▸ List.mem_cons_self)⟩, ht⟩

/-- Of a text without control chars all is left. -/
theorem stripped_self (bg : ColorBg) (h : ∀ c ∈ string, isColorChar c = false) : stripped bg string = string := by
  induction string using turn_induction bg with
  | hnil => exact stripped_nil bg
  | hcons c string ih =>
    obtain ⟨hc, hstring⟩ := List.forall_mem_cons.mp h
    have hne : c ≠ 0x03 := fun heq => absurd hc (heq ▸ by decide)
    have hturn : stripTurn bg c string =
        ((c :: string).take (utf8CharSize (c :: string)), utf8NextChar (c :: string)) := by
      rw [stripTurn, if_neg hne, if_neg (by rw [hc]; exact Bool.false_ne_true)]
    rw [stripped_cons]
    rw [hturn] at ih ⊢
    have hnext : stripped bg (utf8NextChar (c :: string)) = utf8NextChar (c :: string) :=
      ih fun d hd => h d (List.mem_of_mem_drop hd)
    rw [hnext, utf8NextChar, List.take_append_drop]

theorem stripped_length_le (bg : ColorBg) (string : Str) : (stripped bg string).length ≤ string.length := by
  induction string using turn_induction bg with
  | hnil => rw [stripped_nil]
  | hcons c string ih =>
    have hturn := turn_length bg c string
    rw [stripped_cons, List.length_append, List.length_cons]
    omega

/-! ## Two ways to skip -/

theorem noBareComma_cons : NoBareComma (c :: string) ↔ (c = 0x03 → bareComma string = false) ∧ NoBareComma string := by
  constructor
  · intro h
    exact ⟨fun hc => h string (hc ▸ List.suffix_rfl), fun rest hrest => h rest (hrest.trans (List.suffix_cons c string))⟩
  · rintro ⟨hc, hstring⟩ rest hrest
    rcases List.suffix_cons_iff.mp hrest with heq | hrest
    · obtain ⟨rfl, rfl⟩ := List.cons.inj heq
      exact hc rfl
    · exact hstring rest hrest

theorem noBareComma_append {chars : Str} (h : 0x03 ∉ chars) : NoBareComma (chars ++ string) ↔ NoBareComma string := by
  induction chars with
  | nil => exact Iff.rfl
  | cons c chars ih =>
    rw [List.mem_cons, not_or] at h
    rw [List.cons_append, noBareComma_cons, ih h.2]
    exact and_iff_right fun hc => absurd hc.symm h.1

theorem isColorChar_color : isColorChar 0x03 = true := rfl

/-- After digits without a bare comma both skip the same. -/
theorem skip_eq (h : bareComma string = false) :
    encodeBg.skip (ircColorDigits string).2 = decodeBg.skip (ircColorDigits string).2 := by
  rw [bareComma] at h
  show (ircColorEncodeBg _).2 = (ircColorDecodeBg _).2
  generalize (ircColorDigits string).2 = rest at h
  cases rest with
  | nil => rfl
  | cons c rest =>
    rw [ircColorEncodeBg, ircColorDecodeBg]
    by_cases hc : c = ch ','
    · have hdigit : (rest.head?.map isdigit).getD false = true := by simpa [hc] using h
      rw [if_pos hc, if_pos ⟨hc, hdigit⟩]
    · rw [if_neg hc, if_neg fun h => hc h.1]

/-- A bare comma is skipped only when encoding. -/
theorem skip_bare (h : bareComma string = true) :
    ∃ rest, encodeBg.skip (ircColorDigits string).2 = rest ∧ decodeBg.skip (ircColorDigits string).2 = ch ',' :: rest := by
  rw [bareComma] at h
  show ∃ rest, (ircColorEncodeBg _).2 = rest ∧ (ircColorDecodeBg _).2 = ch ',' :: rest
  generalize (ircColorDigits string).2 = rest at h
  cases rest with
  | nil => cases h
  | cons c rest =>
    obtain ⟨hc, hdigit⟩ : c = ch ',' ∧ (rest.head?.map isdigit).getD false = false := by simpa using h
    have hnone : (rest.take 2).takeWhile isdigit = [] := by
      cases rest with
      | nil => rfl
      | cons d rest =>
        have hd : isdigit d = false := hdigit
        rw [List.take_succ_cons, List.takeWhile_cons_of_neg (by rw [hd]; exact Bool.false_ne_true)]
    refine ⟨rest, ?_, ?_⟩
    · rw [ircColorEncodeBg, if_pos hc]
      show rest.drop ((rest.take 2).takeWhile isdigit).length = rest
      rw [hnone]
      rfl
    · rw [ircColorDecodeBg, if_neg fun h => by rw [hdigit] at h; exact Bool.false_ne_true h.2, hc]

theorem stripped_comma (bg : ColorBg) (string : Str) :
    stripped bg (ch ',' :: string) = ch ',' :: stripped bg string := by
  have hsize : utf8CharSize (ch ',' :: string) = 1 := by
    rw [utf8CharSize, utf8LeadSize_ascii (by decide)]
    omega
  have hturn : stripTurn bg (ch ',') string = ([ch ','], string) := by
    rw [stripTurn, if_neg (by decide), if_neg (by decide), utf8NextChar, hsize]
    rfl
  rw [stripped_cons, hturn]
  rfl

/-- The texts that are left are the same, or that of encoding is shorter. -/
theorem stripped_cases (h : utf8IsValid string = none) :
    NoBareComma string ∧ stripped encodeBg string = stripped decodeBg string ∨
      ¬NoBareComma string ∧ (stripped encodeBg string).length < (stripped decodeBg string).length := by
  induction string using turn_induction encodeBg with
  | hnil =>
    refine .inl ⟨fun rest hrest => ?_, by rw [stripped_nil, stripped_nil]⟩
    cases List.suffix_nil.mp hrest
  | hcons c string ih =>
    have hrest := ih (valid_turn encodeBg h)
    rw [stripped_cons, stripped_cons]
    by_cases hc : c = 0x03
    · subst hc
      obtain ⟨chars, hchars, hall⟩ := skip_append encodeBg string
      have hno : 0x03 ∉ chars := fun hmem =>
        absurd (ascii_of_skipped (hall _ hmem)).2 (by decide)
      have hskip (bg : ColorBg) : stripTurn bg 0x03 string = ([], bg.skip (ircColorDigits string).2) := if_pos rfl
      rw [hskip] at hrest
      rw [hskip, hskip, List.nil_append, List.nil_append]
      have hcons : NoBareComma string ↔ NoBareComma (encodeBg.skip (ircColorDigits string).2) := by
        conv_lhs => rw [hchars]
        exact noBareComma_append hno
      rw [noBareComma_cons, hcons]
      cases hbare : bareComma string with
      | false =>
        rw [← skip_eq hbare]
        simpa using hrest
      | true =>
        obtain ⟨rest, hencode, hdecode⟩ := skip_bare hbare
        rw [hencode] at hrest
        rw [hencode, hdecode, stripped_comma, List.length_cons]
        refine .inr ⟨fun h => Bool.noConfusion (h.1 rfl), ?_⟩
        rcases hrest with ⟨-, heq⟩ | ⟨-, hlt⟩
        · rw [heq]
          exact Nat.lt_succ_self _
        · exact Nat.lt_succ_of_lt hlt
    · have hsame : stripTurn decodeBg c string = stripTurn encodeBg c string := by
        rw [stripTurn, stripTurn, if_neg hc, if_neg hc]
      have hcons : NoBareComma (c :: string) ↔ NoBareComma (stripTurn encodeBg c string).2 := by
        cases hcolor : isColorChar c with
        | true =>
          rw [stripTurn, if_neg hc, if_pos hcolor, noBareComma_cons]
          exact and_iff_right fun h => absurd h hc
        | false =>
          obtain ⟨t, hturn, hstring, ht⟩ := turn_char encodeBg h hcolor
          rw [hturn]
          conv_lhs => rw [hstring, ← List.cons_append]
          refine noBareComma_append fun hmem => ?_
          rcases List.mem_cons.mp hmem with heq | hmem
          · exact hc heq.symm
          · exact absurd (ht _ hmem).1 (by decide)
      rw [hsame, hcons, List.append_cancel_left_eq, List.length_append, List.length_append]
      rcases hrest with hrest | ⟨hbare, hlt⟩
      · exact .inl hrest
      · exact .inr ⟨hbare, Nat.add_lt_add_left hlt _⟩

/-! ## Encoding -/

theorem isColorChar_iff : isColorChar c = true ↔ c = 0x02 ∨ c = 0x03 ∨ c = 0x0F ∨ c = 0x16 ∨ c = 0x1D ∨ c = 0x1F := by
  simp only [isColorChar, Bool.or_eq_true, decide_eq_true_eq, or_assoc]

theorem encodeTurn_false (c : Byte) (string : Str) : ircColorEncodeTurn false c string = stripTurn encodeBg c string := by
  rw [ircColorEncodeTurn, stripTurn]
  by_cases hc : c = 0x03
  · rw [if_pos hc, if_neg (by rw [hc]; decide), if_pos hc]
    rfl
  · rw [if_neg hc]
    by_cases hcolor : isColorChar c = true
    · have hcode : c = 0x02 ∨ c = 0x0F ∨ c = 0x16 ∨ c = 0x1D ∨ c = 0x1F := by
        rcases isColorChar_iff.mp hcolor with h | h | h
        · exact .inl h
        · exact absurd h hc
        · exact .inr h
      rw [if_pos hcode, if_neg hc, if_pos hcolor]
      rfl
    · have hcode : ¬(c = 0x02 ∨ c = 0x0F ∨ c = 0x16 ∨ c = 0x1D ∨ c = 0x1F) := fun h =>
        hcolor (isColorChar_iff.mpr (h.imp_right .inr))
      rw [if_neg hcode, if_neg hc, if_neg hcolor]
      rfl

theorem encodeBg_append (string : Str) : (ircColorEncodeBg string).1 ++ (ircColorEncodeBg string).2 = string := by
  cases string with
  | nil => rfl
  | cons c string =>
    rw [ircColorEncodeBg]
    split
    · rw [List.cons_append, digits_append]
    · rfl

/-- What a turn writes with colors is what it takes. -/
theorem encodeTurn_true (c : Byte) (string : Str) :
    (ircColorEncodeTurn true c string).1 ++ (ircColorEncodeTurn true c string).2 = c :: string := by
  rw [ircColorEncodeTurn]
  split
  · rfl
  · split
    · show c :: ((ircColorDigits string).1 ++ (ircColorEncodeBg (ircColorDigits string).2).1) ++
        (ircColorEncodeBg (ircColorDigits string).2).2 = c :: string
      rw [List.cons_append, List.append_assoc, encodeBg_append, digits_append]
    · exact List.take_append_drop _ _

/-- The output buffer is large enough for what the turns write. -/
theorem encodeLoop_eq (keepColors : Bool) {written : Str → Str} (hnil : written [] = [])
    (hcons : ∀ c string, written (c :: string) =
      (ircColorEncodeTurn keepColors c string).1 ++ written (ircColorEncodeTurn keepColors c string).2)
    (hturn : ∀ c string, (ircColorEncodeTurn keepColors c string).1.length +
      (ircColorEncodeTurn keepColors c string).2.length ≤ string.length + 1)
    {n : Nat} {out : Str} (hlength : out.length + string.length ≤ n) :
    ircColorEncodeLoop keepColors (2 * n + 1) string out = some (out ++ written string) := by
  induction hm : string.length using Nat.strong_induction_on generalizing string out with
  | _ m ih =>
    cases string with
    | nil =>
      rw [List.length_nil] at hlength
      rw [ircColorEncodeLoop, if_pos (by omega), hnil, List.append_nil]
    | cons c string =>
      have hlt := ircColorEncodeTurn_length_lt keepColors c string
      have hle := hturn c string
      rw [List.length_cons] at hlength hm hlt
      rw [ircColorEncodeLoop, if_pos (by omega), if_pos (by omega), hcons, ← List.append_assoc]
      refine ih _ (by omega) ?_ rfl
      rw [List.length_append]
      omega

theorem encode_eq (keepColors : Bool) (written : Str → Str) (hnil : written [] = [])
    (hcons : ∀ c string, written (c :: string) =
      (ircColorEncodeTurn keepColors c string).1 ++ written (ircColorEncodeTurn keepColors c string).2)
    (hturn : ∀ c string, (ircColorEncodeTurn keepColors c string).1.length +
      (ircColorEncodeTurn keepColors c string).2.length ≤ string.length + 1)
    (hlength : string.length < 1073741824) : ircColorEncode string keepColors = some (some (written string)) := by
  have hfits : 2 * string.length + 1 < 2147483648 := by omega
  have hmalloc := mallocInt_of_fits hfits
  push_cast at hmalloc
  rw [ircColorEncode, hmalloc, Option.elim_some]
  have hloop : ircColorEncodeLoop keepColors (2 * string.length + 1) string [] = some ([] ++ written string) :=
    encodeLoop_eq keepColors hnil hcons hturn (by rw [List.length_nil, Nat.zero_add])
  rw [hloop, Option.map_some, List.nil_append]

theorem encode_false (hlength : string.length < 1073741824) :
    ircColorEncode string false = some (some (stripped encodeBg string)) := by
  refine encode_eq false (stripped encodeBg) (stripped_nil _) (fun c string => ?_) (fun c string => ?_) hlength
  · rw [encodeTurn_false, stripped_cons]
  · rw [encodeTurn_false]
    exact turn_length encodeBg c string

theorem encode_true (hlength : string.length < 1073741824) : ircColorEncode string true = some (some string) := by
  refine encode_eq true id rfl (fun c string => (encodeTurn_true c string).symm) (fun c string => ?_) hlength
  rw [← List.length_append, encodeTurn_true, List.length_cons]

/-- What is written is shorter than the output buffer. -/
theorem encodeLoop_length {keepColors : Bool} {outLength : Nat} {out result : Str}
    (h : ircColorEncodeLoop keepColors outLength string out = some result) : result.length < outLength := by
  fun_induction ircColorEncodeLoop keepColors outLength string out with
  | case1 out hlt =>
    cases h
    exact hlt
  | case2 => cases h
  | case3 out c string hlt turn hle ih => exact ih h
  | case4 => cases h
  | case5 out c string hge hlt =>
    cases h
    exact hlt
  | case6 => cases h

/-- A string that is too long is not encoded. -/
theorem encode_long {keepColors : Bool} (h : ircColorEncode string keepColors = some (some string)) :
    string.length < 1073741824 := by
  rw [ircColorEncode] at h
  cases hmalloc : mallocInt (2 * string.length + 1) with
  | none =>
    rw [hmalloc] at h
    cases h
  | some outLength =>
    rw [hmalloc] at h
    obtain ⟨result, hloop, hresult⟩ := Option.map_eq_some_iff.mp h
    cases hresult
    have hlt := encodeLoop_length hloop
    have hmost := mallocInt_lt hmalloc
    obtain ⟨heq, -⟩ := mallocInt_some (by omega) (by omega) hmalloc
    omega

/-! ## Decoding -/

theorem decodeTurn_false (env : IrcColorEnv) (attributes : IrcColorAttributes) (hc : c ≠ 0x11) (string : Str) :
    (ircColorDecodeTurn env false attributes c string).1 = (stripTurn decodeBg c string).1 ∧
      (ircColorDecodeTurn env false attributes c string).2.2 = (stripTurn decodeBg c string).2 := by
  rw [ircColorDecodeTurn, stripTurn]
  by_cases h3 : c = 0x03
  · subst h3
    exact ⟨rfl, rfl⟩
  · rw [if_neg h3]
    by_cases hcolor : isColorChar c = true
    · rw [if_pos hcolor]
      rcases isColorChar_iff.mp hcolor with rfl | h | rfl | rfl | rfl | rfl
      · exact ⟨rfl, rfl⟩
      · exact absurd h h3
      · exact ⟨rfl, rfl⟩
      · exact ⟨rfl, rfl⟩
      · exact ⟨rfl, rfl⟩
      · exact ⟨rfl, rfl⟩
    · have hcode := mt isColorChar_iff.mpr hcolor
      simp only [not_or] at hcode
      obtain ⟨h02, -, h0F, h16, h1D, h1F⟩ := hcode
      rw [if_neg hcolor, if_neg h02, if_neg h0F, if_neg hc, if_neg h16, if_neg h1D, if_neg h1F, if_neg h3]
      exact ⟨rfl, rfl⟩

theorem decodeLoop_false {attributes : IrcColorAttributes} {outLength : Nat} {out : Str} (hfixed : 0x11 ∉ string)
    (hlength : out.length + string.length + 1 ≤ outLength) :
    ircColorDecodeLoop env false attributes outLength string out = some (out ++ stripped decodeBg string) := by
  induction string using turn_induction decodeBg generalizing attributes out with
  | hnil => rw [ircColorDecodeLoop, stripped_nil, List.append_nil]
  | hcons c string ih =>
    obtain ⟨hc, hstring⟩ := not_or.mp (mt List.mem_cons.mpr hfixed)
    obtain ⟨hadd, hrest⟩ := decodeTurn_false env attributes (Ne.symm hc) string
    have hfixed' : 0x11 ∉ (stripTurn decodeBg c string).2 := fun hmem =>
      hfixed ((turn_suffix decodeBg c string).subset hmem)
    have hturn := turn_length decodeBg c string
    rw [List.length_cons] at hlength
    rw [ircColorDecodeLoop, stripped_cons]
    simp only [hadd, hrest]
    by_cases hnil : (stripTurn decodeBg c string).1 = []
    · rw [if_pos hnil, hnil, List.nil_append]
      exact ih hfixed' (by omega)
    · have hroom : ircColorDecodeAdd outLength out (stripTurn decodeBg c string).1 =
          some (some (outLength, out ++ (stripTurn decodeBg c string).1)) := if_neg (by omega)
      rw [if_neg hnil, hroom, ← List.append_assoc]
      refine ih hfixed' ?_
      rw [List.length_append]
      omega

theorem decode_false (hfixed : 0x11 ∉ string) (hlength : string.length < 1073741824) :
    ircColorDecode env string false = some (some (stripped decodeBg string)) := by
  rw [ircColorDecode, toInt_of_range (by omega) (by omega)]
  simp only [Option.map_eq_some_iff, Option.some.injEq, exists_eq_right]
  refine decodeLoop_false hfixed ?_
  rw [List.length_nil]
  split <;> omega

/-- What is added in one turn fits in a buffer of the least size. -/
theorem decodeTurn_length (env : IrcColorEnv) (attributes : IrcColorAttributes) (c : Byte) (string : Str) :
    (ircColorDecodeTurn env true attributes c string).1.length ≤ 127 := by
  have hcode (strFg strBg : Str) : (ircColorDecodeCode env strFg strBg).length ≤ 127 := by
    rw [ircColorDecodeCode]
    split
    · exact List.length_take_le 127 _
    · exact List.length_take_le 127 _
  have hcolor (color : String) : (snprintf 128 (env.weechatColor (lit color))).length ≤ 127 := List.length_take_le 127 _
  have hchar : ((c :: string).take (utf8CharSize (c :: string))).length ≤ 127 := by
    have hsize : utf8CharSize (c :: string) ≤ 4 := by
      have := utf8LeadSize_cases c
      rw [utf8CharSize]
      omega
    rw [List.length_take]
    omega
  rw [ircColorDecodeTurn]
  simp only [apply_ite Prod.fst, apply_ite List.length, if_true]
  repeat' split
  all_goals first | exact hcolor _ | exact hcode _ _ | exact hchar | exact Nat.zero_le _

theorem decodeAdd_ne_none {outLength : Nat} {out strToAdd : Str} (hadd : strToAdd.length ≤ 127)
    (hout : out.length + 1 ≤ outLength) (hleast : 128 ≤ outLength) (hmost : outLength < 2147483648) :
    ∃ added, ircColorDecodeAdd outLength out strToAdd = some added ∧
      ∀ outLength' out', added = some (outLength', out') →
        out'.length + 1 ≤ outLength' ∧ 128 ≤ outLength' ∧ outLength' < 2147483648 := by
  rw [ircColorDecodeAdd]
  split
  · cases hmalloc : mallocInt (2 * outLength) with
    | none => exact ⟨none, rfl, fun _ _ h => by cases h⟩
    | some outLength2 =>
      obtain ⟨heq, hlt⟩ := mallocInt_some (by omega) (by omega) hmalloc
      refine ⟨some (outLength2, out ++ strToAdd), if_pos (by omega), fun outLength' out' h => ?_⟩
      obtain ⟨rfl, rfl⟩ := Prod.mk.inj (Option.some.inj h)
      rw [List.length_append]
      exact ⟨by omega, by omega, hlt⟩
  · refine ⟨some (outLength, out ++ strToAdd), rfl, fun outLength' out' h => ?_⟩
    obtain ⟨rfl, rfl⟩ := Prod.mk.inj (Option.some.inj h)
    rw [List.length_append]
    exact ⟨by omega, hleast, hmost⟩

theorem decodeLoop_ne_none {attributes : IrcColorAttributes} {outLength : Nat} {out : Str}
    (hout : out.length + 1 ≤ outLength) (hleast : 128 ≤ outLength) (hmost : outLength < 2147483648) :
    ircColorDecodeLoop env true attributes outLength string out ≠ none := by
  induction hn : string.length using Nat.strong_induction_on generalizing attributes outLength string out with
  | _ n ih =>
    cases string with
    | nil =>
      rw [ircColorDecodeLoop]
      exact Option.some_ne_none _
    | cons c string =>
      have hlt := ircColorDecodeTurn_length_lt env true attributes c string
      obtain ⟨added, hadded, hkeeps⟩ :=
        decodeAdd_ne_none (decodeTurn_length env attributes c string) hout hleast hmost
      rw [ircColorDecodeLoop]
      simp only [hadded]
      split
      · exact ih _ (hn ▸ hlt) hout hleast hmost rfl
      · cases added with
        | none => exact Option.some_ne_none _
        | some added =>
          obtain ⟨hout', hleast', hmost'⟩ := hkeeps added.1 added.2 rfl
          exact ih _ (hn ▸ hlt) hout' hleast' hmost' rfl

theorem decode_ne_none (env : IrcColorEnv) (string : Str) : ircColorDecode env string true ≠ none := by
  have hmost := toInt_lt (2 * string.length + 1)
  rw [ircColorDecode, Ne, Option.map_eq_none_iff]
  refine decodeLoop_ne_none ?_ ?_ ?_
  · rw [List.length_nil]
    split <;> omega
  · split <;> omega
  · split <;> omega

/-! ## Both -/

/-- Colors are removed by both functions in the same way if and only if the string is not too
long, and no color is followed by a comma without a digit after it. -/
theorem color_strip_iff (env : IrcColorEnv) (hvalid : utf8IsValid string = none) (hfixed : 0x11 ∉ string) :
    ColorsRight env string ↔ string.length < 1073741824 ∧ NoBareComma string := by
  constructor
  · rintro ⟨⟨text, hstripped⟩, hkeep, -⟩
    have hlength := encode_long hkeep
    have hencode := hstripped.encode
    have hdecode := hstripped.decode
    rw [encode_false hlength] at hencode
    rw [decode_false hfixed hlength] at hdecode
    have hsame : stripped encodeBg string = stripped decodeBg string :=
      (Option.some.inj (Option.some.inj hencode)).trans (Option.some.inj (Option.some.inj hdecode)).symm
    rcases stripped_cases hvalid with ⟨hcomma, -⟩ | ⟨-, hlt⟩
    · exact ⟨hlength, hcomma⟩
    · rw [hsame] at hlt
      exact absurd hlt (Nat.lt_irrefl _)
  · rintro ⟨hlength, hcomma⟩
    have hsame : stripped encodeBg string = stripped decodeBg string := by
      rcases stripped_cases hvalid with ⟨-, heq⟩ | ⟨hbare, -⟩
      · exact heq
      · exact absurd hcomma hbare
    have hclean := stripped_clean encodeBg hvalid hfixed
    have hlength' : (stripped encodeBg string).length < 1073741824 :=
      Nat.lt_of_le_of_lt (stripped_length_le encodeBg string) hlength
    refine ⟨⟨stripped encodeBg string, encode_false hlength, ?_, fun d hd => (hclean d hd).1, ?_, ?_⟩,
      encode_true hlength, decode_ne_none env string⟩
    · rw [decode_false hfixed hlength, hsame]
    · rw [encode_false hlength', stripped_self encodeBg fun d hd => (hclean d hd).1]
    · rw [decode_false (fun hmem => (hclean _ hmem).2 rfl) hlength',
        stripped_self decodeBg fun d hd => (hclean d hd).1]

/-- `weechat_color` without colors, and no remapped color. -/
def plainColors : IrcColorEnv := ⟨fun _ => ⟨[], List.not_mem_nil⟩, fun _ => none⟩

/-- A text in bold, with a color and a background. -/
def coloredText : Str := 0x02 :: lit "a" ++ 0x03 :: lit "4,12b" ++ 0x0F :: lit ", c"

theorem color_strip_iff_colored :
    utf8IsValid coloredText = none ∧ 0x11 ∉ coloredText ∧
      (ColorsRight plainColors coloredText ↔ coloredText.length < 1073741824 ∧ NoBareComma coloredText) := by
  have hvalid : utf8IsValid coloredText = none := utf8IsValid_ascii (by decide)
  have hfixed : 0x11 ∉ coloredText := by decide
  exact ⟨hvalid, hfixed, color_strip_iff plainColors hvalid hfixed⟩

/-- The comma after a color without a background is removed when encoding, and kept when decoding. -/
theorem color_strip_fails :
    ¬ColorsRight plainColors (0x03 :: lit "4, a") ∧ utf8IsValid (0x03 :: lit "4, a") = none ∧
      0x11 ∉ 0x03 :: lit "4, a" ∧ ircColorEncode (0x03 :: lit "4, a") false = some (some (lit " a")) ∧
      ircColorDecode plainColors (0x03 :: lit "4, a") false = some (some (lit ", a")) := by
  have hresults : ircColorEncode (0x03 :: lit "4, a") false = some (some (lit " a")) ∧
      ircColorDecode plainColors (0x03 :: lit "4, a") false = some (some (lit ", a")) := by decide +kernel
  refine ⟨?_, utf8IsValid_ascii (by decide), by decide, hresults⟩
  rintro ⟨⟨text, hencode, hdecode, -⟩, -⟩
  have hsame := (hresults.1.symm.trans hencode).trans (hdecode.symm.trans hresults.2)
  exact absurd hsame (by decide)

end Wirc

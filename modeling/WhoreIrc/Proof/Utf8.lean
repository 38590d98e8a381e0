import Mathlib.Data.List.Forall2
import WhoreIrc.Proof.SplitText
import WhoreIrc.Spec.GuiInput
import WhoreIrc.Spec.Utf8

/-!
# Valid strings as lists of characters

A valid string is the concatenation of valid characters (`exists_chars`), and
the functions of `core/wee-utf8.c` count and find them in it.
-/

namespace Wirc

/-! ## One character -/

theorem utf8LeadSize_cases (b : Byte) :
    utf8LeadSize b = 1 ∨ utf8LeadSize b = 2 ∨ utf8LeadSize b = 3 ∨ utf8LeadSize b = 4 := by
  rw [utf8LeadSize]
  split
  · exact .inr (.inl rfl)
  · split
    · exact .inr (.inr (.inl rfl))
    · split
      · exact .inr (.inr (.inr rfl))
      · exact .inl rfl

/-- The code point is read in the bytes of the character only. -/
theorem utf8CharInt_append {b : Byte} {t : Str} (ht : t.length + 1 = utf8LeadSize b) (s : Str) :
    utf8CharInt (b :: (t ++ s)) = utf8CharInt (b :: t) := by
  have htake : ∀ n, utf8LeadSize b = n + 1 → (t ++ s).take n = t.take n := fun n hn =>
    List.take_append_of_le_length (by omega)
  rw [utf8LeadSize] at htake
  rw [utf8CharInt, utf8CharInt]
  split
  · rw [htake 1 (if_pos ‹_›)]
  · split
    · rw [htake 2 (by rw [if_neg ‹_›, if_pos ‹_›])]
    · split
      · rw [htake 3 (by rw [if_neg ‹_›, if_neg ‹_›, if_pos ‹_›])]
      · rfl

/-- A character is valid whatever follows it. -/
theorem utf8CharIsValid_append {b : Byte} {t : Str} (ht : t.length + 1 = utf8LeadSize b) (s : Str) :
    utf8CharIsValid b (t ++ s) = utf8CharIsValid b t := by
  have hsize : utf8LeadSize b - 1 = t.length := by omega
  rw [utf8CharIsValid, utf8CharIsValid, utf8CharInt_append ht, hsize, List.take_left, List.take_length]

set_option maxRecDepth 10000 in
theorem lead_not_continuation : ∀ b : Byte, utf8LeadSize b ≠ 1 ∨ b < 0x80 → ¬ b &&& 0xC0 = 0x80 :=
  byte_forall (P := fun b => utf8LeadSize b ≠ 1 ∨ b < 0x80 → ¬ b &&& 0xC0 = 0x80) (by decide)

namespace IsValidChar

variable {c s : Str}

theorem ne_nil (h : IsValidChar c) : c ≠ [] := by
  obtain ⟨b, t, rfl, -⟩ := h
  exact List.cons_ne_nil b t

theorem length_le (h : IsValidChar c) : c.length ≤ 4 := by
  obtain ⟨b, t, rfl, hsize, -⟩ := h
  have := utf8LeadSize_cases b
  rw [List.length_cons]
  omega

theorem charSize (h : IsValidChar c) (s : Str) : utf8CharSize (c ++ s) = c.length := by
  obtain ⟨b, t, rfl, hsize, -⟩ := h
  rw [List.cons_append, utf8CharSize, ← hsize, List.length_append, List.length_cons]
  omega

theorem nextChar (h : IsValidChar c) (s : Str) : utf8NextChar (c ++ s) = s := by
  rw [utf8NextChar, h.charSize, List.drop_left]

/-- The first byte is the only one that is no continuation. -/
theorem continuation {b : Byte} {t : Str} (h : IsValidChar (b :: t)) :
    ¬ b &&& 0xC0 = 0x80 ∧ ∀ d ∈ t, d &&& 0xC0 = 0x80 := by
  obtain ⟨b, t, heq, hsize, hvalid⟩ := h
  obtain ⟨rfl, rfl⟩ := List.cons.inj heq
  have hrest : utf8LeadSize b - 1 = t.length := by omega
  rw [utf8CharIsValid, hrest, List.take_length] at hvalid
  by_cases hone : utf8LeadSize b = 1
  · rw [if_pos hone, decide_eq_true_eq] at hvalid
    refine ⟨lead_not_continuation b (.inr hvalid), ?_⟩
    rw [List.length_eq_zero_iff.mp (show t.length = 0 by omega)]
    exact nofun
  · rw [if_neg hone, Bool.and_eq_true, Bool.and_eq_true, List.all_eq_true] at hvalid
    exact ⟨lead_not_continuation b (.inl hone), fun d hd => of_decide_eq_true (hvalid.1.2 d hd)⟩

end IsValidChar

/-! ## Lists of characters -/

section

variable {chars : List Str} {s : Str}

theorem utf8IsValid_flatten (h : ∀ c ∈ chars, IsValidChar c) : utf8IsValid chars.flatten = none := by
  induction chars with
  | nil => rw [List.flatten_nil, utf8IsValid]
  | cons c chars ih =>
    rw [List.forall_mem_cons] at h
    obtain ⟨⟨b, t, rfl, hsize, hvalid⟩, hchars⟩ := h
    have hrest : utf8LeadSize b - 1 = t.length := by omega
    rw [List.flatten_cons, List.cons_append, utf8IsValid, utf8CharIsValid_append hsize, hvalid, if_pos rfl, hrest,
      List.drop_left, ih hchars]

theorem isValidChar_of {b : Byte} (h : utf8CharIsValid b s = true) :
    IsValidChar (b :: s.take (utf8LeadSize b - 1)) := by
  have hsize : (s.take (utf8LeadSize b - 1)).length + 1 = utf8LeadSize b := by
    rw [utf8CharIsValid] at h
    by_cases hone : utf8LeadSize b = 1
    · rw [hone]
      rfl
    · rw [if_neg hone, Bool.and_eq_true, Bool.and_eq_true, decide_eq_true_eq] at h
      have := utf8LeadSize_cases b
      omega
  refine ⟨b, _, rfl, hsize, ?_⟩
  rw [← utf8CharIsValid_append hsize (s.drop (utf8LeadSize b - 1)), List.take_append_drop]
  exact h

/-- The characters before the first error, or before the end. -/
theorem exists_chars (s : Str) :
    ∃ chars : List Str, (∀ c ∈ chars, IsValidChar c) ∧ s = chars.flatten ++ (utf8IsValid s).getD [] := by
  fun_induction utf8IsValid s with
  | case1 => exact ⟨[], List.forall_mem_nil _, rfl⟩
  | case2 b s hvalid ih =>
    obtain ⟨chars, hchars, heq⟩ := ih
    refine ⟨(b :: s.take (utf8LeadSize b - 1)) :: chars, List.forall_mem_cons.mpr ⟨isValidChar_of hvalid, hchars⟩, ?_⟩
    rw [List.flatten_cons, List.append_assoc, ← heq, List.cons_append, List.take_append_drop]
  | case3 b s hvalid => exact ⟨[], List.forall_mem_nil _, rfl⟩

theorem exists_chars_of_valid (h : utf8IsValid s = none) :
    ∃ chars : List Str, (∀ c ∈ chars, IsValidChar c) ∧ s = chars.flatten := by
  obtain ⟨chars, hchars, heq⟩ := exists_chars s
  rw [h, Option.getD_none, List.append_nil] at heq
  exact ⟨chars, hchars, heq⟩

/-- A valid string is a valid character before a valid string. -/
theorem valid_cons {b : Byte} {s : Str} (h : utf8IsValid (b :: s) = none) :
    ∃ t, IsValidChar (b :: t) ∧ s = t ++ utf8NextChar (b :: s) ∧ utf8IsValid (utf8NextChar (b :: s)) = none := by
  obtain ⟨chars, hchars, heq⟩ := exists_chars_of_valid h
  cases chars with
  | nil => cases heq
  | cons c chars =>
    rw [List.forall_mem_cons] at hchars
    obtain ⟨d, t, rfl, hsize⟩ := hchars.1
    have hnext : utf8NextChar (b :: s) = chars.flatten := by
      rw [heq, List.flatten_cons, IsValidChar.nextChar ⟨d, t, rfl, hsize⟩]
    obtain ⟨rfl, hs⟩ := List.cons.inj heq
    refine ⟨t, ⟨b, t, rfl, hsize⟩, ?_, ?_⟩
    · rw [hnext, hs]
      rfl
    · rw [hnext]
      exact utf8IsValid_flatten hchars.2

/-! ### Counting -/

theorem utf8Strlen_flatten (h : ∀ c ∈ chars, IsValidChar c) : utf8Strlen chars.flatten = chars.length := by
  induction chars with
  | nil => rw [List.flatten_nil, utf8Strlen, dif_pos rfl, List.length_nil]
  | cons c chars ih =>
    rw [List.forall_mem_cons] at h
    rw [List.flatten_cons, utf8Strlen, dif_neg (List.append_ne_nil_of_left_ne_nil h.1.ne_nil _), h.1.nextChar,
      ih h.2, List.length_cons]

theorem utf8AddOffset_flatten (h : ∀ c ∈ chars, IsValidChar c) (s : Str) :
    utf8AddOffset (chars.flatten ++ s) chars.length = s := by
  induction chars with
  | nil => rfl
  | cons c chars ih =>
    rw [List.forall_mem_cons] at h
    rw [List.length_cons, utf8AddOffset, List.flatten_cons, List.append_assoc,
      if_neg (List.append_ne_nil_of_left_ne_nil h.1.ne_nil _), h.1.nextChar, ih h.2]

/-- The string from a character on; there is nothing after the last one. -/
theorem utf8AddOffset_drop (h : ∀ c ∈ chars, IsValidChar c) (n : Nat) :
    utf8AddOffset chars.flatten n = (chars.drop n).flatten := by
  induction chars generalizing n with
  | nil =>
    rw [List.drop_nil, List.flatten_nil]
    cases n with
    | zero => rfl
    | succ n => exact if_pos rfl
  | cons c chars ih =>
    rw [List.forall_mem_cons] at h
    cases n with
    | zero => rfl
    | succ n =>
      rw [List.drop_succ_cons, utf8AddOffset, List.flatten_cons,
        if_neg (List.append_ne_nil_of_left_ne_nil h.1.ne_nil _), h.1.nextChar, ih h.2]

theorem utf8Strnlen_flatten (h : ∀ c ∈ chars, IsValidChar c) (s : Str) :
    utf8Strnlen (chars.flatten ++ s) chars.flatten.length = chars.length := by
  induction chars with
  | nil => rw [List.flatten_nil, List.length_nil, utf8Strnlen, dif_pos (.inr rfl), List.length_nil]
  | cons c chars ih =>
    rw [List.forall_mem_cons] at h
    have hpos := List.length_pos_of_ne_nil h.1.ne_nil
    have hne : ¬ (c ++ (chars.flatten ++ s) = [] ∨ c.length + chars.flatten.length = 0) := by
      rw [not_or]
      exact ⟨List.append_ne_nil_of_left_ne_nil h.1.ne_nil _, by omega⟩
    rw [List.flatten_cons, List.append_assoc, List.length_append, utf8Strnlen, dif_neg hne, h.1.nextChar,
      h.1.charSize, Nat.add_sub_cancel_left, ih h.2, List.length_cons]

/-! ### The previous character -/

theorem utf8IsContinuation_append (pre t : Str) (n : Nat) :
    utf8IsContinuation (pre ++ t) (pre.length + n) = utf8IsContinuation t n := by
  rw [utf8IsContinuation, utf8IsContinuation, List.getD_eq_getElem?_getD, List.getD_eq_getElem?_getD,
    List.getElem?_append_right (Nat.le_add_right ..), Nat.add_sub_cancel_left]

theorem utf8PrevChar_char {c : Str} (h : IsValidChar c) (pre s : Str) :
    utf8PrevChar (pre ++ (c ++ s)) (pre.length + c.length) = some pre.length := by
  obtain ⟨b, t, rfl⟩ := List.exists_cons_of_ne_nil h.ne_nil
  obtain ⟨hlead, hrest⟩ := h.continuation
  have hlength := h.length_le
  have hstart : utf8IsContinuation (pre ++ (b :: t ++ s)) pre.length = false := by
    rw [← Nat.add_zero pre.length, utf8IsContinuation_append]
    exact decide_eq_false hlead
  have hnext : ∀ n, n < t.length → utf8IsContinuation (pre ++ (b :: t ++ s)) (pre.length + (n + 1)) = true := by
    intro n hn
    rw [utf8IsContinuation_append, utf8IsContinuation, List.cons_append, List.getD_cons_succ,
      List.getD_eq_getElem?_getD, List.getElem?_append_left hn, List.getElem?_eq_getElem hn, Option.getD_some]
    exact decide_eq_true (hrest _ (List.getElem_mem hn))
  -- from the last byte of the character back to the first
  match t, hlength, hnext with
  | [], _, _ => simp only [List.length_singleton, utf8PrevChar, hstart, Bool.false_eq_true, if_false]
  | [_], _, hnext =>
    have h1 := hnext 0 Nat.one_pos
    simp only [List.length_cons, List.length_nil, Nat.zero_add, utf8PrevChar] at h1 ⊢
    simp only [h1, if_true, hstart, Bool.false_eq_true, if_false]
  | [_, _], _, hnext =>
    have h1 := hnext 0 (by simp)
    have h2 := hnext 1 (by simp)
    simp only [List.length_cons, List.length_nil, Nat.zero_add, utf8PrevChar] at h1 h2 ⊢
    simp only [h1, h2, if_true, hstart, Bool.false_eq_true, if_false]
  | [_, _, _], _, hnext =>
    have h1 := hnext 0 (by simp)
    have h2 := hnext 1 (by simp)
    have h3 := hnext 2 (by simp)
    simp only [List.length_cons, List.length_nil, Nat.zero_add, utf8PrevChar] at h1 h2 h3 ⊢
    simp only [h1, h2, h3, if_true]
    rfl

/-! ### Strings that are made valid -/

theorem isValidChar_ascii {b : Byte} (h : b < 0x80) : IsValidChar [b] := by
  have hsize := utf8LeadSize_ascii h
  refine ⟨b, [], rfl, hsize.symm, ?_⟩
  rw [utf8CharIsValid, if_pos hsize]
  exact decide_eq_true h

theorem utf8IsValid_ascii {s : Str} (h : ∀ c ∈ s, c < 0x80) : utf8IsValid s = none := by
  have hflatten := @utf8IsValid_flatten (s.map fun c => [c]) fun char hchar => by
    obtain ⟨c, hc, rfl⟩ := List.mem_map.mp hchar
    exact isValidChar_ascii (h c hc)
  rwa [← List.flatMap_def, List.flatMap_singleton'] at hflatten

theorem utf8Normalize_chars {replacement : Byte} (h : replacement < 0x80) (s : Str) :
    ∃ chars : List Str, (∀ c ∈ chars, IsValidChar c) ∧ utf8Normalize s replacement = chars.flatten := by
  fun_induction utf8Normalize s replacement with
  | case1 s hvalid => exact exists_chars_of_valid hvalid
  | case2 s error herror ih =>
    obtain ⟨chars, hchars, heq⟩ := exists_chars s
    rw [herror, Option.getD_some] at heq
    obtain ⟨rest, hrest, hnormal⟩ := ih
    refine ⟨chars ++ [replacement] :: rest, ?_, ?_⟩
    · rw [List.forall_mem_append, List.forall_mem_cons]
      exact ⟨hchars, isValidChar_ascii h, hrest⟩
    · have hoff : strndup s (off s error) = chars.flatten := by
        rw [strndup, heq]
        exact take_off_append _ _
      rw [hoff, hnormal, List.flatten_append, List.flatten_cons]
      rfl

theorem utf8Normalize_valid {replacement : Byte} (h : utf8IsValid s = none) : utf8Normalize s replacement = s := by
  rw [utf8Normalize]
  split
  · rfl
  · rename_i herror
    rw [h] at herror
    cases herror

theorem utf8Normalize_mem {replacement : Byte} {s : Str} {c : Byte} (h : c ∈ utf8Normalize s replacement) :
    c = replacement ∨ c ∈ s := by
  fun_induction utf8Normalize s replacement with
  | case1 => exact .inr h
  | case2 s error herror ih =>
    rw [List.mem_append, List.mem_cons] at h
    rcases h with h | rfl | h
    · exact .inr (List.mem_of_mem_take h)
    · exact .inl rfl
    · refine (ih h).imp_right fun hmem => ?_
      exact (utf8IsValid_error herror).1.mem (List.mem_of_mem_tail hmem)

/-- Every byte stays where it is or becomes the replacement. -/
theorem utf8Normalize_bytes (replacement : Byte) (s : Str) :
    List.Forall₂ (fun old new => new = old ∨ new = replacement) s (utf8Normalize s replacement) := by
  have hkept : ∀ t : Str, List.Forall₂ (fun old new => new = old ∨ new = replacement) t t := fun t =>
    List.forall₂_same.mpr fun _ _ => .inl rfl
  fun_induction utf8Normalize s replacement with
  | case1 s _ => exact hkept s
  | case2 s error herror ih =>
    obtain ⟨⟨before, rfl⟩, hne⟩ := utf8IsValid_error herror
    obtain ⟨b, rest, rfl⟩ := List.exists_cons_of_ne_nil hne
    rw [strndup, take_off_append]
    exact List.rel_append (hkept before) (.cons (.inr rfl) ih)

/-- The bytes of the result are those of the string, but the ones replaced, and the result is valid. -/
theorem utf8Normalize_correct (s : CStr) (replacement : Byte) (hascii : replacement < 0x80)
    (hreplacement : replacement ≠ 0) :
    (utf8Normalize s replacement).length = s.1.length ∧ 0 ∉ utf8Normalize s replacement ∧
      utf8IsValid (utf8Normalize s replacement) = none ∧
      (utf8IsValid s = none → utf8Normalize s replacement = s) ∧
      List.Forall₂ (fun old new => new = old ∨ new = replacement) s (utf8Normalize s replacement) ∧
      utf8Normalize (utf8Normalize s replacement) replacement = utf8Normalize s replacement := by
  obtain ⟨chars, hchars, hflatten⟩ := utf8Normalize_chars hascii s.1
  have hvalid : utf8IsValid (utf8Normalize s replacement) = none := by
    rw [hflatten]
    exact utf8IsValid_flatten hchars
  have hbytes := utf8Normalize_bytes replacement s.1
  refine ⟨hbytes.length_eq.symm, ?_, hvalid, utf8Normalize_valid, hbytes, utf8Normalize_valid hvalid⟩
  intro hnul
  rcases utf8Normalize_mem hnul with h | h
  · exact hreplacement h.symm
  · exact s.2 h

/-- A truncated character, whose second byte starts a character of its own, and a surrogate. -/
theorem utf8Normalize_correct_truncated :
    utf8IsValid (utf8Normalize [0xE2, 0xC3, 0xA9, 0xED, 0xA0, 0x80] 63) = none ∧
      (utf8Normalize [0xE2, 0xC3, 0xA9, 0xED, 0xA0, 0x80] 63).length = 6 :=
  have h := utf8Normalize_correct ⟨[0xE2, 0xC3, 0xA9, 0xED, 0xA0, 0x80], by decide⟩ 63 (by decide) (by decide)
  ⟨h.2.2.1, h.1⟩

end

/-! ## Moving in a valid string

The boundaries of a string that is the concatenation of valid characters are after
the first ones (`boundary_iff`).
-/

variable {chars : List Str} {s : Str}

/-- The size of the first characters of a string. -/
def sizeOfFirst (chars : List Str) (count : Nat) : Nat := (chars.take count).flatten.length

theorem sizeOfFirst_length (chars : List Str) : sizeOfFirst chars chars.length = chars.flatten.length := by
  rw [sizeOfFirst, List.take_length]

/-- A string, split at a character. -/
theorem flatten_split {count : Nat} (hcount : count < chars.length) :
    chars.flatten = (chars.take count).flatten ++ (chars[count] ++ (chars.drop (count + 1)).flatten) := by
  rw [← List.flatten_cons, ← List.drop_eq_getElem_cons hcount, ← List.flatten_append, List.take_append_drop]

theorem sizeOfFirst_succ {count : Nat} (hcount : count < chars.length) :
    sizeOfFirst chars (count + 1) = sizeOfFirst chars count + chars[count].length := by
  rw [sizeOfFirst, sizeOfFirst, List.take_add_one, List.getElem?_eq_getElem hcount, Option.toList_some, List.flatten_append,
    List.flatten_singleton, List.length_append]

theorem nextCharPos_first (h : ∀ c ∈ chars, IsValidChar c) {count : Nat} (hcount : count < chars.length) :
    utf8NextCharPos chars.flatten (sizeOfFirst chars count) = sizeOfFirst chars (count + 1) := by
  have hdrop : chars.flatten.drop (sizeOfFirst chars count) = chars[count] ++ (chars.drop (count + 1)).flatten := by
    rw [flatten_split hcount, sizeOfFirst, List.drop_left]
  rw [utf8NextCharPos, hdrop, (h _ (List.getElem_mem hcount)).charSize, sizeOfFirst_succ hcount]

theorem prevChar_first (h : ∀ c ∈ chars, IsValidChar c) {count : Nat} (hcount : count < chars.length) :
    utf8PrevChar chars.flatten (sizeOfFirst chars (count + 1)) = some (sizeOfFirst chars count) := by
  rw [sizeOfFirst_succ hcount, flatten_split hcount]
  exact utf8PrevChar_char (h _ (List.getElem_mem hcount)) _ _

theorem sizeOfFirst_lt (h : ∀ c ∈ chars, IsValidChar c) {count : Nat} (hcount : count < chars.length) :
    sizeOfFirst chars count < chars.flatten.length := by
  have hpos := List.length_pos_of_ne_nil (h _ (List.getElem_mem hcount)).ne_nil
  rw [flatten_split hcount, List.length_append, List.length_append, ← sizeOfFirst]
  omega

theorem nextChars_eq (h : ∀ c ∈ chars, IsValidChar c) {count : Nat} (hcount : count ≤ chars.length) :
    nextChars chars.flatten count = sizeOfFirst chars count := by
  induction count with
  | zero => rfl
  | succ count ih =>
    rw [nextChars, Function.iterate_succ_apply', ← nextChars, ih (Nat.le_of_succ_le hcount), nextCharPos_first h hcount]

/-- The boundaries are after the first characters. -/
theorem exists_first_of_boundary (h : ∀ c ∈ chars, IsValidChar c) {pos : Nat} (hpos : CharBoundary chars.flatten pos) :
    ∃ count ≤ chars.length, pos = sizeOfFirst chars count := by
  induction hpos with
  | start => exact ⟨0, Nat.zero_le _, rfl⟩
  | next _ hlt ih =>
    obtain ⟨count, hcount, rfl⟩ := ih
    have hne : count ≠ chars.length := fun heq => by
      rw [heq, sizeOfFirst_length] at hlt
      exact absurd hlt (Nat.lt_irrefl _)
    have hlt := Nat.lt_of_le_of_ne hcount hne
    exact ⟨count + 1, hlt, nextCharPos_first h hlt⟩

theorem moves_inverse (h : ∀ c ∈ chars, IsValidChar c) {pos : Nat} (hpos : CharBoundary chars.flatten pos) :
    MovesInverse chars.flatten pos := by
  obtain ⟨count, hcount, rfl⟩ := exists_first_of_boundary h hpos
  constructor
  · intro hlt
    have hne : count ≠ chars.length := fun heq => by
      rw [heq, sizeOfFirst_length] at hlt
      exact absurd hlt (Nat.lt_irrefl _)
    have hcount := Nat.lt_of_le_of_ne hcount hne
    rw [nextCharPos_first h hcount, prevChar_first h hcount]
  · intro hpos
    cases count with
    | zero => exact absurd hpos (Nat.lt_irrefl _)
    | succ count => exact ⟨sizeOfFirst chars count, prevChar_first h hcount, nextCharPos_first h hcount⟩

/-! ## Offsets -/

theorem utf8RealPos_flatten (h : ∀ c ∈ chars, IsValidChar c) (count : Nat) :
    utf8RealPos chars.flatten count = sizeOfFirst chars count := by
  induction chars generalizing count with
  | nil =>
    rw [sizeOfFirst, List.take_nil, List.flatten_nil, List.length_nil]
    cases count with
    | zero => rfl
    | succ count => exact if_pos rfl
  | cons c chars ih =>
    rw [List.forall_mem_cons] at h
    cases count with
    | zero => rfl
    | succ count =>
      rw [utf8RealPos, List.flatten_cons, if_neg (List.append_ne_nil_of_left_ne_nil h.1.ne_nil _), h.1.nextChar,
        h.1.charSize, ih h.2, sizeOfFirst, sizeOfFirst, List.take_succ_cons, List.flatten_cons, List.length_append]

theorem utf8Pos_first (h : ∀ c ∈ chars, IsValidChar c) {count : Nat} (hcount : count ≤ chars.length) :
    utf8Pos chars.flatten (sizeOfFirst chars count) = count := by
  have hsplit : chars.flatten = (chars.take count).flatten ++ (chars.drop count).flatten := by
    rw [← List.flatten_append, List.take_append_drop]
  rw [utf8Pos, hsplit, sizeOfFirst, utf8Strnlen_flatten fun c hc => h c (List.mem_of_mem_take hc), List.length_take,
    Nat.min_eq_left hcount]

theorem offsets_right (h : ∀ c ∈ chars, IsValidChar c) : OffsetsRight chars.flatten where
  realPos count hcount := by
    rw [utf8Strlen_flatten h] at hcount
    rw [utf8RealPos_flatten h, nextChars_eq h hcount]
  pos count hcount := by
    rw [utf8Strlen_flatten h] at hcount
    rw [nextChars_eq h hcount, utf8Pos_first h hcount]
  strlen := by rw [utf8Strlen_flatten h, nextChars_eq h (Nat.le_refl _), sizeOfFirst_length]
  after count hcount := by
    rw [utf8Strlen_flatten h] at hcount
    rw [utf8RealPos_flatten h, sizeOfFirst, List.take_of_length_le hcount]

/-- In a valid string the moves are inverse, and offsets count them. -/
theorem char_moves (string : Str) (h : utf8IsValid string = none) :
    (∀ pos, CharBoundary string pos → MovesInverse string pos) ∧ OffsetsRight string := by
  obtain ⟨chars, hchars, rfl⟩ := exists_chars_of_valid h
  exact ⟨fun _ hpos => moves_inverse hchars hpos, offsets_right hchars⟩

theorem char_moves_two : (∀ pos, CharBoundary [0x61, 0xC3, 0xA9] pos → MovesInverse [0x61, 0xC3, 0xA9] pos) ∧
    OffsetsRight [0x61, 0xC3, 0xA9] :=
  char_moves _ (utf8IsValid_flatten (List.forall_mem_cons.mpr ⟨⟨0x61, [], rfl, by decide, by decide⟩,
    List.forall_mem_cons.mpr ⟨⟨0xC3, [0xA9], rfl, by decide, by decide⟩, List.forall_mem_nil _⟩⟩))

end Wirc

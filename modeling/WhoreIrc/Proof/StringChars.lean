import WhoreIrc.Impl.GuiCompletion
import WhoreIrc.Proof.StringCase

/-!
# The characters of a valid string

A valid string is the characters that `utf8_next_char` finds in it
(`utf8Chars_flatten`), and two characters compare equal when their bytes are the
same without case (`charcasecmp_iff`).
-/

namespace Wirc

variable {chars : List Str} {c d s t : Str}

theorem utf8Chars_flatten (h : ∀ c ∈ chars, IsValidChar c) : utf8Chars chars.flatten = chars := by
  induction chars with
  | nil => rw [List.flatten_nil, utf8Chars, dif_pos rfl]
  | cons c chars ih =>
    rw [List.forall_mem_cons] at h
    rw [List.flatten_cons, utf8Chars, dif_neg (List.append_ne_nil_of_left_ne_nil h.1.ne_nil _), h.1.nextChar, ih h.2,
      h.1.charSize, List.take_left]

/-- The characters of a valid string. -/
theorem utf8Chars_valid (h : utf8IsValid s = none) : (∀ c ∈ utf8Chars s, IsValidChar c) ∧ (utf8Chars s).flatten = s := by
  obtain ⟨chars, hchars, rfl⟩ := exists_chars_of_valid h
  rw [utf8Chars_flatten hchars]
  exact ⟨hchars, rfl⟩

theorem lowerChars_flatten (h : ∀ c ∈ chars, IsValidChar c) :
    lowerChars chars.flatten = chars.map fun c => c.map lowerByte := by
  rw [lowerChars, utf8Chars_flatten h]

/-! ## Bytes without case -/

set_option maxRecDepth 10000 in
theorem lowerByte_ge : ∀ b : Byte, 0x80 ≤ b → lowerByte b = b :=
  byte_forall (P := fun b => 0x80 ≤ b → lowerByte b = b) (by decide)

set_option maxRecDepth 10000 in
theorem continuation_ge : ∀ b : Byte, b &&& 0xC0 = 0x80 → 0x80 ≤ b :=
  byte_forall (P := fun b => b &&& 0xC0 = 0x80 → 0x80 ≤ b) (by decide)

set_option maxRecDepth 10000 in
theorem leadSize_ge : ∀ b : Byte, utf8LeadSize b ≠ 1 → 0x80 ≤ b :=
  byte_forall (P := fun b => utf8LeadSize b ≠ 1 → 0x80 ≤ b) (by decide)

set_option maxRecDepth 10000 in
theorem wideLower_ascii : ∀ b : Byte, b < 0x80 → wideCharLower ⟨b.toBitVec.signExtend 32⟩ = (lowerByte b).toUInt32 :=
  byte_forall (P := fun b => b < 0x80 → wideCharLower ⟨b.toBitVec.signExtend 32⟩ = (lowerByte b).toUInt32) (by decide)

theorem map_lowerByte_continuation (h : ∀ b ∈ t, b &&& 0xC0 = 0x80) : t.map lowerByte = t :=
  (List.map_congr_left fun b hb => lowerByte_ge b (continuation_ge b (h b hb))).trans (List.map_id t)

/-- A character of one byte is ASCII, and one of several bytes has no case. -/
theorem IsValidChar.cases_case (h : IsValidChar c) :
    (∃ b, b < 0x80 ∧ c = [b]) ∨ 1 < c.length ∧ c.map lowerByte = c := by
  obtain ⟨b, t, rfl, hsize, hvalid⟩ := id h
  by_cases hone : utf8LeadSize b = 1
  · refine .inl ⟨b, ?_, by rw [List.length_eq_zero_iff.mp (show t.length = 0 by omega)]⟩
    rw [utf8CharIsValid, if_pos hone] at hvalid
    exact of_decide_eq_true hvalid
  · have hlead := utf8LeadSize_cases b
    refine .inr ⟨by rw [List.length_cons]; omega, ?_⟩
    rw [List.map_cons, lowerByte_ge b (leadSize_ge b hone), map_lowerByte_continuation h.continuation.2]

/-- Only the first characters are compared. -/
theorem charcasecmp_append (hc : IsValidChar c) (hd : IsValidChar d) (s t : Str) :
    utf8Charcasecmp (c ++ s) (d ++ t) = utf8Charcasecmp c d := by
  have hfirst : ∀ {c}, IsValidChar c → ∀ s, utf8WideChar (c ++ s) = utf8WideChar c := by
    intro c hc s
    rw [← utf8WideChar_utfChar, utfChar, hc.charSize, List.take_left]
  rw [utf8Charcasecmp, utf8Charcasecmp, hfirst hc, hfirst hd]

/-- Characters compare equal when their bytes are the same without case. -/
theorem charcasecmp_iff (hc : IsValidChar c) (hd : IsValidChar d) (s t : Str) :
    utf8Charcasecmp (c ++ s) (d ++ t) = 0 ↔ c.map lowerByte = d.map lowerByte := by
  rw [charcasecmp_append hc hd]
  constructor
  · intro h
    have hbytes := (charcasecmp_bytes hc.ne_nil hd.ne_nil h).2
    have hcsize := hc.charSize []
    have hdsize := hd.charSize []
    rw [List.append_nil] at hcsize hdsize
    rwa [hcsize, hdsize, List.take_length, List.take_length] at hbytes
  · intro h
    have hlength := congrArg List.length h
    rw [List.length_map, List.length_map] at hlength
    rcases hc.cases_case with ⟨b, hb, rfl⟩ | ⟨hlong, hsame⟩
    · rcases hd.cases_case with ⟨b', hb', rfl⟩ | ⟨hlong', -⟩
      · have hbyte : lowerByte b = lowerByte b' := (List.cons.inj h).1
        rw [charcasecmp_eq_zero]
        rw [oneByte_wide (utf8LeadSize_ascii hb), oneByte_wide (utf8LeadSize_ascii hb'), wideLower_ascii b hb,
          wideLower_ascii b' hb', hbyte]
      · rw [List.length_singleton] at hlength
        omega
    · rcases hd.cases_case with ⟨b', -, rfl⟩ | ⟨-, hsame'⟩
      · rw [List.length_singleton] at hlength
        omega
      · rw [← hsame, h, hsame']
        exact charcasecmp_self d

/-- The end of a string is no character. -/
theorem charcasecmp_nil (hc : IsValidChar c) (s : Str) : utf8Charcasecmp [] (c ++ s) ≠ 0 := by
  intro h
  have hne : c ++ s ≠ [] := List.append_ne_nil_of_left_ne_nil hc.ne_nil s
  have hwide : 4294967295 = (wideCharLower (utf8WideChar (c ++ s))).toNat :=
    congrArg UInt32.toNat ((charcasecmp_eq_zero [] (c ++ s)).mp h)
  rcases hc.cases_case with ⟨b, hb, rfl⟩ | ⟨hlong, -⟩
  · rw [List.singleton_append, oneByte_wide (utf8LeadSize_ascii hb), wideLower_ascii b hb, UInt8.toNat_toUInt32] at hwide
    have hlt := (lowerByte b).toNat_lt
    omega
  · have hrange := wideLower_range hne
    rw [hc.charSize] at hrange
    omega

theorem stringTolower_flatten (h : ∀ c ∈ chars, IsValidChar c) :
    stringTolower chars.flatten = (chars.map fun c => c.map lowerByte).flatten := by
  induction chars with
  | nil => rw [List.flatten_nil, stringTolower, List.map_nil, List.flatten_nil]
  | cons c chars ih =>
    rw [List.forall_mem_cons] at h
    have hsize := h.1.charSize chars.flatten
    obtain ⟨b, t, rfl⟩ := List.exists_cons_of_ne_nil h.1.ne_nil
    rw [List.cons_append, List.length_cons] at hsize
    rw [List.flatten_cons, List.cons_append, stringTolower, hsize, Nat.add_sub_cancel, List.take_left, List.drop_left,
      ih h.2, List.map_cons, List.flatten_cons, List.map_cons, map_lowerByte_continuation h.1.continuation.2]
    rfl

/-! ## Parts of a string -/

theorem length_flatten_lower (chars : List Str) :
    (chars.map fun c => c.map lowerByte).flatten.length = chars.flatten.length := by
  rw [List.length_flatten, List.length_flatten, List.map_map]
  exact congrArg List.sum (List.map_congr_left fun c _ => List.length_map ..)

/-- The bytes of the first characters. -/
theorem take_lowerChars (h : utf8IsValid s = none) (k : Nat) :
    s.take ((lowerChars s).take k).flatten.length = ((utf8Chars s).take k).flatten ∧
      s.drop ((lowerChars s).take k).flatten.length = ((utf8Chars s).drop k).flatten := by
  have hs : s = ((utf8Chars s).take k).flatten ++ ((utf8Chars s).drop k).flatten := by
    rw [← List.flatten_append, List.take_append_drop, (utf8Chars_valid h).2]
  rw [lowerChars, ← List.map_take, length_flatten_lower]
  generalize ((utf8Chars s).take k).flatten = a at hs
  generalize ((utf8Chars s).drop k).flatten = b at hs
  rw [hs, List.take_left, List.drop_left]
  exact ⟨rfl, rfl⟩

theorem lowerChars_drop (h : utf8IsValid s = none) (k : Nat) :
    utf8IsValid (s.drop ((lowerChars s).take k).flatten.length) = none ∧
      lowerChars (s.drop ((lowerChars s).take k).flatten.length) = (lowerChars s).drop k := by
  have hvalid : ∀ c ∈ (utf8Chars s).drop k, IsValidChar c := fun c hc =>
    (utf8Chars_valid h).1 c (List.mem_of_mem_drop hc)
  rw [(take_lowerChars h k).2, lowerChars_flatten hvalid, List.map_drop]
  exact ⟨utf8IsValid_flatten hvalid, rfl⟩

theorem lowerChars_take (h : utf8IsValid s = none) (k : Nat) :
    utf8IsValid (s.take ((lowerChars s).take k).flatten.length) = none ∧
      lowerChars (s.take ((lowerChars s).take k).flatten.length) = (lowerChars s).take k := by
  have hvalid : ∀ c ∈ (utf8Chars s).take k, IsValidChar c := fun c hc =>
    (utf8Chars_valid h).1 c (List.mem_of_mem_take hc)
  rw [(take_lowerChars h k).1, lowerChars_flatten hvalid, List.map_take]
  exact ⟨utf8IsValid_flatten hvalid, rfl⟩

/-- The first character of a valid string, if there is one. -/
theorem valid_cases (h : utf8IsValid s = none) :
    s = [] ∧ lowerChars s = [] ∨ ∃ c r, IsValidChar c ∧ utf8IsValid r = none ∧ s = c ++ r ∧
      lowerChars s = c.map lowerByte :: lowerChars r := by
  obtain ⟨chars, hchars, rfl⟩ := exists_chars_of_valid h
  cases chars with
  | nil => exact .inl ⟨rfl, lowerChars_flatten hchars⟩
  | cons c chars =>
    have hrest := List.forall_mem_cons.mp hchars
    refine .inr ⟨c, chars.flatten, hrest.1, utf8IsValid_flatten hrest.2, rfl, ?_⟩
    rw [lowerChars_flatten hchars, lowerChars_flatten hrest.2, List.map_cons]

theorem lowerChars_nil : lowerChars [] = [] := by
  rw [lowerChars, utf8Chars, dif_pos rfl, List.map_nil]

theorem lowerChars_char (hc : IsValidChar c) (hs : utf8IsValid s = none) :
    lowerChars (c ++ s) = c.map lowerByte :: lowerChars s := by
  obtain ⟨chars, hchars, rfl⟩ := exists_chars_of_valid hs
  have hall : ∀ d ∈ c :: chars, IsValidChar d := List.forall_mem_cons.mpr ⟨hc, hchars⟩
  have hcons := lowerChars_flatten hall
  rwa [List.flatten_cons, List.map_cons, ← lowerChars_flatten hchars] at hcons

theorem charcasecmp_zero_iff (hs : utf8IsValid s = none) (ht : utf8IsValid t = none) :
    utf8Charcasecmp s t = 0 ↔ (lowerChars s).head? = (lowerChars t).head? := by
  rcases valid_cases hs with ⟨rfl, hslower⟩ | ⟨c, r, hc, -, rfl, hslower⟩
  · rcases valid_cases ht with ⟨rfl, htlower⟩ | ⟨d, q, hd, -, rfl, htlower⟩
    · exact ⟨fun _ => rfl, fun _ => rfl⟩
    · rw [hslower, htlower]
      exact ⟨fun h => absurd h (charcasecmp_nil hd q), fun h => by cases h⟩
  · rcases valid_cases ht with ⟨rfl, htlower⟩ | ⟨d, q, hd, -, rfl, htlower⟩
    · have hswap := utf8Charcasecmp_swap [] (c ++ r)
      have hne := charcasecmp_nil hc r
      rw [hslower, htlower]
      exact ⟨fun h => by omega, fun h => by cases h⟩
    · rw [charcasecmp_iff hc hd, hslower, htlower, List.head?_cons, List.head?_cons, Option.some.injEq]

/-- Strings that compare equal have the same characters without case. -/
theorem lowerChars_of_strcasecmp (hs : utf8IsValid s = none) (ht : utf8IsValid t = none)
    (h : stringStrcasecmp s t = 0) : lowerChars s = lowerChars t := by
  induction hlength : s.length using Nat.strongRecOn generalizing s t with | ind length ih => ?_
  rcases valid_cases hs with ⟨rfl, hslower⟩ | ⟨c, r, hc, hr, rfl, hslower⟩
  · rw [strcasecmp_nil] at h
    split at h
    · cases h
    · rename_i hnil
      rw [not_not.mp hnil]
  · have hcne : c ++ r ≠ [] := List.append_ne_nil_of_left_ne_nil hc.ne_nil r
    rcases valid_cases ht with ⟨rfl, htlower⟩ | ⟨d, q, hd, hq, rfl, htlower⟩
    · rw [strcasecmp_nil_right hcne] at h
      cases h
    · have hdne : d ++ q ≠ [] := List.append_ne_nil_of_left_ne_nil hd.ne_nil q
      rw [strcasecmp_step hcne hdne, hc.nextChar, hd.nextChar] at h
      split at h
      · rename_i hfirst
        have hlt : r.length < length := by
          have hpos := List.length_pos_of_ne_nil hc.ne_nil
          rw [← hlength, List.length_append]
          omega
        rw [hslower, htlower, (charcasecmp_iff hc hd r q).mp hfirst, ih _ hlt hr hq h rfl]
      · split at h
        · cases h
        · cases h

/-! ## Parts of valid strings -/

theorem valid_append (hs : utf8IsValid s = none) (ht : utf8IsValid t = none) : utf8IsValid (s ++ t) = none := by
  obtain ⟨chars, hchars, rfl⟩ := exists_chars_of_valid hs
  obtain ⟨chars', hchars', rfl⟩ := exists_chars_of_valid ht
  rw [← List.flatten_append]
  exact utf8IsValid_flatten fun c hc => (List.mem_append.mp hc).elim (hchars c) (hchars' c)

/-- The characters before a valid string that is at the beginning are its characters. -/
theorem valid_after (h : utf8IsValid (s ++ t) = none) (hs : utf8IsValid s = none) : utf8IsValid t = none := by
  obtain ⟨chars, hchars, rfl⟩ := exists_chars_of_valid hs
  clear hs
  induction chars with
  | nil => exact h
  | cons c chars ih =>
    rw [List.forall_mem_cons] at hchars
    rw [List.flatten_cons, List.append_assoc] at h
    obtain ⟨b, rest, rfl, hrest⟩ := id hchars.1
    have hnext := hchars.1.nextChar (chars.flatten ++ t)
    rw [List.cons_append] at h hnext
    obtain ⟨-, -, -, hvalid⟩ := valid_cons h
    rw [hnext] at hvalid
    exact ih hchars.2 hvalid

/-- A byte that is ASCII is a character. -/
theorem valid_before_ascii {b : Byte} (h : utf8IsValid (s ++ b :: t) = none) (hb : b < 0x80) :
    utf8IsValid s = none := by
  obtain ⟨chars, hchars, heq⟩ := exists_chars_of_valid h
  clear h
  induction chars generalizing s with
  | nil => exact absurd heq (List.append_ne_nil_of_right_ne_nil s (List.cons_ne_nil b t))
  | cons c chars ih =>
    rw [List.forall_mem_cons] at hchars
    rw [List.flatten_cons] at heq
    rcases List.append_eq_append_iff.mp heq with ⟨rest, hc, hrest⟩ | ⟨rest, rfl, hrest⟩
    · cases s with
      | nil => rw [utf8IsValid]
      | cons a s =>
        cases rest with
        | nil =>
          rw [List.append_nil] at hc
          subst hc
          have hvalid := utf8IsValid_flatten (List.forall_mem_singleton.mpr hchars.1)
          rwa [List.flatten_singleton] at hvalid
        | cons b' rest =>
          -- the byte is in a character, after its first byte
          obtain ⟨rfl, -⟩ := List.cons.inj hrest
          subst hc
          have hge := continuation_ge b (hchars.1.continuation.2 b (by simp))
          exact absurd hb (UInt8.not_lt.mpr hge)
    · have hvalid := utf8IsValid_flatten (List.forall_mem_singleton.mpr hchars.1)
      rw [List.flatten_singleton] at hvalid
      exact valid_append hvalid (ih hchars.2 hrest.symm)

end Wirc

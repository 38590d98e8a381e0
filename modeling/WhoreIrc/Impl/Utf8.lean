import WhoreIrc.Impl.CString

/-!
# UTF-8 strings (`core/wee-utf8.c`)

Characters are found by the first byte only: the bytes after it are not
checked, and the end of the string cuts a character short.
-/

namespace Wirc

/-- The bytes of a character whose first byte is `b`. -/
def utf8LeadSize (b : Byte) : Nat :=
  if b &&& 0xE0 = 0xC0 then 2
  else if b &&& 0xF0 = 0xE0 then 3
  else if b &&& 0xF8 = 0xF0 then 4
  else 1

/-- `utf8_char_size`, of a string that is not empty. -/
def utf8CharSize : Str → Nat
  | [] => 1
  | b :: s => min (utf8LeadSize b) (s.length + 1)

/-- `utf8_next_char`. -/
def utf8NextChar (string : Str) : Str := string.drop (utf8CharSize string)

theorem utf8CharSize_pos (s : Str) : 0 < utf8CharSize s := by
  cases s with
  | nil => exact Nat.one_pos
  | cons b s =>
    have : 0 < utf8LeadSize b := by
      simp only [utf8LeadSize]
      repeat' split
      all_goals omega
    simp only [utf8CharSize]
    omega

theorem utf8NextChar_length_lt {s : Str} (h : s ≠ []) : (utf8NextChar s).length < s.length := by
  have h1 := utf8CharSize_pos s
  have h2 := List.length_pos_iff.mpr h
  rw [utf8NextChar, List.length_drop]
  omega

/-- `utf8_strlen`: the number of characters. -/
def utf8Strlen (string : Str) : Nat :=
  if _ : string = [] then 0 else utf8Strlen (utf8NextChar string) + 1
termination_by string.length
decreasing_by exact utf8NextChar_length_lt ‹_›

/-- `utf8_wide_char`: the bytes of the first character as one number, where a
single byte is converted from a signed `char`. -/
def utf8WideChar (string : Str) : UInt32 :=
  match string, utf8CharSize string with
  | b0 :: _, 1 => ⟨b0.toBitVec.signExtend 32⟩
  | b0 :: b1 :: _, 2 => b0.toUInt32 <<< 8 ||| b1.toUInt32
  | b0 :: b1 :: b2 :: _, 3 => b0.toUInt32 <<< 16 ||| b1.toUInt32 <<< 8 ||| b2.toUInt32
  | b0 :: b1 :: b2 :: b3 :: _, 4 =>
    b0.toUInt32 <<< 24 ||| b1.toUInt32 <<< 16 ||| b2.toUInt32 <<< 8 ||| b3.toUInt32
  | _, _ => 0xFFFFFFFF

/-- `wchar += ('a' - 'A')` for a capital letter. -/
def wideCharLower (wchar : UInt32) : UInt32 :=
  if 65 ≤ wchar && wchar ≤ 90 then wchar + 32 else wchar

/-- `utf8_charcasecmp`. -/
def utf8Charcasecmp (string1 string2 : Str) : Int :=
  let wchar1 := wideCharLower (utf8WideChar string1)
  let wchar2 := wideCharLower (utf8WideChar string2)
  if wchar1 < wchar2 then -1 else if wchar1 = wchar2 then 0 else 1

/-- `string_strcasecmp` (`core/wee-string.c`). -/
def stringStrcasecmp (string1 string2 : Str) : Int :=
  if _ : string1 = [] ∨ string2 = [] then if string1 ≠ [] then 1 else if string2 ≠ [] then -1 else 0
  else
    let diff := utf8Charcasecmp string1 string2
    if diff ≠ 0 then if diff < 0 then -1 else 1
    else stringStrcasecmp (utf8NextChar string1) (utf8NextChar string2)
termination_by string1.length
decreasing_by exact utf8NextChar_length_lt fun h => ‹¬ (string1 = [] ∨ string2 = [])› (.inl h)

/-! ## Positions -/

/-- `utf8_add_offset`. -/
def utf8AddOffset : Str → (offset : Nat) → Str
  | string, 0 => string
  | string, offset + 1 => if string = [] then [] else utf8AddOffset (utf8NextChar string) offset

/-- `utf8_strnlen`, of a number of bytes. -/
def utf8Strnlen (string : Str) (bytes : Nat) : Nat :=
  if h : string = [] ∨ bytes = 0 then 0
  else utf8Strnlen (utf8NextChar string) (bytes - utf8CharSize string) + 1
termination_by string.length
decreasing_by exact utf8NextChar_length_lt fun hnil => h (.inl hnil)

/-- `utf8_pos`, once the local charset is known. -/
def utf8Pos (string : Str) (realPos : Nat) : Nat := utf8Strnlen string realPos

/-- `utf8_real_pos`. -/
def utf8RealPos : Str → (pos : Nat) → Nat
  | _, 0 => 0
  | string, pos + 1 => if string = [] then 0 else utf8CharSize string + utf8RealPos (utf8NextChar string) pos

/-- `utf8_next_char`, of the pointer at a byte of a string. -/
def utf8NextCharPos (string : Str) (pos : Nat) : Nat := pos + utf8CharSize (string.drop pos)

/-- A byte that is in a character after its first byte. -/
def utf8IsContinuation (string : Str) (pos : Nat) : Bool := string.getD pos 0 &&& 0xC0 = 0x80

/-- `utf8_prev_char`, of the pointer at a byte of a string; `none` for NULL. -/
def utf8PrevChar (string : Str) : (pos : Nat) → Option Nat
  | 0 => none
  | pos + 1 =>
    if utf8IsContinuation string pos then
      match pos with
      | 0 => some 0
      | pos + 1 =>
        if utf8IsContinuation string pos then
          match pos with
          | 0 => some 0
          | pos + 1 => if utf8IsContinuation string pos then some (pos - 1) else some pos
        else some pos
    else some pos

theorem utf8PrevChar_lt {string : Str} {pos prev : Nat} (h : utf8PrevChar string pos = some prev) : prev < pos := by
  cases pos with
  | zero => cases h
  | succ pos =>
    unfold utf8PrevChar at h
    repeat' split at h
    all_goals simp only [Option.some.injEq, reduceCtorEq] at h
    all_goals omega

/-! ## Valid strings -/

/-- The bits of a character, from those of its first byte. -/
def utf8CharBits (lead : Byte) (s : Str) : Nat := s.foldl (fun bits b => bits * 64 + (b &&& 0x3F).toNat) lead.toNat

/-- `utf8_char_int`. -/
def utf8CharInt : Str → Nat
  | [] => 0
  | b :: s =>
    if b &&& 0xE0 = 0xC0 then utf8CharBits (b &&& 0x1F) (s.take 1)
    else if b &&& 0xF0 = 0xE0 then utf8CharBits (b &&& 0x0F) (s.take 2)
    else if b &&& 0xF8 = 0xF0 then utf8CharBits (b &&& 0x07) (s.take 3)
    else b.toNat

/-- The code points of the characters of two, three and four bytes. -/
def utf8CodePointIsValid (codePoint : Nat) : (size : Nat) → Bool
  | 2 => 0x80 ≤ codePoint && codePoint ≤ 0x7FF
  | 3 => 0x800 ≤ codePoint && codePoint ≤ 0xFFFF && !(0xD800 ≤ codePoint && codePoint ≤ 0xDFFF)
  | _ => 0x10000 ≤ codePoint && codePoint ≤ 0x1FFFFF

/-- The tests of `utf8_is_valid` on one character. -/
def utf8CharIsValid (b : Byte) (s : Str) : Bool :=
  let rest := s.take (utf8LeadSize b - 1)
  if utf8LeadSize b = 1 then b < 0x80
  else
    rest.length = utf8LeadSize b - 1 && rest.all (fun c => c &&& 0xC0 = 0x80) &&
      utf8CodePointIsValid (utf8CharInt (b :: s)) (utf8LeadSize b)

/-- `utf8_is_valid`, for a whole string: the pointer `error`, `none` for a valid string. -/
def utf8IsValid (string : Str) : Option Str :=
  match string with
  | [] => none
  | b :: s => if utf8CharIsValid b s then utf8IsValid (s.drop (utf8LeadSize b - 1)) else some (b :: s)
termination_by string.length
decreasing_by
  rw [List.length_drop, List.length_cons]
  omega

theorem utf8IsValid_error {string error : Str} (h : utf8IsValid string = some error) :
    error <:+ string ∧ error ≠ [] := by
  fun_induction utf8IsValid string with
  | case1 => cases h
  | case2 b s _ ih => exact ⟨((ih h).1.trans (List.drop_suffix _ _)).trans (List.suffix_cons _ _), (ih h).2⟩
  | case3 b s _ =>
    cases h
    exact ⟨List.suffix_rfl, List.cons_ne_nil _ _⟩

/-- `utf8_normalize`. -/
def utf8Normalize (string : Str) (replacement : Byte) : Str :=
  match _h : utf8IsValid string with
  | none => string
  | some error => strndup string (off string error) ++ replacement :: utf8Normalize error.tail replacement
termination_by string.length
decreasing_by
  have hlength := (utf8IsValid_error _h).1.length_le
  have hpos := List.length_pos_of_ne_nil (utf8IsValid_error _h).2
  rw [List.length_tail]
  omega

end Wirc

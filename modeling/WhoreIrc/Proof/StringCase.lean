import WhoreIrc.Framework.Cmp
import WhoreIrc.Impl.StringMatch
import WhoreIrc.Proof.CString
import WhoreIrc.Proof.Utf8
import WhoreIrc.Spec.Utf8

/-!
# Comparison without case (`core/wee-string.c`)

`string_strcasecmp` orders strings as their characters (`strcasecmp_order`), and
characters compare equal as their bytes, but for the case of ASCII letters.
-/

namespace Wirc

open Framework

/-! ## The order -/

variable {string1 string2 : Str} {max : Nat}

theorem utf8Charcasecmp_swap (string1 string2 : Str) :
    utf8Charcasecmp string2 string1 = - utf8Charcasecmp string1 string2 := by
  rw [utf8Charcasecmp, utf8Charcasecmp]
  rcases Nat.lt_trichotomy (wideCharLower (utf8WideChar string1)).toNat (wideCharLower (utf8WideChar string2)).toNat with
    hlt | heq | hgt
  · rw [if_pos (UInt32.lt_iff_toNat_lt.mpr hlt), if_neg fun h => Nat.lt_asymm hlt (UInt32.lt_iff_toNat_lt.mp h),
      if_neg fun h => Nat.ne_of_gt hlt (congrArg UInt32.toNat h)]
    rfl
  · rw [UInt32.toNat_inj.mp heq, if_neg (Nat.lt_irrefl _ ∘ UInt32.lt_iff_toNat_lt.mp), if_pos rfl]
    rfl
  · rw [if_pos (UInt32.lt_iff_toNat_lt.mpr hgt), if_neg fun h => Nat.lt_asymm hgt (UInt32.lt_iff_toNat_lt.mp h),
      if_neg fun h => Nat.ne_of_gt hgt (congrArg UInt32.toNat h)]

theorem strcasecmp_eq (string1 string2 : Str) :
    stringStrcasecmp string1 string2 =
      if string1 = [] ∨ string2 = [] then if string1 ≠ [] then 1 else if string2 ≠ [] then -1 else 0
      else if utf8Charcasecmp string1 string2 ≠ 0 then if utf8Charcasecmp string1 string2 < 0 then -1 else 1
      else stringStrcasecmp (utf8NextChar string1) (utf8NextChar string2) := by
  rw [stringStrcasecmp, dite_eq_ite]

theorem strcasecmp_nil (string2 : Str) : stringStrcasecmp [] string2 = if string2 ≠ [] then -1 else 0 := by
  rw [strcasecmp_eq, if_pos (.inl rfl), if_neg (not_not.mpr rfl)]

theorem strcasecmp_nil_right (h : string1 ≠ []) : stringStrcasecmp string1 [] = 1 := by
  rw [strcasecmp_eq, if_pos (.inr rfl), if_pos h]

/-- The first characters decide unless they are the same. -/
theorem strcasecmp_step (h1 : string1 ≠ []) (h2 : string2 ≠ []) :
    stringStrcasecmp string1 string2 =
      if utf8Charcasecmp string1 string2 = 0 then stringStrcasecmp (utf8NextChar string1) (utf8NextChar string2)
      else if utf8Charcasecmp string1 string2 < 0 then -1 else 1 := by
  rw [strcasecmp_eq, if_neg (not_or.mpr ⟨h1, h2⟩), ite_not]

theorem stringStrcasecmp_self (s : Str) : stringStrcasecmp s s = 0 := by
  induction hn : s.length using Nat.strong_induction_on generalizing s with
  | _ n ih =>
    by_cases hnil : s = []
    · rw [hnil, strcasecmp_nil, if_neg (not_not.mpr rfl)]
    · have hcmp : utf8Charcasecmp s s = 0 := by simp [utf8Charcasecmp]
      rw [strcasecmp_step hnil hnil, if_pos hcmp]
      exact ih _ (hn ▸ utf8NextChar_length_lt hnil) _ rfl

theorem strcasecmp_swap (string1 string2 : Str) :
    stringStrcasecmp string2 string1 = - stringStrcasecmp string1 string2 := by
  induction hlength : string1.length using Nat.strongRecOn generalizing string1 string2 with | ind length ih => ?_
  by_cases h1 : string1 = []
  · by_cases h2 : string2 = []
    · rw [h1, h2, stringStrcasecmp_self]
      rfl
    · rw [h1, strcasecmp_nil_right h2, strcasecmp_nil, if_pos h2]
      rfl
  by_cases h2 : string2 = []
  · rw [h2, strcasecmp_nil_right h1, strcasecmp_nil, if_pos h1]
  have hlt := hlength ▸ utf8NextChar_length_lt h1
  rw [strcasecmp_step h1 h2, strcasecmp_step h2 h1, utf8Charcasecmp_swap string1 string2,
    ih _ hlt (utf8NextChar string1) (utf8NextChar string2) rfl]
  rcases Int.lt_trichotomy (utf8Charcasecmp string1 string2) 0 with hneg | hzero | hpos
  · rw [if_neg (by omega), if_neg (by omega), if_neg (by omega), if_pos hneg]
    rfl
  · rw [if_pos (by omega), if_pos hzero]
  · rw [if_neg (by omega), if_pos (by omega), if_neg (by omega), if_neg (by omega)]

/-- The order of the first characters. -/
theorem charcasecmp_le_iff (string1 string2 : Str) : utf8Charcasecmp string1 string2 ≤ 0 ↔
    (wideCharLower (utf8WideChar string1)).toNat ≤ (wideCharLower (utf8WideChar string2)).toNat := by
  rw [utf8Charcasecmp]
  simp only [UInt32.lt_iff_toNat_lt, ← UInt32.toNat_inj]
  split
  · omega
  · split <;> omega

/-- The order of two strings, from that of their first characters. -/
theorem strcasecmp_le_iff (h1 : string1 ≠ []) (h2 : string2 ≠ []) : stringStrcasecmp string1 string2 ≤ 0 ↔
    utf8Charcasecmp string1 string2 ≤ 0 ∧
      (utf8Charcasecmp string1 string2 = 0 → stringStrcasecmp (utf8NextChar string1) (utf8NextChar string2) ≤ 0) := by
  rw [strcasecmp_step h1 h2]
  split
  · rename_i hzero
    rw [forall_prop_of_true hzero, hzero]
    exact (and_iff_right (Int.le_refl 0)).symm
  · rename_i hne
    rw [forall_prop_of_false hne, and_true]
    split <;> omega

theorem strcasecmp_trans {string1 string2 string3 : Str} (h12 : stringStrcasecmp string1 string2 ≤ 0)
    (h23 : stringStrcasecmp string2 string3 ≤ 0) : stringStrcasecmp string1 string3 ≤ 0 := by
  induction hlength : string1.length using Nat.strongRecOn generalizing string1 string2 string3 with | ind length ih => ?_
  by_cases h1 : string1 = []
  · rw [h1, strcasecmp_nil]
    split <;> omega
  have h2 : string2 ≠ [] := fun h2 => by
    rw [h2, strcasecmp_nil_right h1] at h12
    omega
  have h3 : string3 ≠ [] := fun h3 => by
    rw [h3, strcasecmp_nil_right h2] at h23
    omega
  have hlt := hlength ▸ utf8NextChar_length_lt h1
  obtain ⟨hle12, hnext12⟩ := (strcasecmp_le_iff h1 h2).mp h12
  obtain ⟨hle23, hnext23⟩ := (strcasecmp_le_iff h2 h3).mp h23
  have hswap12 := utf8Charcasecmp_swap string1 string2
  have hswap23 := utf8Charcasecmp_swap string2 string3
  have hswap13 := utf8Charcasecmp_swap string1 string3
  have hback12 := charcasecmp_le_iff string2 string1
  have hback23 := charcasecmp_le_iff string3 string2
  have hback13 := charcasecmp_le_iff string3 string1
  rw [charcasecmp_le_iff] at hle12 hle23
  rw [strcasecmp_le_iff h1 h3, charcasecmp_le_iff]
  refine ⟨Nat.le_trans hle12 hle23, fun hzero => ih _ hlt (hnext12 ?_) (hnext23 ?_) rfl⟩
  · have := charcasecmp_le_iff string1 string2
    omega
  · have := charcasecmp_le_iff string2 string3
    omega

theorem strcasecmp_order : CmpPreorder stringStrcasecmp where
  flip string1 string2 := by
    have := strcasecmp_swap string1 string2
    omega
  trans _ _ _ := strcasecmp_trans

/-! ## The first characters -/

theorem strncasecmp_step (h1 : string1 ≠ []) (h2 : string2 ≠ []) (max : Nat) :
    stringStrncasecmp string1 string2 (max + 1) = 0 ↔
      utf8Charcasecmp string1 string2 = 0 ∧ stringStrncasecmp (utf8NextChar string1) (utf8NextChar string2) max = 0 := by
  rw [stringStrncasecmp, if_pos ⟨h1, h2⟩]
  dsimp only
  split
  · rename_i hdiff
    refine iff_of_false (fun h => ?_) fun h => hdiff h.1
    split at h <;> cases h
  · rename_i hdiff
    exact (and_iff_right (not_not.mp hdiff)).symm

/-- A string is at its end before another one. -/
theorem strncasecmp_nil (h2 : string2 ≠ []) (hmax : max ≠ 0) : stringStrncasecmp [] string2 max ≠ 0 := by
  cases max with
  | zero => exact absurd rfl hmax
  | succ max =>
    rw [stringStrncasecmp, if_neg fun h => h.1 rfl, if_neg (not_not.mpr rfl), if_pos h2]
    decide

theorem charcasecmp_self (string : Str) : utf8Charcasecmp string string = 0 := by
  rw [utf8Charcasecmp]
  simp

theorem oneByte_next {c : Byte} (hc : utf8LeadSize c = 1) (s : Str) : utf8NextChar (c :: s) = s := by
  rw [utf8NextChar, utf8CharSize, hc, Nat.min_eq_left (Nat.le_add_left 1 _)]
  rfl

/-- The number of the first character, by its size. -/
theorem wideChar_of_size (b0 b1 b2 b3 : Byte) (s : Str) :
    (utf8CharSize (b0 :: s) = 1 → utf8WideChar (b0 :: s) = ⟨b0.toBitVec.signExtend 32⟩) ∧
      (utf8CharSize (b0 :: b1 :: s) = 2 →
        utf8WideChar (b0 :: b1 :: s) = b0.toUInt32 <<< 8 ||| b1.toUInt32) ∧
      (utf8CharSize (b0 :: b1 :: b2 :: s) = 3 →
        utf8WideChar (b0 :: b1 :: b2 :: s) = b0.toUInt32 <<< 16 ||| b1.toUInt32 <<< 8 ||| b2.toUInt32) ∧
      (utf8CharSize (b0 :: b1 :: b2 :: b3 :: s) = 4 →
        utf8WideChar (b0 :: b1 :: b2 :: b3 :: s) =
          b0.toUInt32 <<< 24 ||| b1.toUInt32 <<< 16 ||| b2.toUInt32 <<< 8 ||| b3.toUInt32) := by
  refine ⟨fun hsize => ?_, fun hsize => ?_, fun hsize => ?_, fun hsize => ?_⟩
  · simp only [utf8WideChar, hsize]
  · simp only [utf8WideChar, hsize]
  · simp only [utf8WideChar, hsize]
  · simp only [utf8WideChar, hsize]

theorem oneByte_wide {c : Byte} (hc : utf8LeadSize c = 1) (s : Str) :
    utf8WideChar (c :: s) = ⟨c.toBitVec.signExtend 32⟩ := by
  have hsize : utf8CharSize (c :: s) = 1 := by
    rw [utf8CharSize, hc, Nat.min_eq_left (Nat.le_add_left 1 _)]
  exact (wideChar_of_size c 0 0 0 s).1 hsize

theorem charcasecmp_oneByte {c : Byte} (hc : utf8LeadSize c = 1) (s t u : Str) :
    utf8Charcasecmp u (c :: s) = utf8Charcasecmp u (c :: t) := by
  rw [utf8Charcasecmp, utf8Charcasecmp, oneByte_wide hc, oneByte_wide hc]

theorem charcasecmp_eq_zero (string1 string2 : Str) : utf8Charcasecmp string1 string2 = 0 ↔
    wideCharLower (utf8WideChar string1) = wideCharLower (utf8WideChar string2) := by
  have h1 := charcasecmp_le_iff string1 string2
  have h2 := charcasecmp_le_iff string2 string1
  have hswap := utf8Charcasecmp_swap string1 string2
  rw [← UInt32.toNat_inj]
  omega

theorem utf8Strlen_le_length (string : Str) : utf8Strlen string ≤ string.length := by
  fun_induction utf8Strlen string with
  | case1 => exact Nat.zero_le _
  | case2 string hne ih => exact Nat.lt_of_le_of_lt ih (utf8NextChar_length_lt hne)

/-! ## The bytes of a character -/

set_option maxRecDepth 10000 in
theorem toNat_lowerByte (b : Byte) :
    (lowerByte b).toNat = if 65 ≤ b.toNat ∧ b.toNat ≤ 90 then b.toNat + 32 else b.toNat :=
  byte_forall (P := fun b => (lowerByte b).toNat = if 65 ≤ b.toNat ∧ b.toNat ≤ 90 then b.toNat + 32 else b.toNat)
    (by decide) b

theorem toNat_shiftByte (b : Byte) :
    (b.toUInt32 <<< 8).toNat = 2 ^ 8 * b.toNat ∧ (b.toUInt32 <<< 16).toNat = 2 ^ 16 * b.toNat ∧
      (b.toUInt32 <<< 24).toNat = 2 ^ 24 * b.toNat := by
  have hb := b.toNat_lt
  have hshift : ∀ k < 25, (b.toNat <<< k) % 2 ^ 32 = 2 ^ k * b.toNat := fun k hk => by
    have hpow : 2 ^ k ≤ 2 ^ 24 := Nat.pow_le_pow_right (by decide) (by omega)
    rw [Nat.shiftLeft_eq, Nat.mul_comm]
    exact Nat.mod_eq_of_lt (Nat.lt_of_le_of_lt (Nat.mul_le_mul hpow (Nat.le_of_lt_succ hb)) (by decide))
  exact ⟨hshift 8 (by decide), hshift 16 (by decide), hshift 24 (by decide)⟩

/-- The bytes of a character are the digits of its number. -/
theorem toNat_bytes (b0 b1 b2 b3 : Byte) :
    (b0.toUInt32 <<< 8 ||| b1.toUInt32).toNat = b0.toNat * 256 + b1.toNat ∧
      (b0.toUInt32 <<< 16 ||| b1.toUInt32 <<< 8 ||| b2.toUInt32).toNat =
        (b0.toNat * 256 + b1.toNat) * 256 + b2.toNat ∧
      (b0.toUInt32 <<< 24 ||| b1.toUInt32 <<< 16 ||| b2.toUInt32 <<< 8 ||| b3.toUInt32).toNat =
        ((b0.toNat * 256 + b1.toNat) * 256 + b2.toNat) * 256 + b3.toNat := by
  obtain ⟨h08, h016, h024⟩ := toNat_shiftByte b0
  obtain ⟨h18, h116, -⟩ := toNat_shiftByte b1
  obtain ⟨h28, -, -⟩ := toNat_shiftByte b2
  have hb1 : b1.toNat < 2 ^ 8 := b1.toNat_lt
  have hb2 : b2.toNat < 2 ^ 8 := b2.toNat_lt
  have hb3 : b3.toNat < 2 ^ 8 := b3.toNat_lt
  simp only [UInt32.toNat_or, UInt8.toNat_toUInt32, h08, h016, h024, h18, h116, h28]
  refine ⟨?_, ?_, ?_⟩
  · rw [← Nat.two_pow_add_eq_or_of_lt hb1]
    omega
  · rw [← Nat.two_pow_add_eq_or_of_lt (show 2 ^ 8 * b1.toNat < 2 ^ 16 by omega),
      show 2 ^ 16 * b0.toNat + 2 ^ 8 * b1.toNat = 2 ^ 8 * (2 ^ 8 * b0.toNat + b1.toNat) by omega,
      ← Nat.two_pow_add_eq_or_of_lt hb2]
    omega
  · rw [← Nat.two_pow_add_eq_or_of_lt (show 2 ^ 16 * b1.toNat < 2 ^ 24 by omega),
      show 2 ^ 24 * b0.toNat + 2 ^ 16 * b1.toNat = 2 ^ 16 * (2 ^ 8 * b0.toNat + b1.toNat) by omega,
      ← Nat.two_pow_add_eq_or_of_lt (show 2 ^ 8 * b2.toNat < 2 ^ 16 by omega),
      show 2 ^ 16 * (2 ^ 8 * b0.toNat + b1.toNat) + 2 ^ 8 * b2.toNat =
        2 ^ 8 * (2 ^ 8 * (2 ^ 8 * b0.toNat + b1.toNat) + b2.toNat) by omega,
      ← Nat.two_pow_add_eq_or_of_lt hb3]
    omega

set_option maxRecDepth 10000 in
theorem lead_bounds (b : Byte) : (2 ≤ utf8LeadSize b → 192 ≤ b.toNat) ∧ (3 ≤ utf8LeadSize b → 224 ≤ b.toNat) ∧
    (4 ≤ utf8LeadSize b → 240 ≤ b.toNat ∧ b.toNat < 248) :=
  byte_forall (P := fun b => (2 ≤ utf8LeadSize b → 192 ≤ b.toNat) ∧ (3 ≤ utf8LeadSize b → 224 ≤ b.toNat) ∧
    (4 ≤ utf8LeadSize b → 240 ≤ b.toNat ∧ b.toNat < 248)) (by decide) b

set_option maxRecDepth 10000 in
/-- The number of a single byte, which is signed. -/
theorem toNat_wideLower_alone (b : Byte) : (wideCharLower ⟨b.toBitVec.signExtend 32⟩).toNat = (lowerByte b).toNat ∨
    128 ≤ (lowerByte b).toNat ∧ (wideCharLower ⟨b.toBitVec.signExtend 32⟩).toNat = (lowerByte b).toNat + 4294967040 :=
  byte_forall (P := fun b => (wideCharLower ⟨b.toBitVec.signExtend 32⟩).toNat = (lowerByte b).toNat ∨
    128 ≤ (lowerByte b).toNat ∧ (wideCharLower ⟨b.toBitVec.signExtend 32⟩).toNat = (lowerByte b).toNat + 4294967040)
    (by decide) b

theorem wideCharLower_several {wchar : UInt32} {n : Nat} (h : wchar.toNat = n) (hn : 91 ≤ n) :
    (wideCharLower wchar).toNat = n := by
  have hletter : ¬ (65 ≤ wchar && wchar ≤ 90) = true := by
    rw [Bool.and_eq_true, decide_eq_true_eq, decide_eq_true_eq, UInt32.le_iff_toNat_le, UInt32.le_iff_toNat_le, h]
    exact fun hrange => absurd hrange.2 (Nat.not_le.mpr hn)
  rw [wideCharLower, if_neg hletter, h]

/-! The number that is compared for a first character of one, two, three and four bytes. -/

theorem wideLower_one {s : Str} (hs : s ≠ []) (hsize : utf8CharSize s = 1) :
    ∃ b r, s = b :: r ∧ ((wideCharLower (utf8WideChar s)).toNat = (lowerByte b).toNat ∨
      128 ≤ (lowerByte b).toNat ∧ (wideCharLower (utf8WideChar s)).toNat = (lowerByte b).toNat + 4294967040) := by
  obtain ⟨b, r, rfl⟩ := List.exists_cons_of_ne_nil hs
  rw [(wideChar_of_size b 0 0 0 r).1 hsize]
  exact ⟨b, r, rfl, toNat_wideLower_alone b⟩

theorem wideLower_two {s : Str} (hsize : utf8CharSize s = 2) :
    ∃ b0 b1 r, s = b0 :: b1 :: r ∧ 192 ≤ b0.toNat ∧
      (wideCharLower (utf8WideChar s)).toNat = b0.toNat * 256 + b1.toNat := by
  obtain _ | ⟨b0, _ | ⟨b1, r⟩⟩ := s
  · cases hsize
  · rw [utf8CharSize, List.length_nil] at hsize
    omega
  · have hb0 := (lead_bounds b0).1 (hsize ▸ Nat.min_le_left ..)
    refine ⟨b0, b1, r, rfl, hb0, wideCharLower_several ?_ (by omega)⟩
    rw [(wideChar_of_size b0 b1 0 0 r).2.1 hsize]
    exact (toNat_bytes b0 b1 0 0).1

theorem wideLower_three {s : Str} (hsize : utf8CharSize s = 3) :
    ∃ b0 b1 b2 r, s = b0 :: b1 :: b2 :: r ∧ 224 ≤ b0.toNat ∧
      (wideCharLower (utf8WideChar s)).toNat = (b0.toNat * 256 + b1.toNat) * 256 + b2.toNat := by
  obtain _ | ⟨b0, _ | ⟨b1, _ | ⟨b2, r⟩⟩⟩ := s
  · cases hsize
  · rw [utf8CharSize, List.length_nil] at hsize
    omega
  · rw [utf8CharSize, List.length_singleton] at hsize
    omega
  · have hb0 := (lead_bounds b0).2.1 (hsize ▸ Nat.min_le_left ..)
    refine ⟨b0, b1, b2, r, rfl, hb0, wideCharLower_several ?_ (by omega)⟩
    rw [(wideChar_of_size b0 b1 b2 0 r).2.2.1 hsize]
    exact (toNat_bytes b0 b1 b2 0).2.1

theorem wideLower_four {s : Str} (hsize : utf8CharSize s = 4) :
    ∃ b0 b1 b2 b3 r, s = b0 :: b1 :: b2 :: b3 :: r ∧ 240 ≤ b0.toNat ∧ b0.toNat < 248 ∧
      (wideCharLower (utf8WideChar s)).toNat =
        ((b0.toNat * 256 + b1.toNat) * 256 + b2.toNat) * 256 + b3.toNat := by
  obtain _ | ⟨b0, _ | ⟨b1, _ | ⟨b2, _ | ⟨b3, r⟩⟩⟩⟩ := s
  · cases hsize
  · rw [utf8CharSize, List.length_nil] at hsize
    omega
  · rw [utf8CharSize, List.length_singleton] at hsize
    omega
  · rw [utf8CharSize, List.length_cons, List.length_singleton] at hsize
    omega
  · obtain ⟨hb0, hmax⟩ := (lead_bounds b0).2.2 (hsize ▸ Nat.min_le_left ..)
    refine ⟨b0, b1, b2, b3, r, rfl, hb0, hmax, wideCharLower_several ?_ (by omega)⟩
    rw [(wideChar_of_size b0 b1 b2 b3 r).2.2.2 hsize]
    exact (toNat_bytes b0 b1 b2 b3).2.2

/-- The size of a character is seen in its number. -/
theorem wideLower_range {s : Str} (hs : s ≠ []) :
    let n := (wideCharLower (utf8WideChar s)).toNat
    utf8CharSize s = 1 ∧ (n < 256 ∨ 4160749568 ≤ n) ∨ utf8CharSize s = 2 ∧ 256 ≤ n ∧ n < 65536 ∨
      utf8CharSize s = 3 ∧ 65536 ≤ n ∧ n < 16777216 ∨ utf8CharSize s = 4 ∧ 16777216 ≤ n ∧ n < 4160749568 := by
  have hlt (b : Byte) : b.toNat < 256 := b.toNat_lt
  have hsize : 1 ≤ utf8CharSize s ∧ utf8CharSize s ≤ 4 := by
    obtain ⟨b, r, rfl⟩ := List.exists_cons_of_ne_nil hs
    have hlead := utf8LeadSize_cases b
    have hmin : utf8CharSize (b :: r) ≤ utf8LeadSize b := Nat.min_le_left ..
    exact ⟨utf8CharSize_pos _, by omega⟩
  rcases (by omega : utf8CharSize s = 1 ∨ utf8CharSize s = 2 ∨ utf8CharSize s = 3 ∨ utf8CharSize s = 4) with
    h1 | h2 | h3 | h4
  · obtain ⟨b, r, -, hn⟩ := wideLower_one hs h1
    have := hlt (lowerByte b)
    omega
  · obtain ⟨b0, b1, r, -, hlead, hn⟩ := wideLower_two h2
    have := hlt b0
    have := hlt b1
    omega
  · obtain ⟨b0, b1, b2, r, -, hlead, hn⟩ := wideLower_three h3
    have := hlt b0
    have := hlt b1
    have := hlt b2
    omega
  · obtain ⟨b0, b1, b2, b3, r, -, hlead, hmax, hn⟩ := wideLower_four h4
    have := hlt b1
    have := hlt b2
    have := hlt b3
    omega

/-- Characters that compare equal have the same bytes, but for the case. -/
theorem charcasecmp_bytes {s t : Str} (hs : s ≠ []) (ht : t ≠ []) (h : utf8Charcasecmp s t = 0) :
    utf8CharSize s = utf8CharSize t ∧
      (s.take (utf8CharSize s)).map lowerByte = (t.take (utf8CharSize t)).map lowerByte := by
  have hwide := congrArg UInt32.toNat ((charcasecmp_eq_zero s t).mp h)
  have hs' := wideLower_range hs
  have ht' := wideLower_range ht
  have hsize : utf8CharSize s = utf8CharSize t := by omega
  refine ⟨hsize, ?_⟩
  have hlt (b : Byte) : b.toNat < 256 := b.toNat_lt
  have hbyte {b c : Byte} (h : b.toNat = c.toNat) : b = c := UInt8.toNat_inj.mp h
  rcases (by omega : utf8CharSize s = 1 ∨ utf8CharSize s = 2 ∨ utf8CharSize s = 3 ∨ utf8CharSize s = 4) with
    hn | hn | hn | hn
  · obtain ⟨b, r, rfl, hb⟩ := wideLower_one hs hn
    obtain ⟨c, q, rfl, hc⟩ := wideLower_one ht (hsize ▸ hn)
    have := hlt (lowerByte b)
    have := hlt (lowerByte c)
    rw [← hsize, hn]
    exact congrArg (fun c => [c]) (hbyte (by omega))
  · obtain ⟨b0, b1, r, rfl, -, hb⟩ := wideLower_two hn
    obtain ⟨c0, c1, q, rfl, -, hc⟩ := wideLower_two (hsize ▸ hn)
    have := hlt b1
    have := hlt c1
    have h0 : b0 = c0 := hbyte (by omega)
    have h1 : b1 = c1 := hbyte (by omega)
    rw [← hsize, hn, h0, h1]
    rfl
  · obtain ⟨b0, b1, b2, r, rfl, -, hb⟩ := wideLower_three hn
    obtain ⟨c0, c1, c2, q, rfl, -, hc⟩ := wideLower_three (hsize ▸ hn)
    have := hlt b1
    have := hlt c1
    have := hlt b2
    have := hlt c2
    have h0 : b0 = c0 := hbyte (by omega)
    have h1 : b1 = c1 := hbyte (by omega)
    have h2 : b2 = c2 := hbyte (by omega)
    rw [← hsize, hn, h0, h1, h2]
    rfl
  · obtain ⟨b0, b1, b2, b3, r, rfl, -, -, hb⟩ := wideLower_four hn
    obtain ⟨c0, c1, c2, c3, q, rfl, -, -, hc⟩ := wideLower_four (hsize ▸ hn)
    have := hlt b1
    have := hlt c1
    have := hlt b2
    have := hlt c2
    have := hlt b3
    have := hlt c3
    have h0 : b0 = c0 := hbyte (by omega)
    have h1 : b1 = c1 := hbyte (by omega)
    have h2 : b2 = c2 := hbyte (by omega)
    have h3 : b3 = c3 := hbyte (by omega)
    rw [← hsize, hn, h0, h1, h2, h3]
    rfl

/-! ## Whole strings -/

/-- Strings that compare equal have the same bytes, but for the case. -/
theorem strcasecmp_bytes {s t : Str} (h : stringStrcasecmp s t = 0) : s.map lowerByte = t.map lowerByte := by
  induction hlength : s.length using Nat.strongRecOn generalizing s t with | ind length ih => ?_
  by_cases hs : s = []
  · by_cases ht : t = []
    · rw [hs, ht]
    · rw [hs, strcasecmp_nil, if_pos ht] at h
      cases h
  by_cases ht : t = []
  · rw [ht, strcasecmp_nil_right hs] at h
    cases h
  rw [strcasecmp_step hs ht] at h
  split at h
  · rename_i hchar
    obtain ⟨hsize, hbytes⟩ := charcasecmp_bytes hs ht hchar
    have hrest := ih _ (hlength ▸ utf8NextChar_length_lt hs) h rfl
    rw [utf8NextChar, utf8NextChar] at hrest
    rw [← List.take_append_drop (utf8CharSize s) s, ← List.take_append_drop (utf8CharSize t) t, List.map_append,
      List.map_append, hbytes, hrest]
  · split at h <;> cases h

/-- A string that compares equal to a word on all characters of the word begins with its bytes, but for the case. -/
theorem strncasecmp_bytes {s word : Str} {max : Nat} (hmax : word.length ≤ max) (h : stringStrncasecmp s word max = 0) :
    (s.take word.length).map lowerByte = word.map lowerByte := by
  induction max generalizing s word with
  | zero =>
    rw [List.length_eq_zero_iff.mp (Nat.le_zero.mp hmax)]
    rfl
  | succ max ih =>
    by_cases hword : word = []
    · rw [hword]
      rfl
    by_cases hs : s = []
    · rw [hs] at h
      exact absurd h (strncasecmp_nil hword (Nat.succ_ne_zero max))
    rw [strncasecmp_step hs hword] at h
    obtain ⟨hsize, hbytes⟩ := charcasecmp_bytes hs hword h.1
    have hle := utf8CharSize_le_length hword
    have hpos := utf8CharSize_pos word
    have hrest := ih (by rw [utf8NextChar, List.length_drop]; omega) h.2
    rw [utf8NextChar, utf8NextChar, List.length_drop] at hrest
    rw [hsize] at hbytes hrest
    conv_lhs => rw [← Nat.add_sub_cancel' hle, List.take_add]
    conv_rhs => rw [← List.take_append_drop (utf8CharSize word) word]
    rw [List.map_append, List.map_append, hbytes, hrest]

/-- A string that compares equal to a word on more characters than the word has is as long as the word. -/
theorem strncasecmp_length {s word : Str} {max : Nat} (hmax : utf8Strlen word < max)
    (h : stringStrncasecmp s word max = 0) : s.length = word.length := by
  induction max generalizing s word with
  | zero => cases hmax
  | succ max ih =>
    by_cases hword : word = []
    · by_cases hs : s = []
      · rw [hs, hword]
      · rw [stringStrncasecmp, if_neg fun h => h.2 hword, if_pos hs] at h
        cases h
    by_cases hs : s = []
    · rw [hs] at h
      exact absurd h (strncasecmp_nil hword (Nat.succ_ne_zero max))
    rw [strncasecmp_step hs hword] at h
    obtain ⟨hsize, -⟩ := charcasecmp_bytes hs hword h.1
    rw [utf8Strlen, dif_neg hword] at hmax
    have hle := utf8CharSize_le_length hs
    have hle' := utf8CharSize_le_length hword
    have hrest := ih (Nat.lt_of_succ_lt_succ hmax) h.2
    rw [utf8NextChar, utf8NextChar, List.length_drop, List.length_drop] at hrest
    omega

/-- A string begins with a word whose characters have one byte. -/
theorem strncasecmp_append {word : Str} (hword : ∀ b ∈ word, utf8LeadSize b = 1) (rest : Str) :
    stringStrncasecmp (word ++ rest) word word.length = 0 := by
  induction word with
  | nil => rfl
  | cons c word ih =>
    obtain ⟨hc, hword⟩ := List.forall_mem_cons.mp hword
    rw [List.cons_append, List.length_cons, strncasecmp_step (List.cons_ne_nil _ _) (List.cons_ne_nil _ _),
      oneByte_next hc, oneByte_next hc]
    refine ⟨?_, ih hword⟩
    rw [charcasecmp_oneByte hc _ (word ++ rest)]
    exact charcasecmp_self _

/-- A character of several bytes before the last byte. -/
theorem utf8Strlen_lt {s rest : Str} (hrest : rest ≠ []) {b : Byte} (hb : b ∈ s) (hlead : utf8LeadSize b ≠ 1) :
    utf8Strlen (s ++ rest) < (s ++ rest).length := by
  induction s with
  | nil => cases hb
  | cons c s ih =>
    have hne := List.cons_ne_nil c (s ++ rest)
    rw [List.cons_append, utf8Strlen, dif_neg hne]
    by_cases hc : utf8LeadSize c = 1
    · rw [oneByte_next hc, List.length_cons]
      rcases List.mem_cons.mp hb with rfl | hb
      · exact absurd hc hlead
      · exact Nat.succ_lt_succ (ih hb)
    · have hnext := utf8Strlen_le_length (utf8NextChar (c :: (s ++ rest)))
      have hcases := utf8LeadSize_cases c
      have hpos := List.length_pos_of_ne_nil hrest
      rw [utf8NextChar, List.length_drop, utf8CharSize] at hnext
      simp only [utf8NextChar, utf8CharSize, List.length_cons, List.length_append] at hnext ⊢
      omega

end Wirc

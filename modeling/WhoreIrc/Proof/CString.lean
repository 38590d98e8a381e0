import Mathlib.Algebra.Group.Nat.Defs
import Mathlib.Data.List.DropRight
import Mathlib.Data.List.TakeWhile
import WhoreIrc.Impl.CString

/-!
# C strings: pointers and searches

A pointer into a string is a suffix of it: `drop_off` and `off_le_off` turn
distances back into pointers, and `strchr_some`, `strpbrk_some` and
`strstr_some` say where a search stops.
-/

namespace Wirc

/-! ## The string in a buffer -/

theorem cString_of_not_mem {s : Str} (h : 0 ∉ s) : (cString s).val = s := by
  refine List.takeWhile_eq_self_iff.mpr fun c hc => ?_
  simpa using fun h0 : c = 0 => h (h0 ▸ hc)

theorem cString_append {s : List Byte} (hs : 0 ∉ s) (rest : List Byte) : (cString (s ++ 0 :: rest)).val = s := by
  have hall : ∀ c ∈ s, decide (c ≠ 0) = true := fun c hc => decide_eq_true fun h => hs (h ▸ hc)
  show (s ++ 0 :: rest).takeWhile (· ≠ 0) = s
  rw [List.takeWhile_append_of_pos hall, List.takeWhile_cons_of_neg (by decide), List.append_nil]

theorem cString_append_zero (s : CStr) : cString (s.val ++ [0]) = s := Subtype.ext (cString_append s.2 [])

/-! ## Pointers -/

/-- A fact about a byte, from all its values. -/
theorem byte_forall {P : Byte → Prop} (h : ∀ n : Fin 256, P (.ofFin n)) (b : Byte) : P b := h b.toFin

theorem off_append (u p : Str) : off (u ++ p) p = u.length := by
  simp [off]

theorem take_off_append (u p : Str) : (u ++ p).take (off (u ++ p) p) = u := by
  rw [off_append, List.take_left]

/-- `strchr` stops at the first `c`. -/
theorem strchr_some {s p : Str} {c : Byte} (h : strchr s c = some p) :
    ∃ u t, s = u ++ p ∧ p = c :: t ∧ c ∉ u := by
  induction s with
  | nil => cases h
  | cons b s ih =>
    simp only [strchr] at h
    split at h
    · rename_i hb
      cases h
      exact ⟨[], s, rfl, by rw [hb], by simp⟩
    · rename_i hb
      obtain ⟨u, t, rfl, rfl, hu⟩ := ih h
      exact ⟨b :: u, t, rfl, rfl, by simp [hu, Ne.symm hb]⟩

theorem strchr_none {s : Str} {c : Byte} : strchr s c = none ↔ c ∉ s := by
  induction s with
  | nil => simp [strchr]
  | cons b s ih =>
    by_cases hb : b = c
    · simp [strchr, hb]
    · simp [strchr, hb, ih, Ne.symm hb]

theorem strchr_append {u : Str} {c : Byte} (hu : c ∉ u) (s : Str) : strchr (u ++ s) c = strchr s c := by
  induction u with
  | nil => rfl
  | cons b u ih =>
    rw [List.mem_cons, not_or] at hu
    rw [List.cons_append, strchr, if_neg (Ne.symm hu.1), ih hu.2]

/-- `strstr` stops at the first occurrence of the word. -/
theorem strrchr_none {s : Str} {c : Byte} : strrchr s c = none ↔ c ∉ s := by
  induction s with
  | nil => simp [strrchr]
  | cons b s ih =>
    rw [strrchr, List.mem_cons, not_or, ← ih]
    cases strrchr s c with
    | some p => simp
    | none => simp [eq_comm]

theorem strrchr_some {s p : Str} {c : Byte} (h : strrchr s c = some p) :
    ∃ u t, s = u ++ c :: t ∧ p = c :: t ∧ c ∉ t := by
  induction s with
  | nil => cases h
  | cons b s ih =>
    rw [strrchr] at h
    cases hs : strrchr s c with
    | some q =>
      rw [hs] at h
      cases h
      obtain ⟨u, t, rfl, rfl, ht⟩ := ih hs
      exact ⟨b :: u, t, rfl, rfl, ht⟩
    | none =>
      rw [hs] at h
      dsimp only at h
      split at h
      · rename_i hb
        cases h
        exact ⟨[], s, by rw [hb, List.nil_append], by rw [hb], strrchr_none.mp hs⟩
      · cases h

theorem strstr_some {s w p : Str} (h : strstr s w = some p) :
    ∃ u r, s = u ++ w ++ r ∧ p = w ++ r ∧ ∀ u' r', s = u' ++ w ++ r' → u.length ≤ u'.length := by
  induction s with
  | nil =>
    simp only [strstr] at h
    split at h
    · rename_i hw
      cases h
      exact ⟨[], [], by rw [hw]; rfl, by rw [hw]; rfl, by simp⟩
    · cases h
  | cons b s ih =>
    simp only [strstr] at h
    split at h
    · rename_i hw
      cases h
      obtain ⟨r, hr⟩ := List.isPrefixOf_iff_prefix.mp hw
      exact ⟨[], r, hr.symm, hr.symm, by simp⟩
    · rename_i hw
      obtain ⟨u, r, rfl, rfl, hfirst⟩ := ih h
      refine ⟨b :: u, r, rfl, rfl, fun u' r' hs => ?_⟩
      cases u' with
      | nil => exact absurd (List.isPrefixOf_iff_prefix.mpr ⟨r', hs.symm⟩) hw
      | cons c u' =>
        have := hfirst u' r' (List.cons.inj hs).2
        simpa using this

theorem strstr_none {s w : Str} : strstr s w = none ↔ ¬ w <:+: s := by
  induction s with
  | nil =>
    simp only [strstr, List.infix_nil]
    split <;> simp_all
  | cons b s ih =>
    simp only [strstr, List.infix_cons_iff, ← List.isPrefixOf_iff_prefix]
    split <;> simp_all

theorem skipSpaces_suffix (s : Str) : skipSpaces s <:+ s := List.dropWhile_suffix _

/-! ## Decimal numbers -/

/-- A digit stands for itself. -/
theorem ch_digit {c : Char} (h : c.isDigit = true) :
    (ch c).toNat = c.toNat ∧ isdigit (ch c) = true := by
  simp only [Char.isDigit, ge_iff_le, Bool.and_eq_true, decide_eq_true_eq] at h
  have h1 : 48 ≤ c.toNat := h.1
  have h2 : c.toNat ≤ 57 := h.2
  have hnat : (ch c).toNat = c.toNat := by
    simp only [ch, Nat.toUInt8_eq, UInt8.toNat_ofNat']
    omega
  refine ⟨hnat, ?_⟩
  simp only [isdigit, Bool.and_eq_true, decide_eq_true_eq, UInt8.le_iff_toNat_le, hnat]
  exact ⟨h1, h2⟩

theorem fmtNat_digits (n : Nat) : ∀ c ∈ fmtNat n, isdigit c = true := by
  intro c hc
  obtain ⟨x, hx, rfl⟩ := List.mem_map.mp hc
  exact (ch_digit (Nat.isDigit_of_mem_toDigits (by decide : 0 < 10) (by decide) hx)).2

theorem digitsVal_fmtNat (n : Nat) : digitsVal 0 (fmtNat n) = n := by
  rw [fmtNat, digitsVal, List.foldl_map]
  refine Eq.trans ?_ (Nat.ofDigitChars_ten_toDigits (n := n))
  rw [Nat.ofDigitChars]
  refine List.foldl_ext _ _ _ fun acc c hc => ?_
  have hdigit := Nat.isDigit_of_mem_toDigits (by decide : 0 < 10) (by decide) hc
  rw [(ch_digit hdigit).1]
  rfl

theorem fmtNat_injective : Function.Injective fmtNat :=
  Function.LeftInverse.injective digitsVal_fmtNat

set_option maxRecDepth 10000 in
theorem isspace_of_isdigit {c : Byte} (h : isdigit c = true) : isspace c = false :=
  byte_forall (P := fun c => isdigit c = true → isspace c = false) (by decide) c h

set_option maxRecDepth 10000 in
theorem sign_of_isdigit {c : Byte} (h : isdigit c = true) : c ≠ ch '-' ∧ c ≠ ch '+' :=
  byte_forall (P := fun c => isdigit c = true → c ≠ ch '-' ∧ c ≠ ch '+') (by decide) c h

/-- A number of digits only is read to its end. -/
theorem strtol_digits {s : Str} (hne : s ≠ []) (hs : ∀ c ∈ s, isdigit c = true) :
    strtol s = (min longMax (digitsVal 0 s), []) := by
  cases s with
  | nil => exact absurd rfl hne
  | cons c s =>
    have hc := hs c List.mem_cons_self
    obtain ⟨hminus, hplus⟩ := sign_of_isdigit hc
    have htake : (c :: s).takeWhile isdigit = c :: s := List.takeWhile_eq_self_iff.mpr hs
    have hdrop : (c :: s).dropWhile isdigit = [] := List.dropWhile_eq_nil_iff.mpr hs
    simp only [strtol, List.dropWhile_cons_of_neg (by simp [isspace_of_isdigit hc] : ¬ isspace c = true),
      List.head?_cons, Option.some.injEq, hminus, hplus, decide_false, Bool.or_self, Bool.false_eq_true, if_false,
      htake, hdrop, reduceCtorEq]

theorem fmtNat_ne_nil (n : Nat) : fmtNat n ≠ [] := by
  simp [fmtNat, Nat.toDigits_ne_nil]

theorem fmtNatDigits_digits (digits n : Nat) : ∀ c ∈ fmtNatDigits digits n, isdigit c = true := by
  intro c hc
  rcases List.mem_append.mp hc with hzero | hdigit
  · rw [List.eq_of_mem_replicate hzero]
    rfl
  · exact fmtNat_digits n c hdigit

theorem digitsVal_fmtNatDigits (digits n : Nat) : digitsVal 0 (fmtNatDigits digits n) = n := by
  have hzeros (k : Nat) : digitsVal 0 (List.replicate k (ch '0')) = 0 := by
    induction k with
    | zero => rfl
    | succ k ih => exact ih
  rw [fmtNatDigits, digitsVal, List.foldl_append]
  exact (congrArg (fun acc => digitsVal acc (fmtNat n)) (hzeros _)).trans (digitsVal_fmtNat n)

theorem fmtNatDigits_injective (digits : Nat) : Function.Injective (fmtNatDigits digits) :=
  Function.LeftInverse.injective (digitsVal_fmtNatDigits digits)

theorem fmtNatDigits_ne_nil (digits n : Nat) : fmtNatDigits digits n ≠ [] :=
  List.append_ne_nil_of_right_ne_nil _ (fmtNat_ne_nil n)

theorem fmtInt_ne_nil (x : Int) : fmtInt x ≠ [] := by
  unfold fmtInt
  split
  · exact List.cons_ne_nil _ _
  · exact fmtNat_ne_nil _

theorem fmtNatDigits_length_ge (digits n : Nat) : digits ≤ (fmtNatDigits digits n).length := by
  rw [fmtNatDigits, List.length_append, List.length_replicate]
  omega

theorem fmtNatDigits_length_le {digits n k : Nat} (hk : 0 < k) (hdigits : digits ≤ k) (hn : n < 10 ^ k) :
    (fmtNatDigits digits n).length ≤ k := by
  have hlength : (fmtNat n).length ≤ k := by
    rw [fmtNat, List.length_map]
    exact (Nat.length_toDigits_le_iff (by decide) hk).mpr hn
  rw [fmtNatDigits, List.length_append, List.length_replicate]
  omega

/-- The bytes of a number. -/
theorem fmtInt_bytes {x : Int} {c : Byte} (h : c ∈ fmtInt x) : isdigit c = true ∨ c = ch '-' := by
  unfold fmtInt at h
  split at h
  · exact (List.mem_cons.mp h).elim .inr fun h => .inl (fmtNat_digits _ c h)
  · exact .inl (fmtNat_digits _ c h)

/-- A number that fits a `long` is read as it is written. -/
theorem strtol_fmtInt {x : Int} (hmin : longMin ≤ x) (hmax : x ≤ longMax) : strtol (fmtInt x) = (x, []) := by
  have hdigits := fmtNat_digits x.natAbs
  have hne := fmtNat_ne_nil x.natAbs
  unfold fmtInt
  split
  · rename_i hneg
    have htake : (fmtNat x.natAbs).takeWhile isdigit = fmtNat x.natAbs := List.takeWhile_eq_self_iff.mpr hdigits
    have hdrop : (fmtNat x.natAbs).dropWhile isdigit = [] := List.dropWhile_eq_nil_iff.mpr hdigits
    have hsign : (ch '-' :: fmtNat x.natAbs).dropWhile isspace = ch '-' :: fmtNat x.natAbs :=
      List.dropWhile_cons_of_neg (by decide)
    simp only [strtol, hsign, List.head?_cons, decide_true, Bool.true_or, if_true, List.tail_cons, htake, hdrop,
      if_neg hne, digitsVal_fmtNat]
    exact Prod.ext (by omega) rfl
  · rw [strtol_digits hne hdigits, digitsVal_fmtNat]
    exact Prod.ext (by omega) rfl

/-- A number that is an `int`. -/
theorem toInt_of_range {x : Int} (h : -2147483648 ≤ x) (h' : x < 2147483648) : toInt x = x :=
  Int.bmod_eq_of_le (by omega) (by omega)

theorem toSizeT_natCast {n : Nat} (h : n < 18446744073709551616) : toSizeT n = n := by
  rw [toSizeT]
  omega

theorem mallocInt_of_fits {n : Nat} (h : n < 2147483648) : mallocInt n = some n := by
  rw [mallocInt, toInt_of_range (by omega) (by omega), if_neg (by omega), Int.toNat_natCast]

theorem toInt_lt (x : Int) : toInt x < 2147483648 := Int.bmod_lt (by decide)

theorem mallocInt_lt {size : Int} {n : Nat} (h : mallocInt size = some n) : n < 2147483648 := by
  have hlt := toInt_lt size
  rw [mallocInt] at h
  split at h
  · cases h
  · cases h
    omega

/-- A size that does not wrap around twice. -/
theorem mallocInt_some {size : Int} {n : Nat} (hpos : 0 ≤ size) (hlt : size < 4294967296)
    (h : mallocInt size = some n) : (n : Int) = size ∧ n < 2147483648 := by
  rw [mallocInt] at h
  split at h
  · cases h
  · cases h
    rw [toInt, Int.bmod] at *
    omega

/-! ## Spaces -/

theorem rdropWhile_space {text : Str} (h : text.getLast? ≠ some (ch ' ')) : text.rdropWhile (· = ch ' ') = text := by
  rw [List.rdropWhile_eq_self_iff]
  intro hne hlast
  refine h ?_
  rw [List.getLast?_eq_some_getLast hne]
  exact congrArg some (of_decide_eq_true hlast)

end Wirc

import Mathlib.Algebra.Order.BigOperators.Group.List
import Mathlib.Data.List.DropRight
import WhoreIrc.Spec.Util

/-!
# Dates that are normalised, and files that are read

After intervals, the microseconds of a date are those of the instant, or a whole
second when a sum came to it (`after_ok`). The loop on a file reads blocks of 1024
bytes and ends at a block that is short (`readLoop_eq`).
-/

namespace Wirc

/-! ## Dates -/

section

variable {tv tv1 tv2 : Timeval} {interval : Int} {intervals intervals1 intervals2 : List Int}

theorem toLong_range (x : Int) : longMin ≤ toLong x ∧ toLong x ≤ longMax := by
  rw [toLong, longMin, longMax, Int.bmod]
  omega

theorem toLong_of_range {x : Int} (h : longMin ≤ x) (h' : x ≤ longMax) : toLong x = x := by
  rw [longMin] at h
  rw [longMax] at h'
  exact Int.bmod_eq_of_le (by omega) (by omega)

theorem toLong_eq (x : Int) : ∃ k : Int, toLong x + k * 18446744073709551616 = x := by
  refine ⟨x.bdiv 18446744073709551616, ?_⟩
  exact Int.bmod_add_bdiv' x 18446744073709551616

/-- What an interval adds. -/
theorem timevalAdd_eq (husec : 0 ≤ tv.usec ∧ tv.usec ≤ 1000000) (h : 0 ≤ interval) :
    (longMin ≤ (utilTimevalAdd tv interval).sec ∧ (utilTimevalAdd tv interval).sec ≤ longMax) ∧
      ((utilTimevalAdd tv interval).usec =
        if tv.usec + interval % 1000000 ≤ 1000000 then tv.usec + interval % 1000000
        else tv.usec + interval % 1000000 - 1000000) ∧
      ∃ k : Int, (utilTimevalAdd tv interval).instant + k * (18446744073709551616 * 1000000) = tv.instant + interval := by
  have hrest : 0 ≤ interval % 1000000 ∧ interval % 1000000 < 1000000 := by omega
  have husec' : toLong (tv.usec + interval % 1000000) = tv.usec + interval % 1000000 :=
    toLong_of_range (by rw [longMin]; omega) (by rw [longMax]; omega)
  obtain ⟨k, hk⟩ := toLong_eq (tv.sec + interval / 1000000)
  rw [utilTimevalAdd, Int.tdiv_eq_ediv_of_nonneg h, Int.tmod_eq_emod_of_nonneg h, husec']
  by_cases hcarry : tv.usec + interval % 1000000 ≤ 1000000
  · rw [if_neg (by omega), if_pos hcarry]
    refine ⟨toLong_range _, rfl, k, ?_⟩
    rw [Timeval.instant, Timeval.instant]
    dsimp only
    omega
  · obtain ⟨k', hk'⟩ := toLong_eq (toLong (tv.sec + interval / 1000000) + 1)
    rw [if_pos (by omega), if_neg hcarry, Int.tmod_eq_emod_of_nonneg (by omega)]
    refine ⟨toLong_range _, by dsimp only; omega, k + k', ?_⟩
    rw [Timeval.instant, Timeval.instant]
    dsimp only
    omega

/-- A date after intervals: its microseconds are a whole second if the instant is on a
second and an interval is not. -/
structure AfterOk (start : Timeval) (intervals : List Int) (tv : Timeval) : Prop where
  sec : longMin ≤ tv.sec ∧ tv.sec ≤ longMax
  usec : 0 ≤ tv.usec ∧ tv.usec ≤ 1000000
  instant : ∃ k : Int, tv.instant + k * (18446744073709551616 * 1000000) = start.instant + intervals.sum
  whole : tv.usec = 1000000 ↔
    (start.instant + intervals.sum) % 1000000 = 0 ∧ ∃ interval ∈ intervals, interval % 1000000 ≠ 0

theorem after_ok (hstart : tv.Normalised) (h : ∀ interval ∈ intervals, 0 ≤ interval) :
    AfterOk tv intervals (tv.after intervals) := by
  induction intervals using List.reverseRecOn with
  | nil =>
    have husec := hstart.usec
    refine ⟨hstart.sec, ⟨husec.1, by rw [Timeval.after, List.foldl_nil]; omega⟩, ⟨0, ?_⟩, ?_⟩
    · rw [Timeval.after, List.foldl_nil, List.sum_nil, Int.zero_mul]
    · rw [Timeval.after, List.foldl_nil]
      refine iff_of_false (by omega) ?_
      rintro ⟨-, interval, hmem, -⟩
      cases hmem
  | append_singleton intervals interval ih =>
    have hinterval := h interval (List.mem_append_right _ (List.mem_singleton_self _))
    obtain ⟨hsec, husec, ⟨k, hk⟩, hwhole⟩ := ih fun x hx => h x (List.mem_append_left _ hx)
    obtain ⟨hsec', husec', k', hk'⟩ := timevalAdd_eq husec hinterval
    have hafter : tv.after (intervals ++ [interval]) = utilTimevalAdd (tv.after intervals) interval := by
      rw [Timeval.after, List.foldl_append]
      rfl
    have hsum : (intervals ++ [interval]).sum = intervals.sum + interval := by
      rw [List.sum_append, List.sum_singleton]
    have hexists : (∃ x ∈ intervals ++ [interval], x % 1000000 ≠ 0) ↔
        (∃ x ∈ intervals, x % 1000000 ≠ 0) ∨ interval % 1000000 ≠ 0 := by
      simp only [List.mem_append, List.mem_singleton, or_and_right, exists_or, exists_eq_left]
    rw [hafter]
    refine ⟨hsec', ?_, ⟨k + k', by rw [hsum]; omega⟩, ?_⟩
    · rw [husec']
      split <;> omega
    · rw [husec', hsum, hexists]
      rw [Timeval.instant] at hk
      by_cases hnot : ∃ x ∈ intervals, x % 1000000 ≠ 0
      · have hfull : (tv.after intervals).usec = 1000000 ↔ (tv.instant + intervals.sum) % 1000000 = 0 :=
          hwhole.trans (and_iff_left hnot)
        rw [and_iff_left (Or.inl hnot)]
        split <;> omega
      · have hfull : (tv.after intervals).usec ≠ 1000000 := fun h => hnot (hwhole.mp h).2
        have hiff : ((∃ x ∈ intervals, x % 1000000 ≠ 0) ∨ interval % 1000000 ≠ 0) ↔ interval % 1000000 ≠ 0 :=
          or_iff_right hnot
        rw [hiff]
        split <;> omega

/-- One date after intervals is right if and only if they fit. -/
theorem after_iff (hstart : tv.Normalised) (h : ∀ interval ∈ intervals, 0 ≤ interval) :
    (tv.after intervals).Normalised ∧ (tv.after intervals).instant = tv.instant + intervals.sum ↔
      TimevalFits tv intervals := by
  obtain ⟨hsec, husec, ⟨k, hk⟩, hwhole⟩ := after_ok hstart h
  have hsum := List.sum_nonneg h
  have hexists : (∃ interval ∈ intervals, interval % 1000000 ≠ 0) ↔ ¬∀ interval ∈ intervals, interval % 1000000 = 0 := by
    simp only [not_forall, exists_prop, ne_eq]
  rw [hexists] at hwhole
  constructor
  · rintro ⟨hnormalised, hinstant⟩
    have husec' := hnormalised.usec
    refine ⟨?_, ?_⟩
    · rw [← hinstant, Timeval.instant]
      omega
    · by_contra hsecond
      rw [not_or, not_not] at hsecond
      have := hwhole.mpr ⟨hsecond.2, hsecond.1⟩
      omega
  · rintro ⟨hrange, hsecond⟩
    have hless : (tv.after intervals).usec ≠ 1000000 := fun hfull =>
      hsecond.elim (hwhole.mp hfull).2 fun hne => hne (hwhole.mp hfull).1
    have hstartSec := hstart.sec
    have hstartUsec := hstart.usec
    refine ⟨⟨hsec, husec.1, by omega⟩, ?_⟩
    rw [Timeval.instant] at hk hrange ⊢
    rw [Timeval.instant] at hk ⊢
    rw [longMin, longMax] at *
    omega

theorem cmp_eq (h1 : tv1.Normalised) (h2 : tv2.Normalised) :
    utilTimevalCmp (some tv1) (some tv2) = (tv1.instant - tv2.instant).sign := by
  have husec1 := h1.usec
  have husec2 := h2.usec
  rw [utilTimevalCmp, Timeval.instant, Timeval.instant]
  rcases lt_trichotomy (tv1.sec * 1000000 + tv1.usec - (tv2.sec * 1000000 + tv2.usec)) 0 with hlt | heq | hgt
  · rw [Int.sign_eq_neg_one_of_neg hlt]
    split
    · rfl
    · rw [if_neg (by omega), if_pos (by omega)]
  · rw [heq, if_neg (by omega), if_neg (by omega), if_neg (by omega), if_neg (by omega)]
    rfl
  · rw [Int.sign_eq_one_of_pos hgt, if_neg (by omega)]
    split
    · rfl
    · rw [if_neg (by omega), if_pos (by omega)]

/-- Dates to which intervals are added are normalised, right and ordered if and only if
the seconds have 64 bits and neither end is on a second, unless all intervals are. -/
theorem timeval_add_iff (hstart1 : tv1.Normalised) (hstart2 : tv2.Normalised)
    (h1 : ∀ interval ∈ intervals1, 0 ≤ interval) (h2 : ∀ interval ∈ intervals2, 0 ≤ interval) :
    TimevalsRight tv1 tv2 intervals1 intervals2 ↔ TimevalFits tv1 intervals1 ∧ TimevalFits tv2 intervals2 := by
  rw [← after_iff hstart1 h1, ← after_iff hstart2 h2]
  constructor
  · exact fun hright => ⟨⟨hright.normalised1, hright.instant1⟩, hright.normalised2, hright.instant2⟩
  · rintro ⟨⟨hnormalised1, hinstant1⟩, hnormalised2, hinstant2⟩
    exact ⟨hnormalised1, hnormalised2, hinstant1, hinstant2, by
      rw [cmp_eq hnormalised1 hnormalised2, hinstant1, hinstant2]⟩

end

theorem timeval_add_iff_carry : TimevalsRight ⟨5, 999999⟩ ⟨6, 0⟩ [500000, 1500000] [1000000] :=
  (timeval_add_iff ⟨by decide, by decide⟩ ⟨by decide, by decide⟩ (by decide) (by decide)).mpr
    ⟨⟨by decide, by decide⟩, ⟨by decide, by decide⟩⟩

/-- Half a second is added to half a second. -/
theorem timeval_add_fails :
    utilTimevalAdd ⟨1, 500000⟩ 500000 = ⟨1, 1000000⟩ ∧ ¬TimevalsRight ⟨1, 500000⟩ ⟨2, 0⟩ [500000] [] := by
  have hafter : utilTimevalAdd ⟨1, 500000⟩ 500000 = ⟨1, 1000000⟩ := by decide
  refine ⟨hafter, fun hright => ?_⟩
  have husec := hright.normalised1.usec
  rw [Timeval.after, List.foldl_cons, List.foldl_nil, hafter] at husec
  exact absurd husec.2 (by decide)

/-! ## The content of a file -/

section

variable {realloc : Nat → Bool} {rest buffer : List Byte}

theorem readLoop_eof (rest buffer : List Byte) : utilFileReadLoop realloc buffer ⟨rest, true⟩ = .ok buffer := by
  rw [utilFileReadLoop, if_pos rfl]

/-- A round of the loop. -/
theorem readLoop_next (rest buffer : List Byte) :
    utilFileReadLoop realloc buffer ⟨rest, false⟩ =
      if buffer.length > sizeMax - 1024 then .error .realloc
      else if !realloc (buffer.length + 1024) then .error .realloc
      else if rest = [] then .error .fread
      else utilFileReadLoop realloc (buffer ++ rest.take 1024) ⟨rest.drop 1024, rest.length < 1024⟩ := by
  have hcount : (freadBytes 1024 ⟨rest, false⟩).1.length = 0 ↔ rest = [] := by
    rw [freadBytes, List.length_eq_zero_iff, List.take_eq_nil_iff]
    exact or_iff_right (by decide)
  rw [utilFileReadLoop, if_neg Bool.false_ne_true]
  simp only [hcount, dite_eq_ite]
  rfl

/-- The loop ends with all of the file, if its last block is short. -/
theorem readLoop_right (h : rest.length % 1024 ≠ 0 ∨ sizeMax - 1024 < buffer.length + rest.length) :
    utilFileReadLoop realloc buffer ⟨rest, false⟩ = .ok (buffer ++ rest) ∨
      utilFileReadLoop realloc buffer ⟨rest, false⟩ = .error .realloc := by
  induction hn : rest.length using Nat.strongRecOn generalizing rest buffer with | ind n ih => ?_
  rw [readLoop_next]
  split
  · exact .inr rfl
  · split
    · exact .inr rfl
    · rw [if_neg (by rintro rfl; rw [List.length_nil] at h; omega)]
      by_cases hshort : rest.length < 1024
      · rw [decide_eq_true hshort, readLoop_eof, List.take_of_length_le (by omega)]
        exact .inl rfl
      · rw [decide_eq_false hshort]
        have hnext := @ih (rest.drop 1024).length (by rw [List.length_drop]; omega) (rest.drop 1024)
          (buffer ++ rest.take 1024)
          (by rw [List.length_append, List.length_take, List.length_drop]; omega) rfl
        rwa [List.append_assoc, List.take_append_drop] at hnext

/-- The loop ends with an error, if the last block is not short. -/
theorem readLoop_whole (hrealloc : ∀ size, realloc size = true) (h : rest.length % 1024 = 0)
    (hsize : buffer.length + rest.length ≤ sizeMax - 1024) :
    utilFileReadLoop realloc buffer ⟨rest, false⟩ = .error .fread := by
  induction hn : rest.length using Nat.strongRecOn generalizing rest buffer with | ind n ih => ?_
  rw [readLoop_next, if_neg (by omega), hrealloc, if_neg (by decide)]
  split
  · rfl
  · rename_i hne
    have := List.length_pos_of_ne_nil hne
    rw [decide_eq_false (by omega)]
    exact ih (rest.drop 1024).length (by rw [List.length_drop]; omega) (by rw [List.length_drop]; omega)
      (by rw [List.length_append, List.length_take, List.length_drop]; omega) rfl

end

/-- The content of a file is returned if and only if its length is not a multiple of 1024,
or is too large for a `size_t`. -/
theorem utilFileGetContent_iff (content : List Byte) :
    FileRight content ↔ content.length % 1024 ≠ 0 ∨ sizeMax - 1024 < content.length := by
  constructor
  · intro hright
    by_contra h
    rw [not_or, not_not] at h
    have hloop : utilFileReadLoop (fun _ => true) [] ⟨content, false⟩ = .error .fread :=
      readLoop_whole (fun _ => rfl) h.1 (by rw [List.length_nil]; omega)
    have hget : utilFileGetContent (fun _ => true) (some content) = .error .fread := by
      rw [utilFileGetContent, hloop]
    rcases hright fun _ => true with hok | herror
    · rw [hget] at hok
      cases hok
    · rw [hget] at herror
      cases herror
  · intro h realloc
    rw [utilFileGetContent]
    rcases @readLoop_right realloc content [] (by rwa [List.length_nil, Nat.zero_add]) with hok | herror
    · rw [hok]
      dsimp only
      split
      · exact .inr rfl
      · split
        · exact .inr rfl
        · exact .inl rfl
    · rw [herror]
      exact .inr rfl

/-- An empty file. -/
theorem utilFileGetContent_fails : utilFileGetContent (fun _ => true) (some []) = .error .fread ∧ ¬FileRight [] := by
  have hget : utilFileGetContent (fun _ => true) (some []) = .error .fread := by
    rw [utilFileGetContent, readLoop_whole (fun _ => rfl) rfl (by decide)]
  refine ⟨hget, fun hright => ?_⟩
  rcases hright fun _ => true with hok | herror
  · rw [hget] at hok
    cases hok
  · rw [hget] at herror
    cases herror

end Wirc

import WhoreIrc.Framework.Runs
import WhoreIrc.Impl.StringSplit
import WhoreIrc.Proof.CString

/-!
# Splitting strings: the items are runs

With separators stripped on the left and collapsed, `string_split` gives the
maximal runs of other bytes (`stringSplit_runs`).
-/

namespace Wirc

open Framework

variable {separators : Str}

theorem strpbrk_eq (s separators : Str) :
    strpbrk s separators =
      if s.dropWhile (fun c => !isIn separators c) = [] then none
      else some (s.dropWhile fun c => !isIn separators c) := by
  induction s with
  | nil => rfl
  | cons b s ih =>
    rw [strpbrk]
    by_cases hb : b ∈ separators
    · rw [if_pos hb, List.dropWhile_cons_of_neg (by simpa [isIn] using hb), if_neg (List.cons_ne_nil _ _)]
    · rw [if_neg hb, List.dropWhile_cons_of_pos (by simpa [isIn] using hb), ih]

theorem isIn_head_dropWhile {s t : Str} {b : Byte} (h : s.dropWhile (fun c => !isIn separators c) = b :: t) :
    isIn separators b = true := by
  have := List.head?_dropWhile_not (fun c => !isIn separators c) s
  rw [h] at this
  simpa using this

theorem not_isIn_head_dropWhile {s t : Str} {b : Byte} (h : s.dropWhile (isIn separators) = b :: t) :
    isIn separators b = false := by
  have := List.head?_dropWhile_not (isIn separators) s
  rw [h] at this
  simpa using this

/-- The items counted are the runs after the first one. -/
theorem splitCountItems_collapse (ptr : Str) (i : Nat) :
    splitCountItems separators true ptr i =
      i + (runs (isIn separators) (ptr.dropWhile fun c => !isIn separators c)).length := by
  rw [splitCountItems]
  have heq := strpbrk_eq ptr separators
  split
  · rename_i hnone
    rw [hnone] at heq
    split at heq
    · rename_i hnil
      rw [hnil, runs_nil]
      rfl
    · cases heq
  · rename_i hsome
    have := (strpbrk_length hsome).1
    exact absurd this (Nat.lt_irrefl 0)
  · rename_i b rest hsome
    rw [hsome] at heq
    split at heq
    · cases heq
    · have hdrop := (Option.some.inj heq).symm
      have hlen := (strpbrk_length hsome).2
      have hlt : (rest.dropWhile (isIn separators)).length < ptr.length := by
        have := (List.dropWhile_suffix (l := rest) (isIn separators)).length_le
        rw [List.length_cons] at hlen
        omega
      rw [if_pos rfl, splitCountItems_collapse (rest.dropWhile (isIn separators)), hdrop,
        runs_cons_sep rest (isIn_head_dropWhile hdrop), ← runs_dropWhile rest]
      cases hrest : rest.dropWhile (isIn separators) with
      | nil => simp
      | cons c t =>
        rw [runs_head (not_isIn_head_dropWhile hrest), List.length_cons]
        simp only [ne_eq, reduceCtorEq, not_false_eq_true, if_true]
        omega
termination_by ptr.length
decreasing_by exact hlt

/-- The end of an item is the end of a run, when the last item is at the end. -/
theorem splitItemEnd_eq (ptr1 : Str) {last : Bool}
    (hlast : ptr1.dropWhile (fun c => !isIn separators c) = [] → last = true) :
    splitItemEnd separators ptr1 last = ptr1.dropWhile fun c => !isIn separators c := by
  rw [splitItemEnd, strpbrk_eq]
  by_cases h : ptr1.dropWhile (fun c => !isIn separators c) = []
  · rw [if_pos h, h, hlast h]
    rfl
  · rw [if_neg h]

theorem splitItems_collapse (stripLeft stripRight : Bool) (n : Nat) (ptr1 : Str)
    (hn : n = (runs (isIn separators) ptr1).length) :
    splitItems separators none ⟨stripLeft, stripRight, true, false⟩ n ptr1 = runs (isIn separators) ptr1 := by
  induction n generalizing ptr1 with
  | zero => exact (List.length_eq_zero_iff.mp hn.symm).symm
  | succ n ih =>
    rw [← runs_dropWhile] at hn ⊢
    cases hdrop : ptr1.dropWhile (isIn separators) with
    | nil =>
      rw [hdrop, runs_nil] at hn
      cases hn
    | cons c s =>
      have hc := not_isIn_head_dropWhile hdrop
      rw [hdrop, runs_head hc, List.length_cons] at hn
      have hend := @splitItemEnd_eq separators (c :: s) (decide (n = 0)) fun h => by
        rw [h, runs_nil] at hn
        simpa using hn
      have htake := List.takeWhile_append_dropWhile (p := fun x => !isIn separators x) (l := c :: s)
      have hpos : 0 < ((c :: s).takeWhile fun x => !isIn separators x).length := by
        rw [List.takeWhile_cons_of_pos (by simp [hc])]
        exact Nat.succ_pos _
      have hlen := congrArg List.length htake
      rw [List.length_append] at hlen
      rw [runs_head hc, splitItems]
      simp only [if_true, hdrop, hend]
      rw [if_pos (by omega)]
      simp only [Bool.false_eq_true, if_false, Bool.not_true, Bool.false_and, splitStripItem, strndup]
      have hitem := take_off_append ((c :: s).takeWhile fun x => !isIn separators x)
        ((c :: s).dropWhile fun x => !isIn separators x)
      rw [htake] at hitem
      rw [hitem, ih _ (Nat.succ.inj hn)]

/-- With the end of the line kept, an item is all that follows the beginning of
a run. -/
theorem splitItems_keepEol (stripLeft stripRight : Bool) (n : Nat) (ptr1 : Str)
    (hn : n = (runTails (isIn separators) true ptr1).length) :
    splitItems separators none ⟨stripLeft, stripRight, true, true⟩ n ptr1 = runTails (isIn separators) true ptr1 := by
  induction n generalizing ptr1 with
  | zero => exact (List.length_eq_zero_iff.mp hn.symm).symm
  | succ n ih =>
    rw [← runTails_dropWhile] at hn ⊢
    cases hdrop : ptr1.dropWhile (isIn separators) with
    | nil =>
      rw [hdrop, runTails] at hn
      cases hn
    | cons c s =>
      have hc := not_isIn_head_dropWhile hdrop
      rw [hdrop, runTails_head hc, List.length_cons] at hn
      have hend := @splitItemEnd_eq separators (c :: s) (decide (n = 0)) fun h => by
        rw [h, runTails] at hn
        simpa using hn
      have hlt : ((c :: s).dropWhile fun x => !isIn separators x).length < (c :: s).length := by
        have := (List.dropWhile_suffix (l := s) fun x => !isIn separators x).length_le
        rw [List.dropWhile_cons_of_pos (by simp [hc]), List.length_cons]
        omega
      rw [runTails_head hc, splitItems]
      simp only [if_true, hdrop, hend]
      rw [if_pos hlt]
      simp only [Bool.not_true, Bool.false_and, Bool.false_eq_true, if_false, splitStripItem]
      rw [ih _ (Nat.succ.inj hn)]

/-- A string stripped on the left has the same runs, and begins with one. -/
theorem stringStrip_runs (string : Str) (stripRight : Bool) :
    runs (isIn separators) (stringStrip string true stripRight separators) = runs (isIn separators) string ∧
      ∀ b t, stringStrip string true stripRight separators = b :: t → isIn separators b = false := by
  rw [stringStrip]
  split
  · rename_i hnil
    rw [hnil]
    exact ⟨rfl, nofun⟩
  · cases stripRight with
    | false =>
      simp only [if_true, Bool.false_eq_true, if_false]
      exact ⟨runs_dropWhile string, fun b t h => not_isIn_head_dropWhile h⟩
    | true =>
      simp only [if_true]
      refine ⟨by rw [runs_rdropWhile, runs_dropWhile], fun b t h => ?_⟩
      obtain ⟨u, hu⟩ := List.rdropWhile_prefix (isIn separators) (string.dropWhile (isIn separators))
      rw [h, List.cons_append] at hu
      exact not_isIn_head_dropWhile hu.symm

/-- With separators stripped on the left and collapsed, the items are the
maximal runs of other bytes. -/
theorem stringSplit_runs (string : Str) {separators : Str} (hsep : separators ≠ []) (stripRight : Bool) :
    stringSplit string separators none ⟨true, stripRight, true, false⟩ 0 =
      if runs (isIn separators) string = [] then none else some (runs (isIn separators) string) := by
  obtain ⟨hruns, hhead⟩ := @stringStrip_runs separators string stripRight
  rw [stringSplit]
  by_cases hnil : string = []
  · rw [if_pos (.inl hnil), hnil, runs_nil, if_pos rfl]
  · rw [if_neg (by simp [hnil, hsep])]
    rw [← hruns]
    cases hstrip : stringStrip string true stripRight separators with
    | nil => rw [runs_nil, if_pos rfl, if_pos rfl]
    | cons b t =>
      have hb := hhead b t hstrip
      have hcount : splitCountItems separators true (b :: t) 1 = (runs (isIn separators) (b :: t)).length := by
        rw [splitCountItems_collapse, runs_head hb, List.length_cons, Nat.add_comm]
      rw [if_neg (List.cons_ne_nil _ _), if_neg (by rw [runs_head hb]; exact List.cons_ne_nil _ _)]
      simp only [ne_eq, not_true_eq_false, false_and, if_false, hcount]
      rw [splitItems_collapse true stripRight _ _ rfl]

/-- Only stripped on the left, the string has the tails of the whole string. -/
theorem stringStrip_runTails (string : Str) :
    runTails (isIn separators) true (stringStrip string true false separators) =
      runTails (isIn separators) true string := by
  rw [stringStrip]
  split
  · next hnil => rw [hnil]
  · simp only [if_true, Bool.false_eq_true, if_false]
    exact runTails_dropWhile string

/-- With the end of the line kept, the items are the tails that start with a
run. -/
theorem stringSplit_runTails (string : Str) {separators : Str} (hsep : separators ≠ []) :
    stringSplit string separators none ⟨true, false, true, true⟩ 0 =
      if runs (isIn separators) string = [] then none else some (runTails (isIn separators) true string) := by
  obtain ⟨hruns, hhead⟩ := @stringStrip_runs separators string false
  have htails := @stringStrip_runTails separators string
  rw [stringSplit]
  by_cases hnil : string = []
  · rw [if_pos (.inl hnil), hnil, runs_nil, if_pos rfl]
  · rw [if_neg (by simp [hnil, hsep])]
    rw [← hruns, ← htails]
    cases hstrip : stringStrip string true false separators with
    | nil => rw [runs_nil, if_pos rfl, if_pos rfl]
    | cons b t =>
      have hb := hhead b t hstrip
      have hcount : splitCountItems separators true (b :: t) 1 =
          (runTails (isIn separators) true (b :: t)).length := by
        have hlen := congrArg List.length (@runs_eq_map_runTails Byte (isIn separators) (b :: t))
        rw [List.length_map] at hlen
        rw [splitCountItems_collapse, ← hlen, runs_head hb, List.length_cons, Nat.add_comm]
      rw [if_neg (List.cons_ne_nil _ _), if_neg (by rw [runs_head hb]; exact List.cons_ne_nil _ _)]
      simp only [ne_eq, not_true_eq_false, false_and, if_false, hcount]
      rw [splitItems_keepEol true false _ _ rfl]

/-- `argv` and `argv_eol`: the maximal runs of the string, and the tails of the
string that start with them. -/
theorem stringSplit_argv_eol (string : Str) :
    stringSplit string (lit " ") none ⟨true, true, true, false⟩ 0 =
        (if runs (isIn (lit " ")) string = [] then none else some (runs (isIn (lit " ")) string)) ∧
      stringSplit string (lit " ") none ⟨true, false, true, true⟩ 0 =
        (if runs (isIn (lit " ")) string = [] then none else some (runTails (isIn (lit " ")) true string)) ∧
      runs (isIn (lit " ")) string =
        (runTails (isIn (lit " ")) true string).map (fun t => t.takeWhile fun c => !isIn (lit " ") c) ∧
      ∀ t ∈ runTails (isIn (lit " ")) true string, t <:+ string :=
  ⟨stringSplit_runs string (by decide) true, stringSplit_runTails string (by decide), runs_eq_map_runTails string,
    fun _ ht => runTails_suffix ht⟩

end Wirc

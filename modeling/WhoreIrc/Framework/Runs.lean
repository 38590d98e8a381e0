import Mathlib.Data.List.DropRight

/-!
# Maximal runs

The maximal runs of a list between separators, in their order. Any number of
separators may stand before, between and after them.
-/

namespace Wirc.Framework

variable {α : Type*} {sep : α → Bool}

/-- The maximal runs of elements that are not separators. -/
def runs (sep : α → Bool) (s : List α) : List (List α) := (s.splitOnP sep).filter fun w => !w.isEmpty

@[simp] theorem runs_nil : runs sep [] = [] := by simp [runs, List.splitOnP_nil]

theorem runs_append_cons (s t : List α) {c : α} (hc : sep c = true) :
    runs sep (s ++ c :: t) = runs sep s ++ runs sep t := by
  rw [runs, List.splitOnP_append_cons s t hc, List.filter_append, runs, runs]

theorem runs_cons_sep (s : List α) {c : α} (hc : sep c = true) : runs sep (c :: s) = runs sep s := by
  have := runs_append_cons [] s hc
  rwa [List.nil_append, runs_nil, List.nil_append] at this

theorem runs_append_sep (s : List α) {c : α} (hc : sep c = true) : runs sep (s ++ [c]) = runs sep s := by
  rw [runs_append_cons s [] hc, runs_nil, List.append_nil]

/-- A list without separators is one run. -/
theorem runs_word {w : List α} (hne : w ≠ []) (hw : ∀ c ∈ w, sep c = false) : runs sep w = [w] := by
  rw [runs, List.splitOnP_eq_singleton hw]
  exact List.filter_cons_of_pos (by simp [hne])

theorem runs_dropWhile (s : List α) : runs sep (s.dropWhile sep) = runs sep s := by
  induction s with
  | nil => rfl
  | cons c s ih =>
    by_cases hc : sep c = true
    · rw [List.dropWhile_cons_of_pos hc, ih, runs_cons_sep s hc]
    · rw [List.dropWhile_cons_of_neg hc]

/-- The first run ends at the end of the list or at a separator. -/
theorem runs_word_append {w s : List α} (hne : w ≠ []) (hw : ∀ c ∈ w, sep c = false)
    (hs : ∀ c, s.head? = some c → sep c = true) : runs sep (w ++ s) = w :: runs sep s := by
  cases s with
  | nil => rw [List.append_nil, runs_word hne hw, runs_nil]
  | cons c s =>
    have hc := hs c rfl
    rw [runs_append_cons w s hc, runs_word hne hw, runs_cons_sep s hc, List.singleton_append]

/-- A list that does not begin with a separator begins with its first run. -/
theorem runs_head {c : α} {s : List α} (hc : sep c = false) :
    runs sep (c :: s) = (c :: s).takeWhile (fun x => !sep x) :: runs sep ((c :: s).dropWhile fun x => !sep x) := by
  have hne : (c :: s).takeWhile (fun x => !sep x) ≠ [] := by
    rw [List.takeWhile_cons_of_pos (by simp [hc])]
    exact List.cons_ne_nil _ _
  have hw : ∀ x ∈ (c :: s).takeWhile (fun x => !sep x), sep x = false := fun x hx => by
    simpa using List.mem_takeWhile_imp hx
  have hs : ∀ x, ((c :: s).dropWhile fun x => !sep x).head? = some x → sep x = true := fun x hx => by
    have := List.head?_dropWhile_not (fun x => !sep x) (c :: s)
    rw [hx] at this
    simpa using this
  rw [← runs_word_append hne hw hs, List.takeWhile_append_dropWhile]

/-- Separators at the end stand after the last run. -/
theorem runs_rdropWhile (s : List α) : runs sep (s.rdropWhile sep) = runs sep s := by
  induction s using List.reverseRecOn with
  | nil => rfl
  | append_singleton s c ih =>
    by_cases hc : sep c = true
    · rw [List.rdropWhile_concat_pos _ _ _ hc, ih, runs_append_sep s hc]
    · rw [List.rdropWhile_concat_neg _ _ _ hc]

/-! ## Where runs start -/

/-- The tails of a list that start where a run starts: at an element that is not
a separator and stands first or after a separator. -/
def runTails (sep : α → Bool) : (afterSep : Bool) → List α → List (List α)
  | _, [] => []
  | afterSep, c :: s =>
    if sep c then runTails sep true s
    else if afterSep then (c :: s) :: runTails sep false s
    else runTails sep false s

theorem runTails_cons (afterSep : Bool) (c : α) (s : List α) :
    runTails sep afterSep (c :: s) =
      if sep c then runTails sep true s
      else if afterSep then (c :: s) :: runTails sep false s
      else runTails sep false s := rfl

theorem runTails_length_le (afterSep : Bool) (s : List α) : (runTails sep afterSep s).length ≤ s.length := by
  induction s generalizing afterSep with
  | nil => exact Nat.le_refl _
  | cons c s ih =>
    have h1 := ih true
    have h2 := ih false
    rw [runTails_cons]
    split
    · exact Nat.le_succ_of_le h1
    · split
      · exact Nat.succ_le_succ h2
      · exact Nat.le_succ_of_le h2

theorem runTails_suffix {afterSep : Bool} {s t : List α} (h : t ∈ runTails sep afterSep s) : t <:+ s := by
  induction s generalizing afterSep with
  | nil => cases h
  | cons c s ih =>
    rw [runTails_cons] at h
    split at h
    · exact (ih h).trans (List.suffix_cons c s)
    · split at h
      · rcases List.mem_cons.mp h with rfl | h
        · exact List.suffix_rfl
        · exact (ih h).trans (List.suffix_cons c s)
      · exact (ih h).trans (List.suffix_cons c s)

theorem runTails_dropWhile (s : List α) : runTails sep true (s.dropWhile sep) = runTails sep true s := by
  induction s with
  | nil => rfl
  | cons c s ih =>
    by_cases hc : sep c = true
    · rw [List.dropWhile_cons_of_pos hc, ih, runTails_cons, if_pos hc]
    · rw [List.dropWhile_cons_of_neg hc]

/-- No run starts inside a run. -/
theorem runTails_rest (s : List α) :
    runTails sep false s = runTails sep true (s.dropWhile fun x => !sep x) := by
  induction s with
  | nil => rfl
  | cons c s ih =>
    by_cases hc : sep c = true
    · rw [List.dropWhile_cons_of_neg (by simp [hc]), runTails_cons, runTails_cons, if_pos hc, if_pos hc]
    · rw [List.dropWhile_cons_of_pos (by simp [hc]), runTails_cons, if_neg hc, if_neg Bool.false_ne_true, ih]

theorem runTails_head {c : α} {s : List α} (hc : sep c = false) :
    runTails sep true (c :: s) = (c :: s) :: runTails sep true ((c :: s).dropWhile fun x => !sep x) := by
  rw [runTails_cons, if_neg (by simp [hc]), if_pos rfl, List.dropWhile_cons_of_pos (by simp [hc]), runTails_rest]

/-- Each run begins the tail that starts with it. -/
theorem runs_eq_map_runTails (s : List α) :
    runs sep s = (runTails sep true s).map fun t => t.takeWhile fun x => !sep x := by
  rw [← runs_dropWhile, ← runTails_dropWhile]
  cases hdrop : s.dropWhile sep with
  | nil => rw [runs_nil]; rfl
  | cons c t =>
    have hc : sep c = false := by
      have := List.head?_dropWhile_not sep s
      rw [hdrop] at this
      simpa using this
    have hlt : ((c :: t).dropWhile fun x => !sep x).length < s.length := by
      have h1 := (List.dropWhile_suffix (l := s) sep).length_le
      have h2 := (List.dropWhile_suffix (l := t) fun x => !sep x).length_le
      rw [hdrop, List.length_cons] at h1
      rw [List.dropWhile_cons_of_pos (by simp [hc])]
      omega
    rw [runs_head hc, runTails_head hc, List.map_cons, runs_eq_map_runTails ((c :: t).dropWhile fun x => !sep x)]
termination_by s.length
decreasing_by exact hlt

theorem runs_length_le (s : List α) : (runs sep s).length ≤ s.length := by
  rw [runs_eq_map_runTails, List.length_map]
  exact runTails_length_le true s

/-- A run is not empty and has no separator. -/
theorem runs_forall {s w : List α} (hw : w ∈ runs sep s) : w ≠ [] ∧ ∀ c ∈ w, sep c = false := by
  constructor
  · rintro rfl
    exact absurd (List.mem_filter.mp hw).2 Bool.false_ne_true
  · rw [runs_eq_map_runTails] at hw
    obtain ⟨t, -, rfl⟩ := List.mem_map.mp hw
    exact fun c hc => by simpa using List.mem_takeWhile_imp hc

theorem runs_infix {s w : List α} (hw : w ∈ runs sep s) : w <:+: s := by
  rw [runs_eq_map_runTails] at hw
  obtain ⟨t, ht, rfl⟩ := List.mem_map.mp hw
  exact (List.takeWhile_prefix _).isInfix.trans (runTails_suffix ht).isInfix

theorem intercalate_concat (between word : List α) {words : List (List α)} (h : words ≠ []) :
    List.intercalate between (words ++ [word]) = List.intercalate between words ++ (between ++ word) := by
  induction words with
  | nil => exact absurd rfl h
  | cons first words ih =>
    cases words with
    | nil => rw [List.singleton_append, List.intercalate_cons_cons, List.intercalate_singleton, List.intercalate_singleton,
        List.append_assoc]
    | cons second words =>
      rw [List.cons_append, List.cons_append, List.intercalate_cons_cons, ← List.cons_append, ih (List.cons_ne_nil _ _),
        List.intercalate_cons_cons]
      simp only [List.append_assoc]

theorem intercalate_prefix (between : List α) (words words' : List (List α)) :
    List.intercalate between words <+: List.intercalate between (words ++ words') := by
  induction words' generalizing words with
  | nil => exact ⟨[], by rw [List.append_nil, List.append_nil]⟩
  | cons word words' ih =>
    have hnext : List.intercalate between words <+: List.intercalate between (words ++ [word]) := by
      rcases eq_or_ne words [] with rfl | h
      · exact List.nil_prefix
      · rw [intercalate_concat between word h]
        exact List.prefix_append ..
    have hrest := ih (words ++ [word])
    rw [List.append_assoc, List.singleton_append] at hrest
    exact hnext.trans hrest

theorem mem_intercalate {c : α} {between : List α} {items : List (List α)} (hc : c ∈ between.intercalate items) :
    c ∈ between ∨ ∃ item ∈ items, c ∈ item := by
  induction items with
  | nil => cases hc
  | cons item items ih =>
    cases items with
    | nil =>
      rw [List.intercalate_singleton] at hc
      exact .inr ⟨item, List.mem_cons_self, hc⟩
    | cons next items =>
      rw [List.intercalate_cons_cons, List.mem_append, List.mem_append] at hc
      rcases hc with (hc | hc) | hc
      · exact .inr ⟨item, List.mem_cons_self, hc⟩
      · exact .inl hc
      · rcases ih hc with hc | ⟨item', hitem', hc⟩
        · exact .inl hc
        · exact .inr ⟨item', List.mem_cons_of_mem _ hitem', hc⟩

/-- Words joined with separators are read back. -/
theorem runs_intercalate {c : α} (hc : sep c = true) {words : List (List α)}
    (hwords : ∀ w ∈ words, w ≠ [] ∧ ∀ c ∈ w, sep c = false) : runs sep (List.intercalate [c] words) = words := by
  induction words with
  | nil => exact runs_nil
  | cons w words ih =>
    obtain ⟨hne, hw⟩ := hwords w (List.mem_cons_self ..)
    have hrest := ih fun w hw => hwords w (List.mem_cons_of_mem _ hw)
    cases words with
    | nil =>
      rw [show List.intercalate [c] [w] = w by simp [List.intercalate]]
      exact runs_word hne hw
    | cons w' words =>
      rw [show List.intercalate [c] (w :: w' :: words) = w ++ c :: List.intercalate [c] (w' :: words) by
        simp [List.intercalate], runs_append_cons _ _ hc, runs_word hne hw, hrest]
      rfl

end Wirc.Framework

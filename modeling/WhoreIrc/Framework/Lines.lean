import WhoreIrc.Framework.Runs

/-!
# Lines of a stream

A stream is cut into lines, each ended by a separator, and the tail after the
last one. A reader that keeps the tail between two reads has the lines of the
whole stream, wherever the reads cut it (`foldl_reader`).
-/

namespace Wirc.Framework

variable {α : Type*} (sep : α → Bool)

/-- The lines that are ended by a separator. -/
def lines (s : List α) : List (List α) := (s.splitOnP sep).dropLast

/-- What is after the last separator. -/
def tail (s : List α) : List α := (s.splitOnP sep).getLast (List.splitOnP_ne_nil _ _)

variable {sep}

theorem lines_of_forall {s : List α} (hs : ∀ c ∈ s, sep c = false) : lines sep s = [] := by
  rw [lines, List.splitOnP_eq_singleton hs, List.dropLast_singleton]

theorem tail_of_forall {s : List α} (hs : ∀ c ∈ s, sep c = false) : tail sep s = s := by
  simp only [tail, List.splitOnP_eq_singleton hs, List.getLast_singleton]

theorem lines_append_cons (s t : List α) {c : α} (hc : sep c = true) :
    lines sep (s ++ c :: t) = s.splitOnP sep ++ lines sep t := by
  rw [lines, List.splitOnP_append_cons s t hc, List.dropLast_append_of_ne_nil (List.splitOnP_ne_nil _ _), lines]

theorem tail_append_cons (s t : List α) {c : α} (hc : sep c = true) : tail sep (s ++ c :: t) = tail sep t := by
  simp only [tail, List.splitOnP_append_cons s t hc]
  exact List.getLast_append_of_ne_nil _ (List.splitOnP_ne_nil _ _)

/-- A stream has no separator, or a first one. -/
theorem eq_or_first (s : List α) :
    (∀ c ∈ s, sep c = false) ∨ ∃ u c t, s = u ++ c :: t ∧ (∀ c ∈ u, sep c = false) ∧ sep c = true := by
  induction s with
  | nil => exact .inl fun c hc => absurd hc List.not_mem_nil
  | cons b s ih =>
    by_cases hb : sep b = true
    · exact .inr ⟨[], b, s, rfl, fun c hc => absurd hc List.not_mem_nil, hb⟩
    · rcases ih with hall | ⟨u, c, t, rfl, hu, hc⟩
      · exact .inl (List.forall_mem_cons.mpr ⟨eq_false_of_ne_true hb, hall⟩)
      · exact .inr ⟨b :: u, c, t, rfl, List.forall_mem_cons.mpr ⟨eq_false_of_ne_true hb, hu⟩, hc⟩

/-- A stream has no separator, or a last one with the tail after it. -/
theorem eq_or_last (s : List α) :
    (∀ c ∈ s, sep c = false) ∨ ∃ u c, sep c = true ∧ (∀ c ∈ tail sep s, sep c = false) ∧ s = u ++ c :: tail sep s := by
  induction s using List.reverseRecOn with
  | nil => exact .inl fun c hc => absurd hc List.not_mem_nil
  | append_singleton s c ih =>
    by_cases hc : sep c = true
    · refine .inr ⟨s, c, hc, ?_⟩
      have htail : tail sep (s ++ [c]) = [] :=
        (tail_append_cons s [] hc).trans (tail_of_forall fun c hc => absurd hc List.not_mem_nil)
      rw [htail]
      exact ⟨fun c hc => absurd hc List.not_mem_nil, rfl⟩
    · rcases ih with hall | ⟨u, c', hc', hall, hs⟩
      · refine .inl fun x hx => ?_
        rcases List.mem_append.mp hx with hx | hx
        · exact hall x hx
        · rw [List.mem_singleton.mp hx]
          exact eq_false_of_ne_true hc
      · have hall' : ∀ x ∈ tail sep s ++ [c], sep x = false := fun x hx => by
          rcases List.mem_append.mp hx with hx | hx
          · exact hall x hx
          · rw [List.mem_singleton.mp hx]
            exact eq_false_of_ne_true hc
        have htail : tail sep (s ++ [c]) = tail sep s ++ [c] := by
          conv_lhs => rw [hs, List.append_assoc, List.cons_append]
          rw [tail_append_cons u _ hc', tail_of_forall hall']
        refine .inr ⟨u, c', hc', by rwa [htail], ?_⟩
        rw [htail]
        conv_lhs => rw [hs, List.append_assoc, List.cons_append]

/-- There is no separator in the tail. -/
theorem tail_forall (s : List α) : ∀ c ∈ tail sep s, sep c = false := by
  rcases @eq_or_last _ sep s with hall | ⟨u, c, hc, hall, hs⟩
  · rwa [tail_of_forall hall]
  · exact hall

theorem tail_append (s t : List α) : tail sep (s ++ t) = tail sep (tail sep s ++ t) := by
  rcases @eq_or_last _ sep s with hall | ⟨u, c, hc, hall, hs⟩
  · rw [tail_of_forall hall]
  · conv_lhs => rw [hs, List.append_assoc, List.cons_append]
    exact tail_append_cons u _ hc

/-- The lines that come after those of `s` begin with its tail. -/
theorem lines_append (s t : List α) : lines sep (s ++ t) = lines sep s ++ lines sep (tail sep s ++ t) := by
  rcases @eq_or_last _ sep s with hall | ⟨u, c, hc, hall, hs⟩
  · rw [lines_of_forall hall, tail_of_forall hall, List.nil_append]
  · have hlines : lines sep s = u.splitOnP sep := by
      conv_lhs => rw [hs]
      rw [lines_append_cons u _ hc, lines_of_forall hall, List.append_nil]
    rw [hlines]
    conv_lhs => rw [hs, List.append_assoc, List.cons_append]
    exact lines_append_cons u _ hc

/-- There is no separator in a line. -/
theorem lines_forall {s line : List α} (h : line ∈ lines sep s) : ∀ c ∈ line, sep c = false := by
  induction hn : s.length using Nat.strong_induction_on generalizing s with
  | _ n ih =>
    rcases @eq_or_first _ sep s with hall | ⟨u, c, t, rfl, hu, hc⟩
    · rw [lines_of_forall hall] at h
      cases h
    · rw [lines_append_cons u t hc, List.splitOnP_eq_singleton hu, List.singleton_append, List.mem_cons] at h
      rcases h with rfl | h
      · exact hu
      · refine ih t.length ?_ h rfl
        rw [List.length_append, List.length_cons] at hn
        omega

/-- The lines and the tail of a stream without some bytes that are no separators. -/
theorem lines_tail_filter (p : α → Bool) (hp : ∀ c, sep c = true → p c = true) (s : List α) :
    lines sep (s.filter p) = (lines sep s).map (List.filter p) ∧ tail sep (s.filter p) = (tail sep s).filter p := by
  induction hn : s.length using Nat.strong_induction_on generalizing s with
  | _ n ih =>
    rcases @eq_or_first _ sep s with hall | ⟨u, c, t, rfl, hu, hc⟩
    · have hall' : ∀ c ∈ s.filter p, sep c = false := fun c hmem => hall c (List.mem_of_mem_filter hmem)
      rw [lines_of_forall hall, tail_of_forall hall, lines_of_forall hall', tail_of_forall hall']
      exact ⟨rfl, rfl⟩
    · have hu' : ∀ c ∈ u.filter p, sep c = false := fun c hmem => hu c (List.mem_of_mem_filter hmem)
      obtain ⟨hlines, htail⟩ := ih t.length (by
        rw [List.length_append, List.length_cons] at hn
        omega) t rfl
      rw [List.filter_append, List.filter_cons_of_pos (hp c hc), lines_append_cons _ _ hc, lines_append_cons _ _ hc,
        tail_append_cons _ _ hc, tail_append_cons _ _ hc, List.splitOnP_eq_singleton hu, List.splitOnP_eq_singleton hu',
        hlines, htail]
      exact ⟨rfl, rfl⟩

/-- A reader that keeps the tail between two reads, and gives something for each
line, gives the same wherever the reads cut the stream. -/
theorem foldl_reader {S β γ : Type*} (step : S → β → S) (inv : S → Prop) (read : β → List α) (kept : S → List α)
    (out : S → List γ) (view : List α → List γ) (hnil : ∀ s, (∀ c ∈ s, sep c = false) → view s = [])
    (happend : ∀ s t, view (s ++ t) = view s ++ view (tail sep s ++ t)) (inputs : List β)
    (hstep : ∀ st, inv st → (∀ c ∈ kept st, sep c = false) → ∀ input ∈ inputs,
      inv (step st input) ∧ kept (step st input) = tail sep (kept st ++ read input) ∧
        out (step st input) = out st ++ view (kept st ++ read input))
    (st : S) (hinv : inv st) (hst : ∀ c ∈ kept st, sep c = false) :
    inv (inputs.foldl step st) ∧ kept (inputs.foldl step st) = tail sep (kept st ++ inputs.flatMap read) ∧
      out (inputs.foldl step st) = out st ++ view (kept st ++ inputs.flatMap read) := by
  induction inputs using List.reverseRecOn with
  | nil =>
    rw [List.foldl_nil, List.flatMap_nil, List.append_nil, tail_of_forall hst, hnil _ hst, List.append_nil]
    exact ⟨hinv, rfl, rfl⟩
  | append_singleton inputs input ih =>
    obtain ⟨hinv', hkept, hout⟩ :=
      ih fun st hinv hst input hinput => hstep st hinv hst input (List.mem_append_left _ hinput)
    obtain ⟨hinv', hkept', hout'⟩ := hstep (inputs.foldl step st) hinv' (hkept ▸ tail_forall _) input
      (List.mem_append_right _ (List.mem_singleton_self _))
    rw [List.foldl_append, List.foldl_cons, List.foldl_nil]
    refine ⟨hinv', ?_, ?_⟩
    · rw [hkept', hkept, List.flatMap_append, List.flatMap_singleton, ← List.append_assoc (kept st),
        tail_append (kept st ++ inputs.flatMap read)]
    · rw [hout', hkept, hout, List.flatMap_append, List.flatMap_singleton, ← List.append_assoc (kept st),
        happend (kept st ++ inputs.flatMap read), List.append_assoc]

/-- The lines that are not empty are the runs before the last separator. -/
theorem lines_filter_eq_runs (s : List α) {c : α} (hc : sep c = true) :
    (lines sep (s ++ [c])).filter (fun w => !w.isEmpty) = runs sep s := by
  rw [lines_append_cons s [] hc, lines_of_forall (fun c hc => absurd hc List.not_mem_nil), List.append_nil, runs]

end Wirc.Framework

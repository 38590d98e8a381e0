import WhoreIrc.Proof.CString
import WhoreIrc.Proof.SplitText
import WhoreIrc.Spec.Fifo

/-!
# Text received in the FIFO pipe

What is kept is always the tail (`fifoReadLoop_right`). A text that is executed has an LF
in it exactly where a CR LF is searched over a line that ends with LF alone.
-/

namespace Wirc

open Framework

/-! ## Lines -/

theorem mem_lines_notMem {text line : Str} (h : line ∈ lines isLf text) : ch '\n' ∉ line := fun hmem =>
  Bool.false_ne_true ((lines_forall h _ hmem).symm.trans isLf_lf)

theorem notMem_withoutCr {line : Str} (h : ch '\n' ∉ line) : ch '\n' ∉ withoutCr line := by
  rw [withoutCr]
  split
  · exact fun hmem => h (List.dropLast_subset line hmem)
  · exact h

theorem fifoLines_notMem {text line : Str} (h : line ∈ fifoLines text) : ch '\n' ∉ line := by
  obtain ⟨line', hline', rfl⟩ := List.mem_map.mp h
  exact notMem_withoutCr (mem_lines_notMem hline')

theorem fifoLines_of_notMem {text : Str} (h : ch '\n' ∉ text) : fifoLines text = [] := by
  rw [fifoLines, lines_of_forall (isLf_false h), List.map_nil]

theorem fifoLines_append (s t : Str) : fifoLines (s ++ t) = fifoLines s ++ fifoLines (tail isLf s ++ t) := by
  rw [fifoLines, lines_append, List.map_append, fifoLines, fifoLines]

theorem fifoLines_lf {line : Str} (h : ch '\n' ∉ line) (rest : Str) :
    fifoLines (line ++ ch '\n' :: rest) = withoutCr line :: fifoLines rest := by
  rw [fifoLines, lines_append_cons line rest isLf_lf, List.splitOnP_eq_singleton (isLf_false h), List.map_append,
    List.map_singleton, List.singleton_append, fifoLines]

theorem withoutCr_cr (line : Str) : withoutCr (line ++ [ch '\r']) = line := by
  rw [withoutCr, if_pos List.getLast?_concat, List.dropLast_concat]

/-! ## One read -/

theorem crLf_eq : lit "\r\n" = [ch '\r', ch '\n'] := rfl

/-- What ends a text and is not empty ends it with another one before it. -/
theorem getLast?_ne_cr {pre line : Str} (hpre : pre.getLast? ≠ some (ch '\r')) (hline : line.getLast? ≠ some (ch '\r')) :
    (pre ++ line).getLast? ≠ some (ch '\r') := by
  rcases List.eq_nil_or_concat line with rfl | ⟨others, c, rfl⟩
  · rwa [List.append_nil]
  · rw [List.concat_eq_append, List.getLast?_concat] at hline
    rwa [List.concat_eq_append, ← List.append_assoc, List.getLast?_concat]

theorem getLast?_of_append_ne_cr {pre line : Str} (h : (pre ++ line).getLast? ≠ some (ch '\r')) :
    line.getLast? ≠ some (ch '\r') := by
  rcases List.eq_nil_or_concat line with rfl | ⟨others, c, rfl⟩
  · exact fun hnil => by cases hnil
  · rw [List.concat_eq_append, ← List.append_assoc, List.getLast?_concat] at h
    rwa [List.concat_eq_append, List.getLast?_concat]

/-- An LF of a text whose first CR LF is after `u` is in `u`, that of this CR LF, or after it. -/
theorem lf_place {u r line rest : Str} (h : u ++ ch '\r' :: ch '\n' :: r = line ++ ch '\n' :: rest) :
    ch '\n' ∈ u ∨ line = u ++ [ch '\r'] ∨ ∃ line', line = u ++ [ch '\r', ch '\n'] ++ line' ∧ r = line' ++ ch '\n' :: rest := by
  rcases List.append_eq_append_iff.mp h with ⟨a, rfl, ha⟩ | ⟨a, rfl, ha⟩
  · match a, ha with
    | [], ha => exact absurd (List.cons.inj ha).1 (by decide)
    | [c], ha =>
      simp only [List.cons_append, List.cons.injEq] at ha
      obtain ⟨rfl, -⟩ := ha
      exact .inr (.inl rfl)
    | c :: d :: a, ha =>
      simp only [List.cons_append, List.cons.injEq] at ha
      obtain ⟨rfl, rfl, ha⟩ := ha
      exact .inr (.inr ⟨a, by rw [List.append_assoc]; rfl, ha⟩)
  · cases a with
    | nil => exact absurd (List.cons.inj ha).1 (by decide)
    | cons c a =>
      obtain ⟨rfl, -⟩ := List.cons.inj ha
      exact .inl (List.mem_append_right _ List.mem_cons_self)

/-- Before the first CR LF, an LF ends a line alone. -/
theorem lfBeforeCrLf_crLf {u r : Str}
    (hfirst : ∀ u' r', u ++ ch '\r' :: ch '\n' :: r = u' ++ ch '\r' :: ch '\n' :: r' → u.length ≤ u'.length) :
    LfBeforeCrLf (u ++ ch '\r' :: ch '\n' :: r) ↔ ch '\n' ∈ u ∨ LfBeforeCrLf r := by
  constructor
  · rintro ⟨line, rest, heq, hcr, hcrLf⟩
    rcases lf_place heq with hmem | rfl | ⟨line', rfl, rfl⟩
    · exact .inl hmem
    · exact absurd List.getLast?_concat hcr
    · exact .inr ⟨line', rest, rfl, getLast?_of_append_ne_cr hcr, hcrLf⟩
  · rintro (hmem | ⟨line, rest, rfl, hcr, hcrLf⟩)
    · obtain ⟨a, b, rfl⟩ := List.append_of_mem hmem
      refine ⟨a, b ++ ch '\r' :: ch '\n' :: r, by rw [List.append_assoc, List.cons_append], fun hlast => ?_,
        ⟨b, r, by rw [crLf_eq, List.append_assoc]; rfl⟩⟩
      -- an earlier CR LF
      obtain ⟨a', rfl⟩ := List.getLast?_eq_some_iff.mp hlast
      have hle := hfirst a' (b ++ ch '\r' :: ch '\n' :: r) (by simp)
      simp only [List.length_append, List.length_cons] at hle
      omega
    · refine ⟨u ++ [ch '\r', ch '\n'] ++ line, rest, by simp, getLast?_ne_cr (fun hlast => ?_) hcr, hcrLf⟩
      rw [show u ++ [ch '\r', ch '\n'] = (u ++ [ch '\r']) ++ [ch '\n'] by simp, List.getLast?_concat] at hlast
      exact absurd (Option.some.inj hlast) (by decide)

theorem not_lfBeforeCrLf {text : Str} (h : ¬ lit "\r\n" <:+: text) : ¬ LfBeforeCrLf text := by
  rintro ⟨line, rest, rfl, -, hcrLf⟩
  exact h (hcrLf.trans ((List.suffix_cons ..).isInfix.trans (List.suffix_append ..).isInfix))

/-- What a read executes, and what it keeps. -/
structure FifoReadRight (text : Str) (read : List Str × Option Str) : Prop where
  kept : read.2 = if tail isLf text = [] then none else some (tail isLf text)
  notMem : (∀ line ∈ read.1, ch '\n' ∉ line) ↔ ¬ LfBeforeCrLf text
  executed : ¬ LfBeforeCrLf text → read.1 = fifoLines text

theorem fifoReadLoop_right (text : Str) : FifoReadRight text (fifoReadLoop text) := by
  fun_induction fifoReadLoop text with
  | case1 =>
    have hnone : ¬ LfBeforeCrLf [] := not_lfBeforeCrLf (by decide)
    exact ⟨rfl, iff_of_true (List.forall_mem_nil _) hnone, fun _ => rfl⟩
  | case2 text hnil pos h next ih =>
    obtain ⟨u, r, rfl, rfl, hfirst⟩ := strstr_some h
    have hline : strndup (u ++ lit "\r\n" ++ r) (off (u ++ lit "\r\n" ++ r) (lit "\r\n" ++ r)) = u := by
      rw [strndup, off, List.append_assoc, List.length_append, Nat.add_sub_cancel, List.take_left]
    rw [hline]
    have hnext : FifoReadRight r next := ih
    rw [crLf_eq, List.append_assoc] at hfirst ⊢
    have hfirst : ∀ u' r', u ++ ch '\r' :: ch '\n' :: r = u' ++ ch '\r' :: ch '\n' :: r' → u.length ≤ u'.length := by
      intro u' r' heq
      exact hfirst u' r' (by rw [List.append_assoc]; exact heq)
    have hbefore := lfBeforeCrLf_crLf hfirst
    have hsplit : u ++ ch '\r' :: ch '\n' :: r = (u ++ [ch '\r']) ++ ch '\n' :: r := by simp
    refine ⟨?_, ?_, fun hnone => ?_⟩
    · rw [show u ++ ([ch '\r', ch '\n'] ++ r) = (u ++ [ch '\r']) ++ ch '\n' :: r from hsplit, tail_append_cons _ _ isLf_lf]
      exact hnext.kept
    · rw [List.forall_mem_cons, hnext.notMem]
      exact (not_or.symm.trans (not_congr hbefore.symm))
    · have hnone' := not_or.mp (mt hbefore.mpr hnone)
      have hnotMem : ch '\n' ∉ u ++ [ch '\r'] := by simpa using ⟨hnone'.1, by decide⟩
      rw [show u ++ ([ch '\r', ch '\n'] ++ r) = (u ++ [ch '\r']) ++ ch '\n' :: r from hsplit, fifoLines_lf hnotMem,
        withoutCr_cr, hnext.executed hnone'.2]
  | case3 text hnil hcrLf pos h next ih =>
    obtain ⟨u, r, rfl, rfl, hfirst⟩ := strstr_some h
    have hline : strndup (u ++ lit "\n" ++ r) (off (u ++ lit "\n" ++ r) (lit "\n" ++ r)) = u := by
      rw [strndup, off, List.append_assoc, List.length_append, Nat.add_sub_cancel, List.take_left]
    rw [hline]
    have hnext : FifoReadRight r next := ih
    have hcrLf := strstr_none.mp hcrLf
    rw [show u ++ lit "\n" ++ r = u ++ ch '\n' :: r by rw [List.append_assoc]; rfl] at hcrLf hfirst ⊢
    have hnone := not_lfBeforeCrLf hcrLf
    have hnone' : ¬ LfBeforeCrLf r := not_lfBeforeCrLf fun hinfix =>
      hcrLf <| List.IsInfix.trans hinfix <| (List.suffix_cons ..).isInfix.trans (List.suffix_append ..).isInfix
    -- the first LF is after `u`
    have hnotMem : ch '\n' ∉ u := fun hmem => by
      obtain ⟨a, b, rfl⟩ := List.append_of_mem hmem
      have hle := hfirst a (b ++ ch '\n' :: r) (by simp [lit])
      simp only [List.length_append, List.length_cons] at hle
      omega
    have hcr : withoutCr u = u := by
      refine if_neg fun hlast => ?_
      obtain ⟨a, rfl⟩ := List.getLast?_eq_some_iff.mp hlast
      exact hcrLf ⟨a, r, by rw [crLf_eq]; simp⟩
    refine ⟨?_, ?_, fun _ => ?_⟩
    · rw [tail_append_cons _ _ isLf_lf]
      exact hnext.kept
    · rw [List.forall_mem_cons, hnext.notMem]
      exact iff_of_true ⟨hnotMem, hnone'⟩ hnone
    · rw [fifoLines_lf hnotMem, hcr, hnext.executed hnone']
  | case4 text hnil hcrLf h =>
    have hnotMem : ch '\n' ∉ text := fun hmem => by
      obtain ⟨a, b, rfl⟩ := List.append_of_mem hmem
      exact strstr_none.mp h ⟨a, b, by rw [List.append_assoc]; rfl⟩
    have hnone := not_lfBeforeCrLf (strstr_none.mp hcrLf)
    refine ⟨?_, iff_of_true (List.forall_mem_nil _) hnone, fun _ => (fifoLines_of_notMem hnotMem).symm⟩
    rw [tail_of_forall (isLf_false hnotMem), if_neg hnil]

/-! ## All reads -/

theorem fifoRead_kept (fifo : Fifo) (text : Str) (h : fifo.fifoUnterminated = if tail isLf text = [] then none else
    some (tail isLf text)) : fifo.fifoUnterminated.getD [] = tail isLf text := by
  rw [h]
  split
  · exact ‹tail isLf text = []›.symm
  · rfl

/-- What is kept is the tail of what was read; a text that is executed has no LF in it if no read had
a line that ends with LF alone before a CR LF, and then the lines are executed. -/
structure FifoReads (reads : List CStr) (fifo : Fifo) : Prop where
  kept : fifo.fifoUnterminated = if tail isLf (textOf reads) = [] then none else some (tail isLf (textOf reads))
  notMem : (∀ line ∈ fifo.executed, ch '\n' ∉ line) ↔
    ∀ before chunk after, reads = before ++ chunk :: after → ¬ LfBeforeCrLf (tail isLf (textOf before) ++ chunk.val)
  executed : (∀ line ∈ fifo.executed, ch '\n' ∉ line) → fifo.executed = fifoLines (textOf reads)

theorem textOf_concat (reads : List CStr) (chunk : CStr) : textOf (reads ++ [chunk]) = textOf reads ++ chunk.val := by
  rw [textOf, List.flatMap_append, List.flatMap_singleton, textOf]

/-- The reads of a list, and one more. -/
theorem forall_reads_concat {P : List CStr → CStr → Prop} {reads : List CStr} {chunk : CStr} :
    (∀ before chunk' after, reads ++ [chunk] = before ++ chunk' :: after → P before chunk') ↔
      (∀ before chunk' after, reads = before ++ chunk' :: after → P before chunk') ∧ P reads chunk := by
  constructor
  · intro h
    refine ⟨fun before chunk' after heq => h before chunk' (after ++ [chunk]) ?_, h reads chunk [] rfl⟩
    rw [heq, List.append_assoc, List.cons_append]
  · rintro ⟨h, hlast⟩ before chunk' after heq
    rcases List.eq_nil_or_concat after with rfl | ⟨after', last, rfl⟩
    · obtain ⟨rfl, hchunk⟩ := List.append_inj' heq rfl
      obtain ⟨rfl, -⟩ := List.cons.inj hchunk
      exact hlast
    · rw [List.concat_eq_append, ← List.cons_append, ← List.append_assoc] at heq
      obtain ⟨rfl, -⟩ := List.append_inj' heq rfl
      exact h before chunk' after' rfl

theorem fifoReads_foldl (reads : List CStr) : FifoReads reads (reads.foldl fifoFdCb fifoStart) := by
  induction reads using List.reverseRecOn with
  | nil =>
    refine ⟨rfl, iff_of_true (List.forall_mem_nil _) fun before chunk after heq => ?_, fun _ => rfl⟩
    simp at heq
  | append_singleton reads chunk ih =>
    rw [List.foldl_append, List.foldl_cons, List.foldl_nil]
    generalize reads.foldl fifoFdCb fifoStart = fifo at ih ⊢
    have hkept := fifoRead_kept fifo (textOf reads) ih.kept
    have hread := fifoReadLoop_right (tail isLf (textOf reads) ++ chunk.val)
    rw [fifoFdCb, hkept]
    refine ⟨?_, ?_, fun hnotMem => ?_⟩
    · dsimp only
      rw [hread.kept, textOf_concat, tail_append (textOf reads)]
    · rw [forall_reads_concat, ← ih.notMem, ← hread.notMem, List.forall_mem_append]
    · rw [List.forall_mem_append] at hnotMem
      dsimp only
      rw [ih.executed hnotMem.1, hread.executed (hread.notMem.mp hnotMem.2), textOf_concat,
        fifoLines_append (textOf reads)]

/-- Each line is executed once, in order, and the tail is kept, exactly when no read, after what was
kept, has a line that ends with LF alone before one that ends with CR LF. -/
theorem fifo_reads_iff (reads : List CStr) : FifoRight (reads.foldl fifoFdCb fifoStart) (textOf reads) ↔
    ∀ before chunk after, reads = before ++ chunk :: after →
      ¬ LfBeforeCrLf (tail isLf (textOf before) ++ chunk.val) := by
  have h := fifoReads_foldl reads
  constructor
  · rintro ⟨-, hexecuted⟩
    refine h.notMem.mp fun line hline => ?_
    rw [hexecuted] at hline
    exact fifoLines_notMem hline
  · intro hnone
    exact ⟨h.kept, h.executed (h.notMem.mpr hnone)⟩

/-- One read of two lines with the two terminators. -/
theorem fifo_reads_fail : ¬ ∀ reads : List CStr, FifoRight (reads.foldl fifoFdCb fifoStart) (textOf reads) := by
  intro h
  have hexecuted := (h [⟨lit "a\nb\r\n", by decide⟩]).executed
  have hreads := fifoReads_foldl [⟨lit "a\nb\r\n", by decide⟩]
  have hnone := hreads.notMem.mp fun line hline => by
    rw [hexecuted] at hline
    exact fifoLines_notMem hline
  exact hnone [] _ [] rfl ⟨lit "a", lit "b\r\n", by decide, by decide, by decide⟩

end Wirc

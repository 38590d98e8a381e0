import Mathlib.Data.List.Chain
import Mathlib.Data.List.Nodup
import WhoreIrc.Framework.Run
import WhoreIrc.Proof.CString
import WhoreIrc.Proof.SplitText
import WhoreIrc.Spec.Exec

/-!
# Executed commands

The number that `exec_add` takes (`execAddNumber_iff`), and the lines of a stream: what
is kept of it is its tail (`execRead_right`), wherever its parts were cut.
-/

namespace Wirc

open Framework

/-! ## The number of a new command -/

section

variable {execCmds : List ExecCmd}

end

/-- What is kept of a stream. -/
def ExecCmd.kept (cmd : ExecCmd) (out : ExecOut) : Str := (cmd.output out).getD []

/-- The size that is kept is that of the text, which has no line. -/
structure OutputOk (cmd : ExecCmd) (out : ExecOut) : Prop where
  size : cmd.outputSize out = (cmd.kept out).length
  ne_nil : cmd.output out ≠ some []
  notMem : ch '\n' ∉ cmd.kept out

/-- Another stream is what it was. -/
structure SameStreams (cmd cmd' : ExecCmd) (out : ExecOut) : Prop where
  output : ∀ other, other ≠ out → cmd'.output other = cmd.output other
  outputSize : ∀ other, other ≠ out → cmd'.outputSize other = cmd.outputSize other
  hsignal : cmd'.hsignal = cmd.hsignal

/-- What the loop of `exec_concat_output` displays, and what is left. -/
structure ConcatRight (cmd : ExecCmd) (out : ExecOut) (text : Str) (read : ExecCmd × List Str × Str) : Prop where
  lines : read.2.1 = lines isLf (cmd.kept out ++ text)
  tail : read.1.kept out ++ read.2.2 = tail isLf (cmd.kept out ++ text)
  size : read.1.outputSize out = (read.1.kept out).length
  ne_nil : read.1.output out ≠ some []
  same : SameStreams cmd read.1 out

theorem concatLines_right {cmd : ExecCmd} {out : ExecOut} (h : OutputOk cmd out) (text : Str) :
    ConcatRight cmd out text (execConcatLines cmd out text) := by
  fun_induction execConcatLines cmd out text with
  | case1 cmd text hnone =>
    have hall : ∀ c ∈ cmd.kept out ++ text, isLf c = false :=
      isLf_false fun hmem => (List.mem_append.mp hmem).elim h.notMem (strchr_none.mp hnone)
    refine ⟨(lines_of_forall hall).symm, (tail_of_forall hall).symm, h.size, h.ne_nil, ⟨fun _ _ => rfl, fun _ _ => rfl, rfl⟩⟩
  | case2 cmd text pos hpos before line cmd' rest ih =>
    obtain ⟨u, r, rfl, rfl, hu⟩ := strchr_some hpos
    have hbefore : before = u := by
      change (u ++ ch '\n' :: r).take ((u ++ ch '\n' :: r).length - (ch '\n' :: r).length) = u
      rw [List.length_append, Nat.add_sub_cancel, List.take_left]
    have hline : line = cmd.kept out ++ u := by
      change (if cmd.outputSize out > 0 then (cmd.kept out).take (cmd.outputSize out) ++ before else before) = _
      rw [hbefore, h.size]
      split
      · rw [List.take_length]
      · have hnil : cmd.kept out = [] := List.length_eq_zero_iff.mp (by omega)
        rw [hnil, List.nil_append]
    have hkept : cmd'.kept out = [] := by
      change (Function.update cmd.output out none out).getD [] = []
      rw [Function.update_self]
      rfl
    have hnone : cmd'.output out = none := Function.update_self ..
    have hok : OutputOk cmd' out := by
      refine ⟨?_, ?_, ?_⟩
      · rw [hkept]
        exact Function.update_self ..
      · rw [hnone]
        exact nofun
      · rw [hkept]
        exact List.not_mem_nil
    have hsame : SameStreams cmd cmd' out :=
      ⟨fun _ hne => Function.update_of_ne hne .., fun _ hne => Function.update_of_ne hne .., rfl⟩
    have hrest : ConcatRight cmd' out r rest := ih hok
    have hnotMem : ∀ c ∈ cmd.kept out ++ u, isLf c = false :=
      isLf_false fun hmem => (List.mem_append.mp hmem).elim h.notMem hu
    have hlines := hrest.lines
    have htail := hrest.tail
    rw [hkept, List.nil_append] at hlines htail
    refine ⟨?_, ?_, hrest.size, hrest.ne_nil, fun _ hne => ?_, fun _ hne => ?_, ?_⟩
    · rw [← List.append_assoc, lines_append_cons _ _ isLf_lf, List.splitOnP_eq_singleton hnotMem, hline]
      exact congrArg _ hlines
    · rw [← List.append_assoc, tail_append_cons _ _ isLf_lf]
      exact htail
    · exact (hrest.same.output _ hne).trans (hsame.output _ hne)
    · exact (hrest.same.outputSize _ hne).trans (hsame.outputSize _ hne)
    · exact hrest.same.hsignal.trans hsame.hsignal

/-- A part of a stream that is read: the lines are displayed, and the tail is kept. -/
structure ReadOk (cmd : ExecCmd) (out : ExecOut) (text : Str) (read : ExecCmd × List (ExecOut × Str)) : Prop where
  lines : read.2 = (lines isLf (cmd.kept out ++ text)).map fun line => (out, line)
  kept : read.1.kept out = tail isLf (cmd.kept out ++ text)
  ok : OutputOk read.1 out
  same : SameStreams cmd read.1 out

theorem concatOutput_ok {cmd : ExecCmd} {out : ExecOut} (hsignal : cmd.hsignal = none) (h : OutputOk cmd out) (text : CStr) :
    ReadOk cmd out text.val (execConcatOutput cmd out text) := by
  have hconcat := concatLines_right h text.val
  rw [execConcatOutput, hsignal]
  simp only [Option.isNone_none, if_true]
  generalize execConcatLines cmd out text.val = read at hconcat ⊢
  obtain ⟨cmd', displayed, rest⟩ := read
  obtain ⟨hlines, htail, hsize, hne, hsame⟩ := hconcat
  dsimp only at hlines htail hsize hne hsame ⊢
  have hnotMem : ch '\n' ∉ tail isLf (cmd.kept out ++ text.val) := fun hmem =>
    Bool.false_ne_true ((tail_forall _ _ hmem).symm.trans isLf_lf)
  split
  · rename_i hpos
    have houtput : ((cmd'.output out).getD []).take (cmd'.outputSize out) ++ rest = tail isLf (cmd.kept out ++ text.val) := by
      rw [hsize, ← ExecCmd.kept, List.take_length, htail]
    have hkept : (Function.update cmd'.output out (some (((cmd'.output out).getD []).take (cmd'.outputSize out) ++ rest)) out).getD
        [] = tail isLf (cmd.kept out ++ text.val) := by
      rw [Function.update_self, Option.getD_some, houtput]
    refine ⟨by rw [hlines], hkept, ⟨?_, ?_, ?_⟩, fun _ hne => ?_, fun _ hne => ?_, hsame.hsignal⟩
    · rw [ExecCmd.kept]
      dsimp only
      rw [hkept, ← htail, Function.update_self, hsize, List.length_append]
    · dsimp only
      rw [Function.update_self]
      intro hnil
      have hlength := congrArg List.length (Option.some.inj hnil)
      rw [List.length_append, List.length_nil] at hlength
      omega
    · rw [ExecCmd.kept]
      dsimp only
      rwa [hkept]
    · exact (Function.update_of_ne hne ..).trans (hsame.output _ hne)
    · exact (Function.update_of_ne hne ..).trans (hsame.outputSize _ hne)
  · rename_i hpos
    obtain rfl : rest = [] := List.length_eq_zero_iff.mp (by omega)
    rw [List.append_nil] at htail
    exact ⟨by rw [hlines], htail, ⟨hsize, hne, htail ▸ hnotMem⟩, hsame⟩

/-! ## A run -/

/-- A command whose lines are displayed, with the parts of its streams that are kept. -/
structure RunOk (run : ExecRun) : Prop where
  hsignal : run.execCmd.hsignal = none
  output : ∀ out, OutputOk run.execCmd out

theorem displayedOf_append (out : ExecOut) (displayed displayed' : List (ExecOut × Str)) :
    displayedOf out (displayed ++ displayed') = displayedOf out displayed ++ displayedOf out displayed' := by
  rw [displayedOf, List.filter_append, List.map_append, displayedOf, displayedOf]

theorem displayedOf_self (out : ExecOut) (texts : List Str) : displayedOf out (texts.map fun line => (out, line)) = texts := by
  rw [displayedOf, List.filter_eq_self.mpr, List.map_map]
  · exact List.map_id'' (fun _ => rfl) texts
  · intro line hline
    obtain ⟨text, -, rfl⟩ := List.mem_map.mp hline
    exact decide_eq_true rfl

theorem displayedOf_other {out other : ExecOut} (hne : out ≠ other) (texts : List Str) :
    displayedOf other (texts.map fun line => (out, line)) = [] := by
  rw [displayedOf, List.filter_eq_nil_iff.mpr, List.map_nil]
  intro line hline
  obtain ⟨text, -, rfl⟩ := List.mem_map.mp hline
  simpa using hne

/-- What a part of the output does to a stream. -/
theorem execRead_right {run : ExecRun} (h : RunOk run) (chunk : ExecOut × CStr) (out : ExecOut) :
    RunOk (execRead run chunk) ∧
      (execRead run chunk).execCmd.kept out =
        tail isLf (run.execCmd.kept out ++ if chunk.1 = out then chunk.2.val else []) ∧
      displayedOf out (execRead run chunk).displayed = displayedOf out run.displayed ++
        lines isLf (run.execCmd.kept out ++ if chunk.1 = out then chunk.2.val else []) := by
  have hread := concatOutput_ok h.hsignal (h.output chunk.1) chunk.2
  have hother : ∀ other, other ≠ chunk.1 → (execRead run chunk).execCmd.kept other = run.execCmd.kept other := fun other hne =>
    congrArg (fun output : Option Str => output.getD []) (hread.same.output other hne)
  have hok : RunOk (execRead run chunk) := by
    refine ⟨hread.same.hsignal.trans h.hsignal, fun other => ?_⟩
    by_cases heq : other = chunk.1
    · rw [heq]
      exact hread.ok
    · have hold := h.output other
      refine ⟨?_, ?_, ?_⟩
      · rw [hother other heq]
        exact (hread.same.outputSize other heq).trans hold.size
      · exact fun hnil => hold.ne_nil ((hread.same.output other heq).symm.trans hnil)
      · rw [hother other heq]
        exact hold.notMem
  refine ⟨hok, ?_⟩
  rw [show (execRead run chunk).displayed = run.displayed ++ (execConcatOutput run.execCmd chunk.1 chunk.2).2 from rfl,
    displayedOf_append, hread.lines]
  by_cases heq : chunk.1 = out
  · subst heq
    rw [if_pos rfl, displayedOf_self]
    exact ⟨hread.kept, rfl⟩
  · have hall := isLf_false (h.output out).notMem
    rw [if_neg heq, displayedOf_other heq, List.append_nil, List.append_nil, tail_of_forall hall, lines_of_forall hall,
      List.append_nil]
    exact ⟨hother out (Ne.symm heq), rfl⟩

/-- The lines of a stream that are displayed when the command ends. -/
theorem endCommand_displayed {run : ExecRun} (h : RunOk run) (out : ExecOut) :
    displayedOf out (execEndCommand run.execCmd).2 = if run.execCmd.kept out = [] then [] else [run.execCmd.kept out] := by
  have hline : ∀ other, execDisplayLine other (run.execCmd.output other) =
      (if run.execCmd.kept other = [] then [] else [run.execCmd.kept other]).map fun line => (other, line) := by
    intro other
    rw [ExecCmd.kept]
    cases houtput : run.execCmd.output other with
    | none => rfl
    | some output =>
      have hne : output ≠ [] := fun hnil => (h.output other).ne_nil (houtput.trans (congrArg some hnil))
      rw [Option.getD_some, if_neg hne]
      rfl
  rw [execEndCommand, h.hsignal]
  dsimp only [Option.isSome_none, if_false]
  rw [if_neg Bool.false_ne_true, displayedOf_append, hline, hline]
  cases out with
  | stdout => rw [displayedOf_self, displayedOf_other (by decide), List.append_nil]
  | stderr => rw [displayedOf_self, displayedOf_other (by decide), List.nil_append]

/-- A command as `exec_add` makes it. -/
theorem runOk_start {cmd : ExecCmd} (hsignal : cmd.hsignal = none) (houtput : ∀ out, cmd.output out = none)
    (hsize : ∀ out, cmd.outputSize out = 0) : RunOk ⟨cmd, []⟩ where
  hsignal := hsignal
  output out := by
    have hkept : cmd.kept out = [] := by rw [ExecCmd.kept, houtput out, Option.getD_none]
    refine ⟨?_, ?_, ?_⟩
    · rw [hkept]
      exact hsize out
    · rw [houtput out]
      exact nofun
    · rw [hkept]
      exact List.not_mem_nil

/-- The lines of each stream are displayed, wherever it was cut. -/
theorem exec_output_lines (number : Int) (name : Option Str) (chunks : List (ExecOut × CStr)) (out : ExecOut) :
    displayedOf out (execRun { execCmdNew number with name } chunks).displayed = textLinesAll (streamOf out chunks) := by
  have hstart : RunOk ⟨{ execCmdNew number with name }, []⟩ := runOk_start rfl (fun _ => rfl) fun _ => rfl
  obtain ⟨hok, hkept, hdisplayed⟩ := foldl_reader execRead RunOk
    (fun chunk => if chunk.1 = out then chunk.2.val else []) (fun run => run.execCmd.kept out)
    (fun run => displayedOf out run.displayed) (lines isLf) (fun _ => lines_of_forall) lines_append chunks
    (fun run hrun _ chunk _ => execRead_right hrun chunk out) _ hstart (isLf_false (hstart.output out).notMem)
  rw [execRun]
  dsimp only
  rw [displayedOf_append, hdisplayed, endCommand_displayed hok, hkept, textLinesAll, streamOf]
  rfl

end Wirc

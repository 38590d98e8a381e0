import WhoreIrc.Impl.CString

/-!
# Executed commands (`plugins/exec/exec.c`)

Memory can be allocated. The fields of a command that only tell how its lines are
displayed are left out: the lines that `exec_display_line` gets are kept in order.
-/

namespace Wirc

/-- `EXEC_STDOUT` and `EXEC_STDERR`. -/
inductive ExecOut where
  | stdout
  | stderr
  deriving DecidableEq

/-- A command. -/
structure ExecCmd where
  number : Int
  name : Option Str
  outputSize : ExecOut → Nat
  output : ExecOut → Option Str
  hsignal : Option Str

/-! ## The list of commands -/

/-- `exec_add`, with the number that was found. -/
def execCmdNew (number : Int) : ExecCmd where
  number := number
  name := none
  outputSize _ := 0
  output _ := none
  hsignal := none

theorem strchr_tail_lt {s pos : Str} {c : Byte} (h : strchr s c = some pos) : pos.tail.length < s.length := by
  induction s with
  | nil => cases h
  | cons b s ih =>
    rw [strchr] at h
    split at h
    · cases h
      exact Nat.lt_succ_self _
    · exact (ih h).trans (Nat.lt_succ_self _)

/-- The loop of `exec_concat_output`: the command, the lines that are displayed and the text after them. -/
def execConcatLines (execCmd : ExecCmd) (out : ExecOut) (ptrText : Str) : ExecCmd × List Str × Str :=
  match _h : strchr ptrText (ch '\n') with
  | none => (execCmd, [], ptrText)
  | some pos =>
    let text := strndup ptrText (off ptrText pos)
    let line := if execCmd.outputSize out > 0 then ((execCmd.output out).getD []).take (execCmd.outputSize out) ++ text else text
    let execCmd := { execCmd with
      output := Function.update execCmd.output out none
      outputSize := Function.update execCmd.outputSize out 0 }
    let rest := execConcatLines execCmd out pos.tail
    (rest.1, line :: rest.2.1, rest.2.2)
termination_by ptrText.length
decreasing_by exact strchr_tail_lt _h

/-- `exec_concat_output`: the command, and the lines that are displayed. -/
def execConcatOutput (execCmd : ExecCmd) (out : ExecOut) (text : CStr) : ExecCmd × List (ExecOut × Str) :=
  let read := if execCmd.hsignal.isNone then execConcatLines execCmd out text.val else (execCmd, [], text.val)
  let execCmd := read.1
  let ptrText := read.2.2
  (if ptrText.length > 0 then
    { execCmd with
      output := Function.update execCmd.output out
        (some (((execCmd.output out).getD []).take (execCmd.outputSize out) ++ ptrText))
      outputSize := Function.update execCmd.outputSize out (execCmd.outputSize out + ptrText.length) }
  else execCmd,
  read.2.1.map fun line => (out, line))

/-- `exec_display_line`, of a line that may be NULL. -/
def execDisplayLine (out : ExecOut) (line : Option Str) : List (ExecOut × Str) :=
  (line.map fun line => (out, line)).toList

/-- `exec_end_command`: the command, and the lines that are displayed. -/
def execEndCommand (execCmd : ExecCmd) : ExecCmd × List (ExecOut × Str) :=
  ({ execCmd with output := fun _ => none, outputSize := fun _ => 0 },
    if execCmd.hsignal.isSome then []
    else execDisplayLine .stdout (execCmd.output .stdout) ++ execDisplayLine .stderr (execCmd.output .stderr))

/-- A command and the lines that were displayed. -/
structure ExecRun where
  execCmd : ExecCmd
  displayed : List (ExecOut × Str)

/-- A part of the output of the command is read. -/
def execRead (run : ExecRun) (chunk : ExecOut × CStr) : ExecRun :=
  let read := execConcatOutput run.execCmd chunk.1 chunk.2
  ⟨read.1, run.displayed ++ read.2⟩

/-- The command ends after its output was read. -/
def execRun (execCmd : ExecCmd) (chunks : List (ExecOut × CStr)) : ExecRun :=
  let run := chunks.foldl execRead ⟨execCmd, []⟩
  let ended := execEndCommand run.execCmd
  ⟨ended.1, run.displayed ++ ended.2⟩

/-- `exec_process_cb`; `WHOREIRC_HOOK_PROCESS_ERROR` is -2. -/
def execProcessCb (run : ExecRun) (returnCode : Int) (out err : Option CStr) : ExecRun :=
  let run := match out with
    | some text => execRead run (.stdout, text)
    | none => run
  let run := match err with
    | some text => execRead run (.stderr, text)
    | none => run
  if returnCode = -2 ∨ returnCode ≥ 0 then
    let ended := execEndCommand run.execCmd
    ⟨ended.1, run.displayed ++ ended.2⟩
  else run

end Wirc

import WhoreIrc.Framework.Run
import WhoreIrc.Impl.Exec
import WhoreIrc.Impl.HookProcess
import WhoreIrc.Spec.Util

/-!
# A process and its output

The child writes to its pipes, and so may other processes that it has launched;
the hook reads them when a descriptor is ready, and its timer looks if the child
has ended. The events come in any order, and the system calls return anything
that they can: a part of what is there, or an error.
-/

namespace Wirc

open Framework

structure ProcessRun where
  hook : HookProcess
  /-- The bytes in each pipe. -/
  pipe : ProcessStream → List Byte
  /-- Nobody can write to the pipe any more. -/
  closed : ProcessStream → Bool
  /-- All bytes that were written to each pipe. -/
  written : ProcessStream → List Byte
  /-- The bytes that were in the buffers when the hook was removed by someone else. -/
  dropped : ProcessStream → List Byte

inductive ProcessEvent
  | write (index : ProcessStream) (bytes : List Byte)
  | close (index : ProcessStream)
  /-- A descriptor is ready. -/
  | read (index : ProcessStream) (numRead : Sys)
  | timer (wait : ProcessWait)
  /-- A round of the last reads. -/
  | poll (round : ProcessRound)
  /-- The hook is removed outside of its callbacks. -/
  | unhook

/-- What `read` may return. -/
def ProcessRun.Reads (s : ProcessRun) (index : ProcessStream) (numRead : Sys) : Prop :=
  numRead.Gives fun n =>
    n ≤ hookProcessReadSize ∧ n ≤ (s.pipe index).length ∧ (n = 0 → s.pipe index = [] ∧ s.closed index = true)

/-- What may happen next. -/
def ProcessEvent.Legal (s : ProcessRun) : ProcessEvent → Prop
  | .write index _ => s.closed index = false
  | .close _ => True
  | .read index numRead => s.hook.point = .wait ∧ s.hook.hookFd index = true ∧ s.Reads index numRead
  | .timer _ => s.hook.point = .wait
  | .poll round =>
    (∃ count callbackRc, s.hook.point = .untilEof count callbackRc) ∧
      ∀ index, round.pollin index = true → s.Reads index (round.numRead index)
  | .unhook => s.hook.point = .wait

/-- The run after an event; `none` where the code writes outside of a buffer. -/
def ProcessRun.step (s : ProcessRun) : ProcessEvent → Option ProcessRun
  | .write index bytes =>
    some { s with
      pipe := Function.update s.pipe index (s.pipe index ++ bytes)
      written := Function.update s.written index (s.written index ++ bytes) }
  | .close index => some { s with closed := Function.update s.closed index true }
  | .read index numRead => do
    let (hook, pipe) ← hookProcessChildRead s.hook index (s.pipe index) numRead
    some { s with hook, pipe := Function.update s.pipe index pipe }
  | .timer wait => (hookProcessTimerExec s.hook wait).map fun hook => { s with hook }
  | .poll round =>
    match s.hook.point with
    | .untilEof count callbackRc =>
      (hookProcessReadRound s.hook s.pipe count callbackRc round).map fun r => { s with hook := r.1, pipe := r.2 }
    | _ => some s
  | .unhook => some { s with hook := hookProcessUnhook s.hook, dropped := s.hook.buffer }

/-- The child was launched; without pipes if it is detached. -/
def processStart (detached : Bool) (bufferFlush : Option Str) (timeout : Int) : ProcessRun :=
  { hook := hookProcessRun detached bufferFlush timeout
    pipe := fun _ => []
    closed := fun _ => detached
    written := fun _ => []
    dropped := fun _ => [] }

/-- Events that may happen one after another. -/
def ProcessRun.Run (s : ProcessRun) (events : List ProcessEvent) : Prop :=
  AlongM ProcessRun.step ProcessEvent.Legal s events

/-- What the callback got of a stream in a call. -/
def ProcessCall.stream (call : ProcessCall) (index : ProcessStream) : List Byte :=
  match index with
  | .stdout => call.out.getD []
  | .stderr => call.err.getD []

/-- What the callback got of a stream. -/
def delivered (index : ProcessStream) (calls : List ProcessCall) : List Byte :=
  calls.flatMap fun call => call.stream index

/-- No more than a buffer is given to the callback. -/
def ProcessCall.Fits (call : ProcessCall) : Prop := ∀ index, (call.stream index).length ≤ hookProcessBufferSize

/-- A call while the child runs: there is some output. -/
def ProcessCall.Runs (call : ProcessCall) : Prop :=
  call.returnCode = hookProcessRunning ∧ (call.out ≠ none ∨ call.err ≠ none)

/-- A call that tells the end of the child. -/
def ProcessCall.Ends (call : ProcessCall) : Prop := call.returnCode = hookProcessError ∨ 0 ≤ call.returnCode

/-- The calls of the callback: while the child runs it gets some output each
time, and nothing is called after the last one, which ends the hook. -/
inductive ProcessCalls (point : ProcessPoint) : List ProcessCall → Prop
  | running {calls : List ProcessCall} (h : ∀ call ∈ calls, call.Runs) : ProcessCalls point calls
  | ended {calls : List ProcessCall} {last : ProcessCall} (h : ∀ call ∈ calls, call.Runs) (hlast : last.Ends)
      (hpoint : point = .deleted) : ProcessCalls point (calls ++ [last])

/-- The callback was told the end of the child. -/
def ProcessRun.Ended (s : ProcessRun) : Prop := ∃ call ∈ s.hook.calls, call.Ends

/-- `poll` and `read` do not fail, and `read` returns as much as there is and as it may. -/
def ProcessRound.Full (s : ProcessRun) (round : ProcessRound) : Prop :=
  ∀ index, s.pipe index ≠ [] → round.ready.positive = true ∧ round.pollin index = true ∧
    round.numRead index = .ok (min hookProcessReadSize (s.pipe index).length)

/-- The rounds that read what the child has left. -/
def ProcessEvent.Full (s : ProcessRun) : ProcessEvent → Prop
  | .poll round => round.Full s
  | _ => True

/-- The events that are calls of the timer. -/
def ProcessEvent.isTimer : ProcessEvent → Bool
  | .timer _ => true
  | _ => false

/-- The events that are rounds of the last reads. -/
def ProcessEvent.isPoll : ProcessEvent → Bool
  | .poll _ => true
  | _ => false

/-! ## Lines of an executed command -/

def ProcessStream.out : ProcessStream → ExecOut
  | .stdout => .stdout
  | .stderr => .stderr

/-- The callback of an executed command gets these calls. -/
def execProcess (execCmd : ExecCmd) (calls : List ProcessCall) : ExecRun :=
  calls.foldl (fun run call => execProcessCb run call.returnCode (call.out.map cString) (call.err.map cString))
    ⟨execCmd, []⟩

end Wirc

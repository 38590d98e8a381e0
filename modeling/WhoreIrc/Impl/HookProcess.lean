import Mathlib.Logic.Function.Basic
import WhoreIrc.Impl.Util

/-!
# Processes (`core/hook/wee-hook-process.c`)

A process hook once its child was launched: what the child writes is read from
two pipes into buffers, and the callback gets the buffers when they are full and
when the child has ended. What the system calls return is an argument, and the
hook is cut where it waits: for its descriptors and its timer, and before each
`poll` of `hook_process_child_read_until_eof`. `none` is a write outside of a
buffer. The callback does not unhook the hook that calls it. The launch of the
child, its standard input and the texts for debugging are left out.
-/

namespace Wirc

/-- `HOOK_PROCESS_STDOUT` and `HOOK_PROCESS_STDERR`. -/
inductive ProcessStream
  | stdout
  | stderr
  deriving DecidableEq

/-- `WHOREIRC_HOOK_PROCESS_RUNNING`. -/
def hookProcessRunning : Int := -1

/-- `WHOREIRC_HOOK_PROCESS_ERROR`. -/
def hookProcessError : Int := -2

/-- `HOOK_PROCESS_BUFFER_SIZE`; one byte more is allocated. -/
def hookProcessBufferSize : Nat := 65536

/-- A call of the callback. It gets pointers to the buffers that are not empty:
the bytes before the `\0` that was added, or NULL. -/
structure ProcessCall where
  returnCode : Int
  out : Option (List Byte)
  err : Option (List Byte)
  deriving DecidableEq

/-- Where the hook is: it waits for its descriptors and its timer, it reads what
the child has left, `count` times so far, to end with `callbackRc`, or it is
deleted. -/
inductive ProcessPoint
  | wait
  | untilEof (count : Nat) (callbackRc : Int)
  | deleted
  deriving DecidableEq

/-- `struct t_hook_process`, with the calls of the callback in order. -/
structure HookProcess where
  /-- The first `buffer_size` bytes of each buffer. -/
  buffer : ProcessStream → List Byte
  bufferFlush : Nat
  /-- `hook_fd` is not NULL. -/
  hookFd : ProcessStream → Bool
  /-- `remaining_calls` of the timer. -/
  remainingCalls : Int
  point : ProcessPoint
  calls : List ProcessCall

/-! ## The launch -/

/-- `buffer_flush` in `hook_process_hashtable`, with the option of this name. -/
def hookProcessBufferFlush (ptrValue : Option Str) : Nat :=
  match ptrValue with
  | none => hookProcessBufferSize
  | some ptrValue =>
    let number := strtol ptrValue
    if ptrValue ≠ [] ∧ number.2 = [] ∧ number.1 ≥ 1 ∧ number.1 ≤ hookProcessBufferSize then number.1.toNat
    else hookProcessBufferSize

/-- The interval and the number of calls of the timer in `hook_process_run`. -/
def hookProcessTimer (timeout : Int) : Int × Int :=
  if timeout > 0 then
    if timeout ≤ 100 then (timeout, 1) else (100, timeout / 100 + if timeout % 100 = 0 then 1 else 0)
  else (100, 0)

/-- The hook after `hook_process_run`. -/
def hookProcessRun (detached : Bool) (bufferFlush : Option Str) (timeout : Int) : HookProcess :=
  { buffer := fun _ => []
    bufferFlush := hookProcessBufferFlush bufferFlush
    hookFd := fun _ => !detached
    remainingCalls := (hookProcessTimer timeout).2
    point := .wait
    calls := [] }

/-- `unhook` of the hook: its descriptors are not read any more, and its buffers are freed. -/
def hookProcessUnhook (hook : HookProcess) : HookProcess :=
  { hook with hookFd := fun _ => false, buffer := fun _ => [], point := .deleted }

/-! ## The output of the child -/

/-- What the callback gets of a stream. -/
def HookProcess.text (hook : HookProcess) (index : ProcessStream) : Option (List Byte) :=
  if (hook.buffer index).length > 0 then some (hook.buffer index) else none

/-- `hook_process_send_buffers`. -/
def hookProcessSendBuffers (hook : HookProcess) (callbackRc : Int) : Option HookProcess :=
  if (hook.buffer .stdout).length ≤ hookProcessBufferSize ∧ (hook.buffer .stderr).length ≤ hookProcessBufferSize then
    some { hook with
      calls := hook.calls ++ [⟨callbackRc, hook.text .stdout, hook.text .stderr⟩]
      buffer := fun _ => [] }
  else none

/-- `hook_process_add_to_buffer`. -/
def hookProcessAddToBuffer (hook : HookProcess) (index : ProcessStream) (buffer : List Byte) : Option HookProcess := do
  let hook ←
    if (hook.buffer index).length + buffer.length > hookProcessBufferSize then
      hookProcessSendBuffers hook hookProcessRunning
    else some hook
  if (hook.buffer index).length + buffer.length ≤ hookProcessBufferSize + 1 then
    some { hook with buffer := Function.update hook.buffer index (hook.buffer index ++ buffer) }
  else none

/-- The size that `hook_process_child_read` gives to `read`. -/
def hookProcessReadSize : Nat := hookProcessBufferSize / 8 - 1

/-- `hook_process_child_read`: the hook, and what is left in the pipe. -/
def hookProcessChildRead (hook : HookProcess) (index : ProcessStream) (pipe : List Byte) (numRead : Sys) :
    Option (HookProcess × List Byte) :=
  if hook.point = .deleted then some (hook, pipe)
  else
    match numRead with
    | .ok n =>
      if n > 0 then do
        let hook ← hookProcessAddToBuffer hook index (pipe.take n)
        let hook ←
          if (hook.buffer index).length ≥ hook.bufferFlush then hookProcessSendBuffers hook hookProcessRunning
          else some hook
        some (hook, pipe.drop n)
      else some ({ hook with hookFd := Function.update hook.hookFd index false }, pipe)
    | _ => some (hook, pipe)

/-! ## The end of the child -/

/-- What `poll` and the two `read` return in a round of `hook_process_child_read_until_eof`. -/
structure ProcessRound where
  ready : Sys
  pollin : ProcessStream → Bool
  numRead : ProcessStream → Sys

/-- `ready > 0`. -/
def Sys.positive : Sys → Bool
  | .ok n => 0 < n
  | _ => false

/-- The read of a descriptor of a round, if `poll` has found something to read. -/
def hookProcessPollRead (hook : HookProcess) (index : ProcessStream) (pipe : List Byte) (pollin : Bool)
    (numRead : Sys) : Option (HookProcess × List Byte) :=
  if pollin then hookProcessChildRead hook index pipe numRead else some (hook, pipe)

/-- The last call of the callback, and `unhook`. -/
def hookProcessEnd (hook : HookProcess) (callbackRc : Int) : Option HookProcess := do
  let hook ← hookProcessSendBuffers hook callbackRc
  some (hookProcessUnhook hook)

/-- A round of the loop of `hook_process_child_read_until_eof`, or what
`hook_process_timer_cb` does after it. The descriptors are open, so that `fcntl`
finds them. -/
def hookProcessReadRound (hook : HookProcess) (pipe : ProcessStream → List Byte) (count : Nat) (callbackRc : Int)
    (round : ProcessRound) : Option (HookProcess × (ProcessStream → List Byte)) :=
  let pollFd := hook.hookFd
  if count < 1024 ∧ (pollFd .stdout ∨ pollFd .stderr) ∧ round.ready.positive then do
    let (hook, out) ←
      hookProcessPollRead hook .stdout (pipe .stdout) (pollFd .stdout && round.pollin .stdout) (round.numRead .stdout)
    let (hook, err) ←
      hookProcessPollRead hook .stderr (pipe .stderr) (pollFd .stderr && round.pollin .stderr) (round.numRead .stderr)
    some ({ hook with point := .untilEof (count + 1) callbackRc }, fun
      | .stdout => out
      | .stderr => err)
  else (hookProcessEnd hook callbackRc).map fun hook => (hook, pipe)

/-- What `waitpid` finds: no child that has changed, the exit of the child with
a status, its end by a signal, or another change. -/
inductive ProcessWait
  | none
  | exited (status : Nat)
  | signaled
  | other
  deriving DecidableEq

/-- `hook_process_timer_cb`, up to the loop. -/
def hookProcessTimerCb (hook : HookProcess) (remainingCalls : Int) (wait : ProcessWait) : Option HookProcess :=
  if hook.point = .deleted then some hook
  else if remainingCalls = 0 then hookProcessEnd hook hookProcessError
  else
    match wait with
    | .exited status => some { hook with point := .untilEof 0 status }
    | .signaled => some { hook with point := .untilEof 0 hookProcessError }
    | .none => some hook
    | .other => some hook

/-- The call of the timer in `hook_timer_exec`. The timer is deleted with the hook. -/
def hookProcessTimerExec (hook : HookProcess) (wait : ProcessWait) : Option HookProcess := do
  let remainingCalls := hook.remainingCalls
  let hook ← hookProcessTimerCb hook (if remainingCalls > 0 then remainingCalls - 1 else -1) wait
  if hook.point = .deleted then some hook
  else some { hook with remainingCalls := if remainingCalls > 0 then remainingCalls - 1 else remainingCalls }

end Wirc

import WhoreIrc.Framework.Linked
import WhoreIrc.Impl.StringMatch

/-!
# Hooks (`core/wee-hook.c`, `core/hook/wee-hook-signal.c`)

The hooks of each type are in a list with links in both directions. The address
that `malloc` returns is an argument, so that memory may be used again once it
was freed, and `none` is returned where the code would follow a pointer to no
hook, or to data that was freed (a walk has one round for each hook of the
list, and one more to see the end).

`hook_signal_send` is cut where callbacks are called, so that whatever a
callback does comes between `hookSignalSendTest` and `hookSignalSendReturn`.
-/

namespace Wirc

open Framework

/-- `enum t_hook_type`. -/
inductive HookType
  | command
  | commandRun
  | timer
  | fd
  | process
  | connect
  | line
  | print
  | signal
  | hsignal
  | config
  | completion
  | modifier
  | info
  | infoHashtable
  | infolist
  | hdata
  | focus
  deriving DecidableEq

/-- The types, in the order of their numbers. -/
def hookTypes : List HookType :=
  [.command, .commandRun, .timer, .fd, .process, .connect, .line, .print, .signal, .hsignal, .config, .completion,
    .modifier, .info, .infoHashtable, .infolist, .hdata, .focus]

/-- `struct t_hook`. The name in `hook_data` is the command of a command hook
and the signal of a signal hook; `hook_data` is NULL once it was freed. -/
structure Hook where
  type : HookType
  deleted : Bool
  running : Bool
  priority : Int
  hookData : Option Str
  deriving DecidableEq

/-- The variables of `core/wee-hook.c`, and the memory. -/
structure Hooks where
  weechatHooks : HookType → Option Addr
  lastWeechatHook : HookType → Option Addr
  hooksCount : HookType → Int
  hookExecRecursion : Nat
  realDeletePending : Bool
  memory : Heap Hook

/-- `hook_init`. -/
def hookInit : Hooks :=
  { weechatHooks := fun _ => none
    lastWeechatHook := fun _ => none
    hooksCount := fun _ => 0
    hookExecRecursion := 0
    realDeletePending := false
    memory := fun _ => none }

/-- The rounds of a walk through a list. -/
def hookRounds (state : Hooks) (type : HookType) : Nat := (state.hooksCount type).toNat + 1

/-! ## The lists -/

/-- The tests of `hook_find_pos`: `hook` goes before `ptrHook`. -/
def hookGoesBefore (hook ptrHook : Hook) : Option Bool :=
  if ptrHook.deleted then some false
  else if hook.type = .command then do
    let command ← hook.hookData
    let ptrCommand ← ptrHook.hookData
    let rcCmp := stringStrcasecmp command ptrCommand
    some (rcCmp < 0 || (rcCmp = 0 && hook.priority > ptrHook.priority))
  else some (hook.priority > ptrHook.priority)

/-- The loop of `hook_find_pos`. -/
def hookFindPosLoop (state : Hooks) (hook : Hook) : Nat → (ptrHook : Option Addr) → Option (Option Addr)
  | 0, _ => none
  | _ + 1, none => some none
  | rounds + 1, some ptrHook => do
    let node ← state.memory ptrHook
    if ← hookGoesBefore hook node.data then some (some ptrHook)
    else hookFindPosLoop state hook rounds node.next

/-- `hook_find_pos`. -/
def hookFindPos (state : Hooks) (hook : Hook) : Option (Option Addr) :=
  hookFindPosLoop state hook (hookRounds state hook.type) (state.weechatHooks hook.type)

/-- `hook_add_to_list`, of a hook with the data `hook` at the address `newHook`. -/
def hookAddToList (state : Hooks) (newHook : Addr) (hook : Hook) : Option Hooks := do
  let hooksCount := Function.update state.hooksCount hook.type (state.hooksCount hook.type + 1)
  if (state.weechatHooks hook.type).isSome then
    match ← hookFindPos state hook with
    | some posHook =>
      -- add hook before "pos_hook"
      let pos ← state.memory posHook
      let memory := state.memory.store newHook ⟨hook, pos.prev, some posHook⟩
      let memory := memory.setNext pos.prev (some newHook)
      let weechatHooks := if pos.prev.isSome then state.weechatHooks
        else Function.update state.weechatHooks hook.type (some newHook)
      let memory := memory.setPrev (some posHook) (some newHook)
      some { state with memory, weechatHooks, hooksCount }
    | none =>
      -- add hook to end of list
      let last := state.lastWeechatHook hook.type
      let memory := state.memory.store newHook ⟨hook, last, none⟩
      let memory := memory.setNext last (some newHook)
      some { state with memory, hooksCount,
                        lastWeechatHook := Function.update state.lastWeechatHook hook.type (some newHook) }
  else
    some { state with memory := state.memory.store newHook ⟨hook, none, none⟩, hooksCount,
                      weechatHooks := Function.update state.weechatHooks hook.type (some newHook),
                      lastWeechatHook := Function.update state.lastWeechatHook hook.type (some newHook) }

/-- `hook_remove_from_list`. -/
def hookRemoveFromList (state : Hooks) (hook : Addr) : Option Hooks := do
  let node ← state.memory hook
  let type := node.data.type
  let lastWeechatHook := if state.lastWeechatHook type = some hook then
      Function.update state.lastWeechatHook type node.prev
    else state.lastWeechatHook
  let memory := state.memory.setNext node.prev node.next
  let weechatHooks := if node.prev.isSome then state.weechatHooks
    else Function.update state.weechatHooks type node.next
  let memory := memory.setPrev node.next node.prev
  some { state with weechatHooks, lastWeechatHook, memory := memory.free hook,
                    hooksCount := Function.update state.hooksCount type (state.hooksCount type - 1) }

/-- The loop of `hook_remove_deleted` on the hooks of a type. -/
def hookRemoveDeletedLoop : Nat → Hooks → (ptrHook : Option Addr) → Option Hooks
  | 0, _, _ => none
  | _ + 1, state, none => some state
  | rounds + 1, state, some ptrHook => do
    let node ← state.memory ptrHook
    let state ← if node.data.deleted then hookRemoveFromList state ptrHook else some state
    hookRemoveDeletedLoop rounds state node.next

/-- `hook_remove_deleted`. -/
def hookRemoveDeleted (state : Hooks) : Option Hooks :=
  if state.realDeletePending then do
    let state ← hookTypes.foldlM (fun state type =>
      hookRemoveDeletedLoop (hookRounds state type) state (state.weechatHooks type)) state
    some { state with realDeletePending := false }
  else some state

/-! ## Hooks that are created and removed -/

/-- `HOOK_PRIORITY_DEFAULT`. -/
def hookPriorityDefault : Int := 1000

/-- `hook_get_priority_and_name`. -/
def hookGetPriorityAndName (string : Str) : Int × Str :=
  match strchr string (ch '|') with
  | some pos =>
    let number := strtol (strndup string (off string pos))
    if number.2 = [] then (toInt number.1, pos.tail) else (hookPriorityDefault, string)
  | none => (hookPriorityDefault, string)

/-- `hook_init_data`, with `hook_data`. -/
def hookInitData (type : HookType) (priority : Int) (hookData : Str) : Hook :=
  { type, deleted := false, running := false, priority, hookData := some hookData }

/-- `hook_signal`: the new hook is at the address `newHook`. -/
def hookSignal (state : Hooks) (signal : Str) (newHook : Addr) : Option (Hooks × Option Addr) :=
  if signal = [] then some (state, none)
  else do
    let (priority, ptrSignal) := hookGetPriorityAndName signal
    let state ← hookAddToList state newHook (hookInitData .signal priority ptrSignal)
    some (state, some newHook)

/-- The loop of `hook_valid` on the hooks of a type. -/
def hookValidLoop (state : Hooks) (hook : Addr) : Nat → (ptrHook : Option Addr) → Option Bool
  | 0, _ => none
  | _ + 1, none => some false
  | rounds + 1, some ptrHook => do
    let node ← state.memory ptrHook
    if !node.data.deleted && ptrHook = hook then some true else hookValidLoop state hook rounds node.next

/-- The loop of `hook_valid` on the types. -/
def hookValidTypes (state : Hooks) (hook : Addr) : List HookType → Option Bool
  | [] => some false
  | type :: types => do
    if ← hookValidLoop state hook (hookRounds state type) (state.weechatHooks type) then some true
    else hookValidTypes state hook types

/-- `hook_valid`. -/
def hookValid (state : Hooks) : (hook : Option Addr) → Option Bool
  | none => some false
  | some hook => hookValidTypes state hook hookTypes

/-- `unhook`. Processes and connections also unhook the hooks that they use,
which are calls of their own. -/
def unhook (state : Hooks) (hook : Option Addr) : Option Hooks := do
  match hook, ← hookValid state hook with
  | some hook, true =>
    let node ← state.memory hook
    if node.data.deleted then some state
    else
      -- free data specific to the hook
      let data := { node.data with hookData := none }
      if state.hookExecRecursion = 0 then
        hookRemoveFromList { state with memory := state.memory.setData hook data } hook
      else
        -- there is one or more hook exec, then delete later
        some { state with memory := state.memory.setData hook { data with deleted := true },
                          realDeletePending := true }
  | _, _ => some state

/-! ## Signals -/

/-- `hook_exec_start`. -/
def hookExecStart (state : Hooks) : Hooks := { state with hookExecRecursion := state.hookExecRecursion + 1 }

/-- `hook_exec_end`. -/
def hookExecEnd (state : Hooks) : Option Hooks :=
  let state := { state with hookExecRecursion := state.hookExecRecursion - 1 }
  if state.hookExecRecursion = 0 then hookRemoveDeleted state else some state

/-- `WHOREIRC_RC_OK`. -/
def rcOk : Int := 0

/-- `WHOREIRC_RC_OK_EAT`. -/
def rcOkEat : Int := 1

/-- Where a call of `hook_signal_send` is: at the test of the loop, in the
callback of a hook, or after the loop. -/
inductive SendPoint
  | loop (ptrHook : Option Addr)
  | callback (ptrHook : Addr) (nextHook : Option Addr)
  | ended
  deriving DecidableEq

/-- A call of `hook_signal_send`. -/
structure SignalSend where
  signal : Str
  rc : Int
  point : SendPoint
  deriving DecidableEq

/-- `hook_signal_send`, up to the loop. -/
def hookSignalSendStart (state : Hooks) (signal : Str) : Hooks × SignalSend :=
  let state := hookExecStart state
  (state, { signal, rc := rcOk, point := .loop (state.weechatHooks .signal) })

/-- `if (!ptr_hook->deleted && !ptr_hook->running && ...)`. -/
def hookSignalMatches (signal : Str) (hook : Hook) : Option Bool :=
  if !hook.deleted && !hook.running then hook.hookData.map fun mask => stringMatch signal mask false
  else some false

/-- A round of the loop, up to the call of the callback. -/
def hookSignalSendTest (state : Hooks) (send : SignalSend) : (ptrHook : Option Addr) → Option (Hooks × SignalSend)
  | none => some (state, { send with point := .ended })
  | some ptrHook => do
    let node ← state.memory ptrHook
    if ← hookSignalMatches send.signal node.data then
      some ({ state with memory := state.memory.setData ptrHook { node.data with running := true } },
        { send with point := .callback ptrHook node.next })
    else some (state, { send with point := .loop node.next })

/-- The end of a round, after the callback returned `rc`. -/
def hookSignalSendReturn (state : Hooks) (send : SignalSend) (ptrHook : Addr) (nextHook : Option Addr) (rc : Int) :
    Option (Hooks × SignalSend) := do
  let node ← state.memory ptrHook
  let state := { state with memory := state.memory.setData ptrHook { node.data with running := false } }
  if rc = rcOkEat then some (state, { send with rc, point := .ended })
  else some (state, { send with rc, point := .loop nextHook })

end Wirc

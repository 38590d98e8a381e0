import WhoreIrc.Impl.Hook

/-!
# Hooks under re-entrancy

A run is a sequence of calls, in any order: hooks are created and removed, and
signals sent, outside of any callback or in one. `HookSystem` has the calls of
`hook_signal_send` that did not return yet, the innermost first; a callback runs
when the innermost one is at `SendPoint.callback`, and only then, or when there
is none, may there be other calls.

`HookHistory` records what happened: when hooks were created, and what each send
on the stack has seen.
-/

namespace Wirc

open Framework

/-! ## Runs -/

structure HookSystem where
  hooks : Hooks
  stack : List SignalSend

inductive HookAct
  /-- `hook_signal`, where `malloc` returns `newHook`. -/
  | signal (signal : Str) (newHook : Addr)
  /-- A hook of another type. -/
  | other (type : HookType) (priority : Int) (name : Str) (newHook : Addr)
  | unhook (hook : Option Addr)
  | send (signal : Str)
  /-- The innermost send goes on with its loop, up to the next callback or the next round. -/
  | next
  /-- The callback that the innermost send has called returns `rc`. -/
  | returns (rc : Int)

/-- The hook whose callback a send has called. -/
def SendPoint.current : SendPoint → Option Addr
  | callback ptrHook _ => some ptrHook
  | _ => none

/-- The hooks whose callbacks run. -/
def HookSystem.running (sys : HookSystem) : List Addr := sys.stack.filterMap fun send => send.point.current

/-- Calls may be made: no send runs, or the innermost one is in a callback. -/
def HookSystem.Calls (sys : HookSystem) : Prop := ∀ send ∈ sys.stack.head?, send.point.current ≠ none

/-- What may happen next. -/
def HookAct.Legal (sys : HookSystem) : HookAct → Prop
  | .signal _ newHook => sys.Calls ∧ sys.hooks.memory newHook = none
  | .other type _ _ newHook => sys.Calls ∧ type ≠ .signal ∧ sys.hooks.memory newHook = none
  | .unhook _ => sys.Calls
  | .send _ => sys.Calls
  | .next => ¬ sys.Calls
  | .returns _ => sys.stack ≠ [] ∧ sys.Calls

/-- The system after an act; `none` where the code would follow a bad pointer. -/
def HookAct.run (sys : HookSystem) : HookAct → Option HookSystem
  | .signal name newHook => (hookSignal sys.hooks name newHook).map fun r => { sys with hooks := r.1 }
  | .other type priority name newHook =>
    (hookAddToList sys.hooks newHook (hookInitData type priority name)).map fun hooks => { sys with hooks }
  | .unhook hook => (Wirc.unhook sys.hooks hook).map fun hooks => { sys with hooks }
  | .send name =>
    let (hooks, call) := hookSignalSendStart sys.hooks name
    some ⟨hooks, call :: sys.stack⟩
  | .next =>
    match sys.stack with
    | [] => none
    | call :: stack =>
      match call.point with
      | .loop ptrHook => (hookSignalSendTest sys.hooks call ptrHook).map fun r => ⟨r.1, r.2 :: stack⟩
      | .callback _ _ => none
      | .ended => (hookExecEnd sys.hooks).map fun hooks => ⟨hooks, stack⟩
  | .returns rc =>
    match sys.stack with
    | [] => none
    | call :: stack =>
      match call.point with
      | .callback ptrHook nextHook =>
        (hookSignalSendReturn sys.hooks call ptrHook nextHook rc).map fun r => ⟨r.1, r.2 :: stack⟩
      | _ => none

/-! ## The lists -/

/-- The hooks from a pointer on. -/
def hooksFrom (state : Hooks) : Nat → (ptrHook : Option Addr) → List (Addr × Hook)
  | 0, _ => []
  | _ + 1, none => []
  | rounds + 1, some ptrHook =>
    match state.memory ptrHook with
    | some node => (ptrHook, node.data) :: hooksFrom state rounds node.next
    | none => []

/-- The hooks of a type, in the order of the list. -/
def hookList (state : Hooks) (type : HookType) : List (Addr × Hook) :=
  hooksFrom state (hookRounds state type) (state.weechatHooks type)

/-! ## What happened -/

/-- A send on the stack: the hooks that were in the list when it started, those
that the loop has tested, as they were then, those whose callback was called,
and those that were added meanwhile where the loop had already passed. -/
structure SendRecord where
  present : List Addr
  tested : List (Addr × Hook)
  called : List Addr
  missed : List Addr
  deriving DecidableEq

/-- `birth` says when the hook at an address was created. -/
structure HookHistory where
  clock : Nat
  birth : Addr → Nat
  sends : List SendRecord

/-- The hook that a send will test next, in or after the callback. -/
def SendPoint.saved : SendPoint → Option Addr
  | loop ptrHook => ptrHook
  | callback _ nextHook => nextHook
  | ended => none

/-- A new signal hook is missed by a send that will not come to it. -/
def SendRecord.created (state : Hooks) (newHook : Addr) (send : SignalSend) (record : SendRecord) : SendRecord :=
  if newHook ∈ (hookList state .signal).map Prod.fst ∧
      newHook ∉ (hooksFrom state (hookRounds state .signal) send.point.saved).map Prod.fst then
    { record with missed := newHook :: record.missed }
  else record

/-- The record of a hook that was tested, after which the send is `send'`. -/
def SendRecord.add (hook : Addr × Hook) (send' : SignalSend) (record : SendRecord) : SendRecord :=
  { record with tested := record.tested ++ [hook]
                called := match send'.point with
                  | .callback ptrHook _ => record.called ++ [ptrHook]
                  | _ => record.called }

/-- A round of the loop. -/
def SendRecord.test (state : Hooks) (ptrHook : Option Addr) (send' : SignalSend) (record : SendRecord) :
    SendRecord :=
  match ptrHook with
  | some ptrHook =>
    match state.memory ptrHook with
    | some node => record.add (ptrHook, node.data) send'
    | none => record
  | none => record

def HookHistory.created (sys' : HookSystem) (newHook : Addr) (history : HookHistory) : HookHistory :=
  { clock := history.clock + 1
    birth := Function.update history.birth newHook history.clock
    sends := List.zipWith (SendRecord.created sys'.hooks newHook) sys'.stack history.sends }

/-- The history after an act from `sys` to `sys'`. -/
def HookHistory.after (sys sys' : HookSystem) (history : HookHistory) : HookAct → HookHistory
  | .signal _ newHook => history.created sys' newHook
  | .other _ _ _ newHook => history.created sys' newHook
  | .unhook _ => history
  | .send _ =>
    { history with sends := ⟨(hookList sys.hooks .signal).map Prod.fst, [], [], []⟩ :: history.sends }
  | .next =>
    match sys.stack, sys'.stack, history.sends with
    | ⟨_, _, .loop ptrHook⟩ :: _, send' :: _, record :: sends =>
      { history with sends := record.test sys.hooks ptrHook send' :: sends }
    | ⟨_, _, .ended⟩ :: _, _, _ :: sends => { history with sends }
    | _, _, _ => history
  | .returns _ => history

/-- The systems in which a run ends, with the history of the run. -/
inductive HookRun : HookSystem → HookHistory → Prop
  | start : HookRun ⟨hookInit, []⟩ ⟨0, fun _ => 0, []⟩
  | step {sys sys' : HookSystem} {history : HookHistory} (act : HookAct) :
      HookRun sys history → act.Legal sys → act.run sys = some sys' → HookRun sys' (history.after sys sys' act)

/-! ## What is expected -/

/-- Decreasing priority, first come first among equal priorities. -/
def HookOrder (birth : Addr → Nat) (hook hook' : Addr × Hook) : Prop :=
  hook.2.priority > hook'.2.priority ∨
    hook.2.priority = hook'.2.priority ∧ birth hook.1 < birth hook'.1

/-- The hooks that are not marked deleted are in order. Commands are sorted by
their names first. -/
def HooksInOrder (sys : HookSystem) (history : HookHistory) : Prop :=
  ∀ type, type ≠ .command →
    ((hookList sys.hooks type).filter fun hook => !hook.2.deleted).Pairwise (HookOrder history.birth)

/-- No hook is freed while there is a send on the stack, and those marked
deleted are freed when the last one ends. -/
def HooksFreedLate (sys sys' : HookSystem) : Prop :=
  (sys'.stack ≠ [] → ∀ hook, sys.hooks.memory hook ≠ none → sys'.hooks.memory hook ≠ none) ∧
  (sys.stack ≠ [] → sys'.stack = [] →
    ∀ hook node, sys.hooks.memory hook = some node → (sys'.hooks.memory hook = none ↔ node.data.deleted = true))

/-- A tested hook is called if it is not deleted, not running and matches. -/
def SendRecord.shouldCall (send : SignalSend) (hook : Addr × Hook) : Bool :=
  !hook.2.deleted && !hook.2.running && match hook.2.hookData with
    | some mask => stringMatch send.signal mask false
    | none => false

/-- A send on the stack: hooks are tested in the order of the list, each at most
once, and those tested that should be are called. -/
structure SendInOrder (sys : HookSystem) (send : SignalSend) (record : SendRecord) : Prop where
  order : (record.tested.map Prod.fst).Sublist ((hookList sys.hooks .signal).map Prod.fst)
  once : (record.tested.map Prod.fst).Nodup
  called : record.called = (record.tested.filter (SendRecord.shouldCall send)).map Prod.fst

/-- A send that comes to the end of the list has tested all hooks that were there
when it started, and all those that were added since and that it did not miss. -/
def SendComplete (sys : HookSystem) (send : SignalSend) (record : SendRecord) : Prop :=
  send.point = .loop none →
    (∀ hook ∈ record.present, hook ∈ record.tested.map Prod.fst) ∧
    ∀ hook ∈ (hookList sys.hooks .signal).map Prod.fst,
      hook ∈ record.tested.map Prod.fst ↔ hook ∉ record.missed

/-- A send that comes to the end of the list has called each hook behind those
that it tested that should be called. -/
def SendTakesTurns (sys : HookSystem) (send : SignalSend) (record : SendRecord) : Prop :=
  send.point = .loop none → ∀ before hook behind, hookList sys.hooks .signal = before ++ hook :: behind →
    (∀ tested ∈ record.tested, tested.1 ∈ before.map Prod.fst) → SendRecord.shouldCall send hook = true →
    hook.1 ∈ record.called

end Wirc

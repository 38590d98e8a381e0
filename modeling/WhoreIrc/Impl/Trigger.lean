import WhoreIrc.Framework.Chain
import WhoreIrc.Impl.StringMatch

/-!
# The list of triggers (`plugins/trigger/trigger.c`)

A trigger is kept with its name, which is what the list is sorted and searched by;
an option is given by its name in the configuration file. The address that
`malloc` may give is an argument of what allocates. A loop on the list turns at
most `triggers_count` times, and `none` is where the code would read memory that
is not in use.
-/

namespace Wirc

open Framework

/-- `trigger_option_string`. -/
def triggerOptionString : List Str :=
  [lit "enabled", lit "hook", lit "arguments", lit "conditions", lit "regex", lit "command", lit "return_code",
    lit "post_action"]

/-- `struct t_trigger`, without its links. -/
structure Trigger where
  name : Str
  deriving DecidableEq

/-- `triggers` and `last_trigger`, `triggers_count`, and the memory. -/
structure Triggers where
  memory : Heap Trigger
  ends : ListEnds
  triggersCount : Int

/-- The name of an option of a trigger: `"%s.%s"`. -/
def triggerOptionName (name option : Str) : Str := name ++ lit "." ++ option

/-! ## Searches -/

/-- `trigger_search`. -/
def triggerSearch (state : Triggers) (name : Str) : Option (Option Addr) :=
  if name = [] then some none
  else
    state.memory.find (fun ptrTrigger => stringStrcasecmp ptrTrigger.name name = 0) state.triggersCount.toNat
      state.ends.first

/-- `trigger_search_with_option`, of an option with the name `ptrName`. -/
def triggerSearchWithOption (state : Triggers) (ptrName : Str) : Option (Option Addr) :=
  match strchr ptrName (ch '.') with
  | none => some none
  | some posOption =>
    state.memory.find (fun ptrTrigger => stringStrncasecmp ptrTrigger.name ptrName (off ptrName posOption) = 0)
      state.triggersCount.toNat state.ends.first

/-- `trigger_name_valid`. -/
def triggerNameValid (name : Str) : Bool :=
  if name = [] ∨ name.head? = some (ch '-') then false
  -- no spaces allowed
  else if (strchr name (ch ' ')).isSome then false
  -- no periods allowed
  else if (strchr name (ch '.')).isSome then false
  else true

/-! ## Changes of the list -/

/-- `trigger_alloc`: NULL if the name is not valid or already there. -/
def triggerAlloc (state : Triggers) (newTrigger : Addr) (name : Str) : Option (Option (Addr × Trigger)) :=
  if !triggerNameValid name then some none
  else
    match triggerSearch state name with
    | none => none
    | some (some _) => some none
    | some none => some ((state.memory.malloc newTrigger).map fun newTrigger => (newTrigger, ⟨name⟩))

/-- `trigger_find_pos`. -/
def triggerFindPos (rounds : Nat) (memory : Heap Trigger) (trigger : Trigger) (listTriggers : Option Addr) :
    Option (Option Addr) :=
  memory.find (fun ptrTrigger => stringStrcasecmp trigger.name ptrTrigger.name < 0) rounds listTriggers

/-- `trigger_add`, of the trigger at the address `a`. -/
def triggerAdd (rounds : Nat) (memory : Heap Trigger) (ends : ListEnds) (a : Addr) (trigger : Trigger) :
    Option (Heap Trigger × ListEnds) :=
  match triggerFindPos rounds memory trigger ends.first with
  | none => none
  | some (some posTrigger) => linkBefore memory ends posTrigger a trigger
  | some none =>
    -- add trigger to end of list
    some ((memory.store a ⟨trigger, ends.last, none⟩).setNext ends.last (some a),
      ⟨if ends.last.isSome then ends.first else some a, some a⟩)

/-- `trigger_new_with_options`: the list. -/
def triggerNewWithOptions (state : Triggers) (newTrigger : Addr) (name : Str) : Option Triggers :=
  match triggerAlloc state newTrigger name with
  | none => none
  | some none => some state
  | some (some (a, trigger)) =>
    match triggerAdd state.triggersCount.toNat state.memory state.ends a trigger with
    | none => none
    | some (memory, ends) => some ⟨memory, ends, state.triggersCount + 1⟩

/-- `trigger_rename`, and whether the trigger was renamed. -/
def triggerRename (state : Triggers) (trigger : Addr) (name : Str) : Option (Bool × Triggers) :=
  if name = [] ∨ triggerNameValid name = false then some (false, state)
  else
    match triggerSearch state name with
    | none => none
    | some (some _) => some (false, state)
    | some none =>
      let memory := state.memory.setData trigger ⟨name⟩
      match memory trigger with
      | none => none
      | some node =>
        -- re-insert trigger in list (for sorting triggers by name)
        let memory := (memory.setNext node.prev node.next).setPrev node.next node.prev
        let ends := {
          first := if node.prev.isSome then state.ends.first else node.next
          last := if node.next.isSome then state.ends.last else node.prev }
        match triggerAdd state.triggersCount.toNat memory ends trigger node.data with
        | none => none
        | some (memory, ends) => some (true, { state with memory, ends })

/-- `trigger_free`. -/
def triggerFree (state : Triggers) (trigger : Addr) : Option Triggers :=
  match unlinkNode state.memory state.ends trigger with
  | none => none
  | some (memory, ends) => some ⟨memory, ends, state.triggersCount - 1⟩

end Wirc

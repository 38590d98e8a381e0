import WhoreIrc.Framework.Chain
import WhoreIrc.Impl.Util

/-!
# Hotlist (`gui/gui-hotlist.c`)

The address that `malloc` may give is an argument of what allocates: NULL if it
is in use. `allocated` counts the entries that were allocated: a loop on a list
turns at most as often. `none` is where the code would read memory that is not
in use. Signals are left out.
-/

namespace Wirc

open Framework

/-- `enum t_gui_hotlist_priority`: low, message, private, highlight. -/
abbrev GuiHotlistPriority := Fin 4

/-- `CONFIG_LOOK_HOTLIST_SORT_*`. -/
inductive ConfigLookHotlistSort
  | groupTimeAsc | groupTimeDesc | groupNumberAsc | groupNumberDesc | numberAsc | numberDesc

/-- `CONFIG_LOOK_HOTLIST_REMOVE_*`. -/
inductive ConfigLookHotlistRemove
  | buffer | merged

/-- `struct t_gui_hotlist`, without its links. -/
structure GuiHotlist (Buffer : Type) where
  priority : GuiHotlistPriority
  creationTime : Timeval
  buffer : Buffer
  count : GuiHotlistPriority → Nat

/-- `gui_hotlist`, `last_gui_hotlist` and `buffer->hotlist`. -/
structure GuiHotlists (Buffer : Type) where
  memory : Heap (GuiHotlist Buffer)
  ends : ListEnds
  hotlist : Buffer → Option Addr
  allocated : Nat

section

variable {Buffer : Type} [DecidableEq Buffer]

/-- `gui_hotlist_search`. -/
def guiHotlistSearch (state : GuiHotlists Buffer) (buffer : Buffer) : Option (Option Addr) :=
  state.memory.find (fun hotlist => hotlist.buffer = buffer) state.allocated state.ends.first

/-- `gui_hotlist_free`. -/
def guiHotlistFree (state : GuiHotlists Buffer) (ptrHotlist : Addr) : Option (GuiHotlists Buffer) :=
  match state.memory ptrHotlist with
  | none => none
  | some node =>
    some { state with
      hotlist := Function.update state.hotlist node.data.buffer none
      memory := ((state.memory.setNext node.prev node.next).setPrev node.next node.prev).free ptrHotlist
      ends := {
        first := if node.prev.isSome then state.ends.first else node.next
        last := if state.ends.last = some ptrHotlist then node.prev else state.ends.last } }

/-- `gui_hotlist_free_all`. -/
def guiHotlistFreeAll : (rounds : Nat) → GuiHotlists Buffer → Option (GuiHotlists Buffer)
  | rounds, state =>
    match rounds, state.ends.first with
    | _, none => some state
    | 0, some _ => none
    | rounds + 1, some ptrHotlist => (guiHotlistFree state ptrHotlist).bind (guiHotlistFreeAll rounds)

/-- `gui_hotlist_check_buffer_notify`. -/
def guiHotlistCheckBufferNotify (notify : Int) (priority : GuiHotlistPriority) : Bool :=
  match priority with
  | 0 => notify ≥ 3
  | 1 => notify ≥ 2
  | 2 => notify ≥ 1
  | 3 => notify ≥ 1

variable (sort : ConfigLookHotlistSort) (number : Buffer → Int)

/-- The tests of `gui_hotlist_find_pos`. -/
def guiHotlistBefore (newHotlist ptrHotlist : GuiHotlist Buffer) : Bool :=
  match sort with
  | .groupTimeAsc =>
    newHotlist.priority > ptrHotlist.priority ||
      (newHotlist.priority = ptrHotlist.priority &&
        utilTimevalDiff newHotlist.creationTime ptrHotlist.creationTime > 0)
  | .groupTimeDesc =>
    newHotlist.priority > ptrHotlist.priority ||
      (newHotlist.priority = ptrHotlist.priority &&
        utilTimevalDiff newHotlist.creationTime ptrHotlist.creationTime < 0)
  | .groupNumberAsc =>
    newHotlist.priority > ptrHotlist.priority ||
      (newHotlist.priority = ptrHotlist.priority && number newHotlist.buffer < number ptrHotlist.buffer)
  | .groupNumberDesc =>
    newHotlist.priority > ptrHotlist.priority ||
      (newHotlist.priority = ptrHotlist.priority && number newHotlist.buffer > number ptrHotlist.buffer)
  | .numberAsc => number newHotlist.buffer < number ptrHotlist.buffer
  | .numberDesc => number newHotlist.buffer > number ptrHotlist.buffer

/-- `gui_hotlist_find_pos`. -/
def guiHotlistFindPos (rounds : Nat) (memory : Heap (GuiHotlist Buffer)) (hotlist : Option Addr)
    (newHotlist : GuiHotlist Buffer) : Option (Option Addr) :=
  memory.find (guiHotlistBefore sort number newHotlist) rounds hotlist

/-- `gui_hotlist_add_hotlist`, of the entry `newHotlist` at the address `a`. -/
def guiHotlistAddHotlist (rounds : Nat) (memory : Heap (GuiHotlist Buffer)) (ends : ListEnds) (a : Addr)
    (newHotlist : GuiHotlist Buffer) : Option (Heap (GuiHotlist Buffer) × ListEnds) :=
  match ends.first with
  | none => some (memory.store a ⟨newHotlist, none, none⟩, ⟨some a, some a⟩)
  | some _ =>
    match guiHotlistFindPos sort number rounds memory ends.first newHotlist with
    | none => none
    | some (some posHotlist) => linkBefore memory ends posHotlist a newHotlist
    | some none => some (linkLast memory ends a newHotlist)

/-- What `gui_hotlist_add` meets: `gui_add_hotlist`, `weechat_upgrading`, the core
buffer, the notify level of the buffers, what the conditions evaluate to, the time
given or the current one, and the address of a new entry. -/
structure GuiHotlistAddEnv (Buffer : Type) where
  guiAddHotlist : Bool
  upgrading : Bool
  mainBuffer : Buffer
  notify : Buffer → Int
  conditions : Buffer → GuiHotlistPriority → Option Str
  creationTime : Timeval
  newHotlist : Addr

/-- `priority` is not greater than `GUI_HOTLIST_MAX`. -/
def guiHotlistMaxPriority (priority : Nat) : GuiHotlistPriority := ⟨min priority 3, by omega⟩

/-- The tests of `gui_hotlist_add`. -/
def guiHotlistAccepts (env : GuiHotlistAddEnv Buffer) (buffer : Buffer) (priority : GuiHotlistPriority) : Bool :=
  env.guiAddHotlist && !(env.upgrading && buffer = env.mainBuffer) &&
    guiHotlistCheckBufferNotify (env.notify buffer) priority && env.conditions buffer priority = some (lit "1")

/-- `gui_hotlist_add`, from the allocation of the entry on. -/
def guiHotlistAddNew (state : GuiHotlists Buffer) (env : GuiHotlistAddEnv Buffer) (buffer : Buffer)
    (priority : GuiHotlistPriority) (count : GuiHotlistPriority → Nat) : Option (GuiHotlists Buffer) :=
  match state.memory.malloc env.newHotlist with
  | none => some state
  | some a =>
    let newHotlist : GuiHotlist Buffer :=
      ⟨priority, env.creationTime, buffer, Function.update count priority (count priority + 1)⟩
    match guiHotlistAddHotlist sort number state.allocated state.memory state.ends a newHotlist with
    | none => none
    | some (memory, ends) =>
      some {
        memory
        ends
        hotlist := Function.update state.hotlist buffer (some a)
        allocated := state.allocated + 1 }

/-- `gui_hotlist_add`. -/
def guiHotlistAdd (state : GuiHotlists Buffer) (env : GuiHotlistAddEnv Buffer) (buffer : Buffer) (priority : Nat) :
    Option (GuiHotlists Buffer) :=
  let priority := guiHotlistMaxPriority priority
  if !guiHotlistAccepts env buffer priority then some state
  else
    match guiHotlistSearch state buffer with
    | none => none
    | some none => guiHotlistAddNew sort number state env buffer priority fun _ => 0
    | some (some ptrHotlist) =>
      match state.memory ptrHotlist with
      | none => none
      | some node =>
        let hotlist := node.data
        if hotlist.priority ≥ priority then
          some { state with
            memory := state.memory.setData ptrHotlist
              { hotlist with count := Function.update hotlist.count priority (hotlist.count priority + 1) } }
        else
          -- present with a lower priority: the counts are saved and the entry is removed
          (guiHotlistFree state ptrHotlist).bind fun state =>
            guiHotlistAddNew sort number state env buffer priority hotlist.count

/-- The copies of `gui_hotlist_resort`, at the addresses `news`: from `ptrHotlist`
on, in the list `ends`. Without memory for one, the code writes to NULL. -/
def guiHotlistDupLoop : (rounds : Nat) → Heap (GuiHotlist Buffer) → ListEnds → (allocated : Nat) → (news : List Addr) →
    (ptrHotlist : Option Addr) → Option (Heap (GuiHotlist Buffer) × ListEnds × Nat)
  | _, memory, ends, allocated, _, none => some (memory, ends, allocated)
  | 0, _, _, _, _, some _ => none
  | _ + 1, _, _, _, [], some _ => none
  | rounds + 1, memory, ends, allocated, a :: news, some ptrHotlist =>
    match memory ptrHotlist, memory.malloc a with
    | some node, some element =>
      match guiHotlistAddHotlist sort number allocated memory ends element node.data with
      | none => none
      | some (memory, ends) =>
        match memory ptrHotlist with
        | none => none
        | some node => guiHotlistDupLoop rounds memory ends (allocated + 1) news node.next
    | _, _ => none

/-- `gui_hotlist_resort`. -/
def guiHotlistResort (state : GuiHotlists Buffer) (news : List Addr) : Option (GuiHotlists Buffer) :=
  match guiHotlistDupLoop sort number state.allocated state.memory ⟨none, none⟩ state.allocated news state.ends.first with
  | none => none
  | some (memory, newEnds, allocated) =>
    match guiHotlistFreeAll state.allocated { state with memory } with
    | none => none
    | some state => some { state with ends := newEnds, allocated }

/-- The loop of `gui_hotlist_clear` and `gui_hotlist_remove_buffer`, with its test. -/
def guiHotlistRemoveLoop (remove : GuiHotlist Buffer → Bool) : (rounds : Nat) → GuiHotlists Buffer →
    (ptrHotlist : Option Addr) → Option (GuiHotlists Buffer)
  | _, state, none => some state
  | 0, _, some _ => none
  | rounds + 1, state, some ptrHotlist =>
    match state.memory ptrHotlist with
    | none => none
    | some node =>
      if remove node.data then
        (guiHotlistFree state ptrHotlist).bind fun state => guiHotlistRemoveLoop remove rounds state node.next
      else guiHotlistRemoveLoop remove rounds state node.next

/-- `gui_hotlist_clear`. -/
def guiHotlistClear (state : GuiHotlists Buffer) (levelMask : UInt32) : Option (GuiHotlists Buffer) :=
  guiHotlistRemoveLoop (fun hotlist => levelMask &&& (1 <<< UInt32.ofNat hotlist.priority) ≠ 0) state.allocated state
    state.ends.first

/-- What `gui_hotlist_remove_buffer` meets: `weechat_upgrading`, the option
`weechat.look.hotlist_remove`, and `zoomed` and `active` of the buffers. -/
structure GuiHotlistRemoveEnv (Buffer : Type) where
  upgrading : Bool
  hotlistRemove : ConfigLookHotlistRemove
  zoomed : Buffer → Bool
  active : Buffer → Int

/-- `buffer_to_remove`. -/
def guiHotlistBufferToRemove (env : GuiHotlistRemoveEnv Buffer) (buffer : Buffer) (forceRemoveBuffer : Bool)
    (hotlist : GuiHotlist Buffer) : Bool :=
  let bufferToRemove := forceRemoveBuffer && hotlist.buffer = buffer
  match env.hotlistRemove with
  | .buffer => bufferToRemove || hotlist.buffer = buffer
  | .merged =>
    bufferToRemove || (number hotlist.buffer = number buffer &&
      (!env.zoomed hotlist.buffer || env.active hotlist.buffer = 2))

/-- `gui_hotlist_remove_buffer`. -/
def guiHotlistRemoveBuffer (state : GuiHotlists Buffer) (env : GuiHotlistRemoveEnv Buffer) (buffer : Buffer)
    (forceRemoveBuffer : Bool) : Option (GuiHotlists Buffer) :=
  if env.upgrading then some state
  else
    guiHotlistRemoveLoop (guiHotlistBufferToRemove number env buffer forceRemoveBuffer) state.allocated state
      state.ends.first

end

end Wirc

import WhoreIrc.Framework.Run
import WhoreIrc.Impl.GuiHotlist

/-!
# A hotlist that is right

`HotlistOk`: the hotlist against what was accepted for each buffer since it
entered the hotlist.
-/

namespace Wirc

open Framework

/-- What changes the hotlist. -/
inductive GuiHotlistOp (Buffer : Type)
  | add (env : GuiHotlistAddEnv Buffer) (buffer : Buffer) (priority : Nat)
  | removeBuffer (env : GuiHotlistRemoveEnv Buffer) (buffer : Buffer) (forceRemoveBuffer : Bool)
  | clear (levelMask : UInt32)
  | resort (news : List Addr)

section

variable {Buffer : Type} [DecidableEq Buffer] (sort : ConfigLookHotlistSort) (number : Buffer → Int)

def GuiHotlistOp.run (state : GuiHotlists Buffer) : GuiHotlistOp Buffer → Option (GuiHotlists Buffer)
  | .add env buffer priority => guiHotlistAdd sort number state env buffer priority
  | .removeBuffer env buffer forceRemoveBuffer => guiHotlistRemoveBuffer number state env buffer forceRemoveBuffer
  | .clear levelMask => guiHotlistClear state levelMask
  | .resort news => guiHotlistResort sort number state news

/-! ## What was accepted -/

/-- The priorities that an operation accepts for a buffer. -/
def GuiHotlistOp.accepts (op : GuiHotlistOp Buffer) (buffer : Buffer) : List GuiHotlistPriority :=
  match op with
  | .add env buffer' priority =>
    if buffer' = buffer ∧ guiHotlistAccepts env buffer (guiHotlistMaxPriority priority) then
      [guiHotlistMaxPriority priority]
    else []
  | _ => []

/-- `gui_hotlist_search` finds an entry. -/
def InHotlist (state : GuiHotlists Buffer) (buffer : Buffer) : Prop :=
  ∃ a, guiHotlistSearch state buffer = some (some a)

instance (state : GuiHotlists Buffer) (buffer : Buffer) : Decidable (InHotlist state buffer) :=
  decidable_of_iff ((guiHotlistSearch state buffer).join.isSome = true) (by
    unfold InHotlist
    cases guiHotlistSearch state buffer with
    | none => simp
    | some found => cases found <;> simp)

/-- The hotlist, and the priorities accepted for each buffer since it entered it. -/
structure HotlistHistory (Buffer : Type) where
  state : GuiHotlists Buffer
  accepted : Buffer → List GuiHotlistPriority

def hotlistHistoryInit : HotlistHistory Buffer := ⟨⟨fun _ => none, ⟨none, none⟩, fun _ => none, 0⟩, fun _ => []⟩

/-- One operation: what was accepted for a buffer that is not in the hotlist then is forgotten. -/
def hotlistHistoryStep (history : HotlistHistory Buffer) (op : GuiHotlistOp Buffer) : Option (HotlistHistory Buffer) :=
  (op.run sort number history.state).map fun state =>
    ⟨state, fun buffer => if InHotlist state buffer then history.accepted buffer ++ op.accepts buffer else []⟩

/-! ## What is right -/

/-- The order of a sort option: `x` may stand before `y`. -/
def HotlistOrdered (x y : GuiHotlist Buffer) : Prop :=
  match sort with
  | .groupTimeAsc =>
    y.priority < x.priority ∨ x.priority = y.priority ∧ 0 ≤ utilTimevalDiff x.creationTime y.creationTime
  | .groupTimeDesc =>
    y.priority < x.priority ∨ x.priority = y.priority ∧ utilTimevalDiff x.creationTime y.creationTime ≤ 0
  | .groupNumberAsc => y.priority < x.priority ∨ x.priority = y.priority ∧ number x.buffer ≤ number y.buffer
  | .groupNumberDesc => y.priority < x.priority ∨ x.priority = y.priority ∧ number y.buffer ≤ number x.buffer
  | .numberAsc => number x.buffer ≤ number y.buffer
  | .numberDesc => number y.buffer ≤ number x.buffer

/-- An entry against what was accepted for its buffer. -/
structure HotlistEntryOk (accepted : List GuiHotlistPriority) (hotlist : GuiHotlist Buffer) : Prop where
  priority_mem : hotlist.priority ∈ accepted
  priority_max : ∀ priority ∈ accepted, priority ≤ hotlist.priority
  count : ∀ priority, hotlist.count priority = accepted.count priority

/-- The list of the entries: linked, sorted, one for a buffer, each with the
priority and the counts of its buffer. -/
structure HotlistListOk (history : HotlistHistory Buffer) (entries : List (Addr × GuiHotlist Buffer)) : Prop where
  linked : Lists history.state.memory fun _ : Unit => entries
  ends : history.state.ends = endsOf entries
  allocated : entries.length ≤ history.state.allocated
  onePerBuffer : (entries.map fun x => x.2.buffer).Nodup
  sorted : entries.Pairwise fun x y => HotlistOrdered sort number x.2 y.2
  entry : ∀ x ∈ entries, HotlistEntryOk (history.accepted x.2.buffer) x.2
  others : ∀ buffer, buffer ∉ (entries.map fun x => x.2.buffer) → history.accepted buffer = []

/-- `buffer->hotlist` is the entry of the buffer, NULL without one. -/
structure HotlistPointersOk (hotlist : Buffer → Option Addr) (entries : List (Addr × GuiHotlist Buffer)) : Prop where
  entry : ∀ x ∈ entries, hotlist x.2.buffer = some x.1
  others : ∀ buffer, buffer ∉ (entries.map fun x => x.2.buffer) → hotlist buffer = none

def HotlistOk (history : HotlistHistory Buffer) : Prop :=
  ∃ entries, HotlistListOk sort number history entries ∧ HotlistPointersOk history.state.hotlist entries

/-! ## When it is -/

/-- The hotlist is empty when it is sorted again. -/
def ResortsEmpty (history : HotlistHistory Buffer) : GuiHotlistOp Buffer → Prop
  | .resort _ => history.state.ends.first = none
  | _ => True

end

end Wirc

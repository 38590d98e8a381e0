import WhoreIrc.Spec.GuiInput

/-!
# Undo and redo on the branch of edits

An edit gives the input another content, which begins a new branch where
something was undone. `EditBranch` has the contents of the current branch, and
an undo or a redo goes one step back or forth on it, or nowhere.
-/

namespace Wirc

/-! ## Runs -/

/-- The input of a buffer with the content and the cursor of another one, and the same undos. -/
def GuiInput.change (buffer changed : GuiInput) : GuiInput :=
  { buffer with
    inputBuffer := changed.inputBuffer
    inputBufferAlloc := changed.inputBufferAlloc
    inputBufferSize := changed.inputBufferSize
    inputBufferLength := changed.inputBufferLength
    inputBufferPos := changed.inputBufferPos }

inductive GuiUndoOp
  /-- A snapshot, a change of the content to that of `changed`, and `gui_buffer_undo_add`. -/
  | edit (changed : GuiInput)
  | undo
  | redo

def guiUndoStep (buffer : GuiInput) (step : GuiInputEnv × GuiUndoOp) : Option GuiInput :=
  match step.2 with
  | .edit changed => some (guiBufferUndoAdd step.1 ((guiBufferUndoSnap step.1 buffer).change changed))
  | .undo => guiInputUndo step.1 buffer
  | .redo => guiInputRedo step.1 buffer

/-- Up to `undoMax` undos are kept, and no modifier changes the input. -/
structure GuiInputEnv.Keeps (env : GuiInputEnv) (undoMax : Nat) : Prop where
  undoMax : env.inputUndoMax = undoMax
  modifier : ∀ text, env.modifier text = none ∨ env.modifier text = some text

/-- An edit gives an input that is consistent. -/
def GuiUndoOp.Legal : GuiUndoOp → Prop
  | .edit changed => changed.Consistent
  | _ => True

/-- The input has no undo. -/
structure GuiInput.NoUndo (buffer : GuiInput) : Prop where
  list : buffer.inputUndo = []
  ptr : buffer.ptrInputUndo = none
  count : buffer.inputUndoCount = 0

/-! ## The branch of edits -/

/-- The contents of the input before the current one, the latest first, and those that were undone, the latest first. -/
structure EditBranch where
  past : List CStr
  current : CStr
  future : List CStr
  deriving DecidableEq

namespace EditBranch

variable (branch : EditBranch)

/-- What was undone before an edit is not on the branch any more. -/
def edit (content : CStr) : EditBranch :=
  if content = branch.current then branch else ⟨branch.current :: branch.past, content, []⟩

def undo : EditBranch :=
  match branch.past with
  | content :: past => ⟨past, content, branch.current :: branch.future⟩
  | [] => branch

def redo : EditBranch :=
  match branch.future with
  | content :: future => ⟨branch.current :: branch.past, content, future⟩
  | [] => branch

/-- The branch after a step that gives the input this content: an undo or a redo may do nothing. -/
def next (op : GuiUndoOp) (content : CStr) : EditBranch :=
  match op with
  | .edit _ => branch.edit content
  | .undo => if content = branch.current then branch else branch.undo
  | .redo => if content = branch.current then branch else branch.redo

end EditBranch

/-- At each step of a run the input has the content that the branch of edits has. -/
def StaysOnBranch : GuiInput → EditBranch → List (GuiInputEnv × GuiUndoOp) → Prop
  | _, _, [] => True
  | buffer, branch, step :: steps => ∃ buffer', guiUndoStep buffer step = some buffer' ∧
      (branch.next step.2 buffer'.text).current = buffer'.text ∧
      StaysOnBranch buffer' (branch.next step.2 buffer'.text) steps

instance decidableStaysOnBranch (buffer : GuiInput) (branch : EditBranch) :
    (steps : List (GuiInputEnv × GuiUndoOp)) → Decidable (StaysOnBranch buffer branch steps)
  | [] => .isTrue trivial
  | step :: steps =>
    match hstep : guiUndoStep buffer step with
    | none => .isFalse fun ⟨_, heq, _⟩ => nomatch hstep.symm.trans heq
    | some buffer' =>
      let branch' := branch.next step.2 buffer'.text
      have := decidableStaysOnBranch buffer' branch' steps
      decidable_of_iff (branch'.current = buffer'.text ∧ StaysOnBranch buffer' branch' steps)
        ⟨fun h => ⟨buffer', hstep, h⟩, fun ⟨_, heq, h⟩ => by
          obtain rfl := Option.some.inj (hstep.symm.trans heq)
          exact h⟩

/-- After at most `undoMax` edits in a row that change the content, as many undos bring
back the first content, and as many redos the last one. -/
def UndoesEdits (undoMax : Nat) (buffer : GuiInput) : Prop :=
  ∀ (edits : List (GuiInputEnv × GuiInput)) (undos redos : List GuiInputEnv),
    edits.length ≤ undoMax → undos.length = edits.length → redos.length = edits.length →
    (∀ edit ∈ edits, edit.1.Keeps undoMax ∧ edit.2.Consistent) →
    (∀ env ∈ undos ++ redos, env.Keeps undoMax) →
    (buffer.text :: edits.map fun edit => edit.2.text).IsChain (· ≠ ·) →
    ∃ edited undone redone,
      (edits.map fun edit => (edit.1, GuiUndoOp.edit edit.2)).foldlM guiUndoStep buffer = some edited ∧
      (undos.map fun env => (env, GuiUndoOp.undo)).foldlM guiUndoStep edited = some undone ∧
      (redos.map fun env => (env, GuiUndoOp.redo)).foldlM guiUndoStep undone = some redone ∧
      undone.text = buffer.text ∧ redone.text = edited.text

/-- An edit that changes the content is not made at the oldest undo of a full list. -/
def EditKeepsOldest (undoMax : Nat) (buffer : GuiInput) : GuiUndoOp → Prop
  | .edit changed => changed.text = buffer.text ∨ undoMax = 1 ∨ buffer.inputUndo.length ≠ undoMax + 1 ∨
      buffer.ptrInputUndo ≠ some 0
  | _ => True

/-- No edit of a run that changes the content is made at the oldest undo of a full list. -/
def EditsKeepOldest (undoMax : Nat) : GuiInput → List (GuiInputEnv × GuiUndoOp) → Prop
  | _, [] => True
  | buffer, step :: steps => EditKeepsOldest undoMax buffer step.2 ∧
      ∀ buffer', guiUndoStep buffer step = some buffer' → EditsKeepOldest undoMax buffer' steps

instance decidableEditKeepsOldest (undoMax : Nat) (buffer : GuiInput) :
    (op : GuiUndoOp) → Decidable (EditKeepsOldest undoMax buffer op)
  | .edit changed => inferInstanceAs (Decidable (changed.text = buffer.text ∨ undoMax = 1 ∨
      buffer.inputUndo.length ≠ undoMax + 1 ∨ buffer.ptrInputUndo ≠ some 0))
  | .undo => .isTrue trivial
  | .redo => .isTrue trivial

instance decidableEditsKeepOldest (undoMax : Nat) (buffer : GuiInput) :
    (steps : List (GuiInputEnv × GuiUndoOp)) → Decidable (EditsKeepOldest undoMax buffer steps)
  | [] => .isTrue trivial
  | step :: steps =>
    match hstep : guiUndoStep buffer step with
    | none => decidable_of_iff (EditKeepsOldest undoMax buffer step.2)
        ⟨fun h => ⟨h, fun _ heq => nomatch hstep.symm.trans heq⟩, fun h => h.1⟩
    | some buffer' =>
      have := decidableEditsKeepOldest undoMax buffer' steps
      decidable_of_iff (EditKeepsOldest undoMax buffer step.2 ∧ EditsKeepOldest undoMax buffer' steps)
        ⟨fun h => ⟨h.1, fun _ heq => by
          obtain rfl := Option.some.inj (hstep.symm.trans heq)
          exact h.2⟩, fun h => ⟨h.1, h.2 buffer' hstep⟩⟩

end Wirc

import WhoreIrc.Spec.GuiUndo
import WhoreIrc.Proof.GuiInput

/-!
# Undo and redo follow the branch of edits

The current undo is at a place of the list (`UndoAt`). Either the input has the
content of the current undo, or it was edited since and the current undo is
the last one. An edit of a full list at its oldest undo moves the current undo
to a content that was undone; nothing else leaves the branch.
-/

namespace Wirc

open GuiInput

/-- The current undo is `undo`, with `older` and `newer` ones around it. -/
structure GuiInput.UndoAt (buffer : GuiInput) (older : List GuiInputUndo) (undo : GuiInputUndo)
    (newer : List GuiInputUndo) : Prop where
  list : buffer.inputUndo = older ++ undo :: newer
  ptr : buffer.ptrInputUndo = some older.length
  count : buffer.inputUndoCount = (buffer.inputUndo.length : Int)

/-- The list of undos without the oldest one if it is full. -/
def withoutOldest (undoMax : Nat) (undos : List GuiInputUndo) : List GuiInputUndo :=
  if undos.length = undoMax + 1 then undos.tail else undos

section

variable {env : GuiInputEnv} {buffer : GuiInput} {undoMax : Nat} {older newer : List GuiInputUndo} {undo : GuiInputUndo}

theorem withoutOldest_suffix (undoMax : Nat) (undos : List GuiInputUndo) : withoutOldest undoMax undos <:+ undos := by
  rw [withoutOldest]
  split
  · exact List.tail_suffix _
  · exact List.suffix_rfl

theorem withoutOldest_length {undos : List GuiInputUndo} (h : undos.length ≤ undoMax + 1) :
    (withoutOldest undoMax undos).length ≤ undoMax := by
  rw [withoutOldest]
  split
  · rw [List.length_tail]
    omega
  · omega

/-! ## Changes of the list -/

theorem GuiInput.UndoAt.same {buffer' : GuiInput} (h : buffer.UndoAt older undo newer)
    (hsame : SameUndos buffer buffer') :
    buffer'.UndoAt older undo newer where
  list := hsame.list.trans h.list
  ptr := hsame.ptr.trans h.ptr
  count := by rw [hsame.count, hsame.list, h.count]

/-- The undo after the current one is freed. -/
theorem GuiInput.UndoAt.free_next {next : GuiInputUndo} (h : buffer.UndoAt older undo (next :: newer)) :
    (guiBufferUndoFree buffer (older.length + 1)).UndoAt older undo newer := by
  have hlist : buffer.inputUndo = older ++ [undo] ++ next :: newer :=
    by rw [h.list, List.append_assoc, List.singleton_append]
  have herase : buffer.inputUndo.eraseIdx (older.length + 1) = older ++ undo :: newer := by
    rw [hlist, List.eraseIdx_append_of_length_le (by rw [List.length_append]; exact Nat.le_refl _), List.length_append,
      List.length_singleton, Nat.sub_self, List.eraseIdx_cons_zero, List.append_assoc, List.singleton_append]
  refine ⟨herase, ?_, ?_⟩
  · show buffer.ptrInputUndo.bind _ = _
    rw [h.ptr, Option.bind_some, if_neg (by omega), if_neg (by omega)]
  · show buffer.inputUndoCount - 1 = ((buffer.inputUndo.eraseIdx (older.length + 1)).length : Int)
    rw [h.count, herase, h.list]
    simp only [List.length_append, List.length_cons]
    omega

theorem GuiInput.UndoAt.freeNext (h : buffer.UndoAt older undo newer) :
    (guiBufferUndoFreeNext older.length newer.length buffer).UndoAt older undo [] := by
  induction newer generalizing buffer with
  | nil => exact h
  | cons next newer ih => exact ih h.free_next

theorem GuiInput.UndoAt.freeAfter (h : buffer.UndoAt older undo newer) :
    (guiBufferUndoFreeAfter buffer).UndoAt older undo [] := by
  have hlength : buffer.inputUndo.length - (older.length + 1) = newer.length := by
    rw [h.list, List.length_append, List.length_cons]
    omega
  rw [guiBufferUndoFreeAfter, h.ptr]
  dsimp only
  rw [hlength]
  exact h.freeNext

theorem freeOldest_notFull (hkeeps : env.Keeps undoMax)
    (hcount : buffer.inputUndoCount = (buffer.inputUndo.length : Int))
    (hlt : buffer.inputUndo.length < undoMax + 1) : guiBufferUndoFreeOldest env buffer = buffer := by
  rw [guiBufferUndoFreeOldest, hkeeps.undoMax, if_neg (by omega)]

theorem freeOldest_full (hkeeps : env.Keeps undoMax) (hcount : buffer.inputUndoCount = (buffer.inputUndo.length : Int))
    (hfull : buffer.inputUndo.length = undoMax + 1) :
    guiBufferUndoFreeOldest env buffer = guiBufferUndoFree buffer 0 := by
  rw [guiBufferUndoFreeOldest, hkeeps.undoMax, if_pos (by omega)]

/-- The oldest undo is freed, and it is not the current one. -/
theorem GuiInput.UndoAt.free_oldest {first : GuiInputUndo} (h : buffer.UndoAt (first :: older) undo newer) :
    (guiBufferUndoFree buffer 0).UndoAt older undo newer := by
  refine ⟨?_, ?_, ?_⟩
  · show buffer.inputUndo.eraseIdx 0 = _
    rw [h.list]
    rfl
  · show buffer.ptrInputUndo.bind _ = _
    rw [h.ptr, Option.bind_some, if_neg (by exact Nat.succ_ne_zero _), if_pos (by exact Nat.succ_pos _)]
    rfl
  · show buffer.inputUndoCount - 1 = ((buffer.inputUndo.eraseIdx 0).length : Int)
    rw [h.count, h.list]
    simp only [List.cons_append, List.eraseIdx_cons_zero, List.length_cons]
    omega

/-- The oldest undo is freed, and it is the current one: the next one becomes current. -/
theorem GuiInput.UndoAt.free_current {next : GuiInputUndo} (h : buffer.UndoAt [] undo (next :: newer)) :
    (guiBufferUndoFree buffer 0).UndoAt [] next newer := by
  have hlist : buffer.inputUndo = undo :: next :: newer := h.list
  refine ⟨?_, ?_, ?_⟩
  · show buffer.inputUndo.eraseIdx 0 = _
    rw [hlist]
    rfl
  · have hlt : 0 + 1 < (undo :: next :: newer).length := by
      rw [List.length_cons, List.length_cons]
      omega
    show buffer.ptrInputUndo.bind _ = _
    rw [h.ptr, hlist, Option.bind_some, List.length_nil, if_pos rfl, if_pos hlt]
  · show buffer.inputUndoCount - 1 = ((buffer.inputUndo.eraseIdx 0).length : Int)
    rw [h.count, hlist]
    simp only [List.eraseIdx_cons_zero, List.length_cons]
    omega

/-- What is freed before an undo is added. -/
theorem GuiInput.UndoAt.freeAll (hkeeps : env.Keeps undoMax) (hmax : 1 ≤ undoMax) (h : buffer.UndoAt older undo newer)
    (hlength : buffer.inputUndo.length ≤ undoMax + 1)
    (hcut : newer = [] ∨ buffer.inputUndo.length ≠ undoMax + 1 ∨ older ≠ []) :
    ∃ kept, kept <:+ older ∧ (newer = [] → kept ++ [undo] = withoutOldest undoMax buffer.inputUndo) ∧
      (kept ++ [undo]).length ≤ undoMax ∧
      (guiBufferUndoFreeAfter (guiBufferUndoFreeOldest env buffer)).UndoAt kept undo [] := by
  have hlist : buffer.inputUndo.length = older.length + (newer.length + 1) := by
    rw [h.list, List.length_append, List.length_cons]
  by_cases hfull : buffer.inputUndo.length = undoMax + 1
  · rw [freeOldest_full hkeeps h.count hfull]
    cases older with
    | nil =>
      rcases hcut with rfl | hcut | hcut
      · simp only [List.length_nil] at hlist
        omega
      · exact absurd hfull hcut
      · exact absurd rfl hcut
    | cons first older =>
      refine ⟨older, List.suffix_cons _ _, ?_, ?_, h.free_oldest.freeAfter⟩
      · rintro rfl
        rw [withoutOldest, if_pos hfull, h.list]
        rfl
      · rw [List.length_cons] at hlist
        rw [List.length_append, List.length_singleton]
        omega
  · rw [freeOldest_notFull hkeeps h.count (by omega)]
    refine ⟨older, List.suffix_rfl, ?_, ?_, h.freeAfter⟩
    · rintro rfl
      rw [withoutOldest, if_neg hfull, h.list]
    · rw [List.length_append, List.length_singleton]
      omega

/-- An undo is added at the end. -/
theorem GuiInput.UndoAt.push (h : buffer.UndoAt older undo []) :
    (guiBufferUndoPush buffer).UndoAt (older ++ [undo])
      (buffer.inputUndoSnap.getD ⟨buffer.text, buffer.inputBufferPos⟩) [] where
  list := by
    show buffer.inputUndo ++ _ = _
    rw [h.list]
  ptr := by
    show some buffer.inputUndo.length = _
    rw [h.list]
  count := by
    show buffer.inputUndoCount + 1 = ((buffer.inputUndo ++ [_]).length : Int)
    rw [h.count, List.length_append]
    rfl

theorem freeNext_snap (ptr count : Nat) (buffer : GuiInput) :
    (guiBufferUndoFreeNext ptr count buffer).inputUndoSnap = buffer.inputUndoSnap := by
  induction count generalizing buffer with
  | zero => rfl
  | succ count ih => exact ih (guiBufferUndoFree buffer (ptr + 1))

theorem freeAll_snap (buffer : GuiInput) :
    (guiBufferUndoFreeAfter (guiBufferUndoFreeOldest env buffer)).inputUndoSnap = buffer.inputUndoSnap := by
  have hold : (guiBufferUndoFreeOldest env buffer).inputUndoSnap = buffer.inputUndoSnap := by
    rw [guiBufferUndoFreeOldest]
    split
    · rfl
    · rfl
  rw [guiBufferUndoFreeAfter]
  split
  · rw [freeNext_snap, hold]
  · exact hold

theorem GuiInput.SameInput.text {buffer' : GuiInput} (h : buffer.SameInput buffer') : buffer'.text = buffer.text :=
  congrArg cString h.bytes

theorem GuiInput.UndoAt.isCurrent (h : buffer.UndoAt older undo newer) :
    guiBufferUndoIsCurrent buffer = true ↔ buffer.inputUndoSnap.map GuiInputUndo.data = some undo.data := by
  have hget : buffer.inputUndo[older.length]? = some undo :=
    by rw [h.list, List.getElem?_append_right (Nat.le_refl _), Nat.sub_self, List.getElem?_cons_zero]
  rw [guiBufferUndoIsCurrent, h.ptr, Option.bind_some, hget]
  cases buffer.inputUndoSnap with
  | none => exact ⟨nofun, nofun⟩
  | some snap =>
    simp only [Option.map_some, Option.some.injEq, decide_eq_true_eq]
    exact eq_comm

/-- What `gui_buffer_undo_add` adds. -/
def GuiInput.added (buffer : GuiInput) : GuiInputUndo := buffer.inputUndoSnap.getD ⟨buffer.text, buffer.inputBufferPos⟩

/-- The undos when the content was changed since the snapshot. -/
theorem undoAdd_freed (hkeeps : env.Keeps undoMax) (hmax : 1 ≤ undoMax)
    (hsnap : buffer.inputUndoSnap.map GuiInputUndo.data ≠ some buffer.text)
    (h : (guiBufferUndoFreeAfter (guiBufferUndoFreeOldest env buffer)).UndoAt older undo []) :
    if buffer.inputUndoSnap.map GuiInputUndo.data = some undo.data then
      (guiBufferUndoAdd env buffer).UndoAt older undo []
    else (guiBufferUndoAdd env buffer).UndoAt (older ++ [undo]) buffer.added [] := by
  have hsame : buffer.SameInput (guiBufferUndoFreeAfter (guiBufferUndoFreeOldest env buffer)) :=
    (freeOldest_sameInput buffer).trans (freeAfter_sameInput _)
  have hcurrent := h.isCurrent
  rw [freeAll_snap] at hcurrent
  rw [guiBufferUndoAdd, hkeeps.undoMax, if_neg (Nat.ne_of_gt hmax), if_neg hsnap]
  dsimp only
  split
  · rename_i heq
    rw [if_pos (hcurrent.mpr heq)]
    exact ⟨h.list, h.ptr, h.count⟩
  · rename_i hne
    rw [if_neg fun htrue => hne (hcurrent.mp htrue)]
    have hpush := h.push
    rw [freeAll_snap, hsame.text, hsame.pos] at hpush
    exact ⟨hpush.list, hpush.ptr, hpush.count⟩

/-! ## Edits -/

/-- The input is consistent, and so are its undos. -/
structure GuiInput.Ready (undoMax : Nat) (buffer : GuiInput) : Prop where
  chars : ∃ chars, buffer.Chars chars
  valid : ∀ undo ∈ buffer.inputUndo, utf8IsValid undo.data = none
  length : buffer.inputUndo.length ≤ undoMax + 1

variable {changed : GuiInput}

theorem change_chars (env : GuiInputEnv) (h : buffer.Ready undoMax) (hchanged : changed.Consistent) :
    ∃ chars, ((guiBufferUndoSnap env buffer).change changed).Chars chars := by
  obtain ⟨chars, hchars⟩ := h.chars
  have hconsistent : ((guiBufferUndoSnap env buffer).change changed).Consistent :=
    ⟨hchanged.memory, hchanged.valid, hchanged.size, hchanged.alloc, hchanged.length, hchanged.pos_nonneg, hchanged.pos_le⟩
  exact hconsistent.exists_chars hchars.input

theorem edit_chars (h : buffer.Ready undoMax) (hchanged : changed.Consistent) :
    ∃ chars, (guiBufferUndoAdd env ((guiBufferUndoSnap env buffer).change changed)).Chars chars := by
  obtain ⟨chars, hchars⟩ := change_chars env h hchanged
  exact ⟨chars, (undoAdd_sameInput _).keepsChars hchars⟩

theorem edit_text : (guiBufferUndoAdd env ((guiBufferUndoSnap env buffer).change changed)).text = changed.text :=
  (undoAdd_sameInput _).text

/-- The snapshot of an edit. -/
theorem change_snap (buffer changed : GuiInput) (hkeeps : env.Keeps undoMax) (hmax : 1 ≤ undoMax) :
    ((guiBufferUndoSnap env buffer).change changed).inputUndoSnap = some ⟨buffer.text, buffer.inputBufferPos⟩ := by
  show (if env.inputUndoMax > 0 then _ else _) = _
  rw [hkeeps.undoMax, if_pos (show undoMax > 0 from hmax)]

/-- An edit to the same content changes no undo. -/
theorem edit_same (hkeeps : env.Keeps undoMax) (hmax : 1 ≤ undoMax) (heq : changed.text = buffer.text) :
    guiBufferUndoAdd env ((guiBufferUndoSnap env buffer).change changed) =
      guiBufferUndoSnapFree ((guiBufferUndoSnap env buffer).change changed) := by
  have hsnap : ((guiBufferUndoSnap env buffer).change changed).inputUndoSnap.map GuiInputUndo.data =
      some ((guiBufferUndoSnap env buffer).change changed).text := by
    rw [change_snap _ _ hkeeps hmax]
    exact congrArg some heq.symm
  rw [guiBufferUndoAdd, hkeeps.undoMax, if_neg (Nat.ne_of_gt hmax), if_pos hsnap]

theorem edit_snap_ne (hkeeps : env.Keeps undoMax) (hmax : 1 ≤ undoMax) (hne : changed.text ≠ buffer.text) :
    ((guiBufferUndoSnap env buffer).change changed).inputUndoSnap.map GuiInputUndo.data ≠
      some ((guiBufferUndoSnap env buffer).change changed).text := by
  rw [change_snap _ _ hkeeps hmax]
  exact fun heq => hne (Option.some.inj heq).symm

theorem GuiInput.UndoAt.change (h : buffer.UndoAt older undo newer) (env : GuiInputEnv) (changed : GuiInput) :
    ((guiBufferUndoSnap env buffer).change changed).UndoAt older undo newer := ⟨h.list, h.ptr, h.count⟩

/-- An edit adds the content before it to the list. -/
theorem edit_noUndo (hkeeps : env.Keeps undoMax) (hmax : 1 ≤ undoMax) (h : buffer.NoUndo)
    (hne : changed.text ≠ buffer.text) :
    (guiBufferUndoAdd env ((guiBufferUndoSnap env buffer).change changed)).UndoAt [] ⟨buffer.text, buffer.inputBufferPos⟩
      [] := by
  have hfree : guiBufferUndoFreeAfter (guiBufferUndoFreeOldest env ((guiBufferUndoSnap env buffer).change changed)) =
      (guiBufferUndoSnap env buffer).change changed := by
    have hcount : ¬ 0 < ((guiBufferUndoSnap env buffer).change changed).inputUndoCount := by
      show ¬ 0 < buffer.inputUndoCount
      rw [h.count]
      exact Int.lt_irrefl 0
    have hptr : ((guiBufferUndoSnap env buffer).change changed).ptrInputUndo = none := h.ptr
    rw [guiBufferUndoFreeOldest, if_neg fun hfull => hcount hfull.1, guiBufferUndoFreeAfter, hptr]
  have hcurrent : guiBufferUndoIsCurrent ((guiBufferUndoSnap env buffer).change changed) = false := by
    have hptr : ((guiBufferUndoSnap env buffer).change changed).ptrInputUndo = none := h.ptr
    rw [guiBufferUndoIsCurrent, hptr]
    rfl
  rw [guiBufferUndoAdd, hkeeps.undoMax, if_neg (Nat.ne_of_gt hmax), if_neg (edit_snap_ne hkeeps hmax hne), hfree]
  dsimp only
  rw [hcurrent, if_neg Bool.false_ne_true]
  have hlist : ((guiBufferUndoSnap env buffer).change changed).inputUndo = [] := h.list
  refine ⟨?_, ?_, ?_⟩
  · show ((guiBufferUndoSnap env buffer).change changed).inputUndo ++ [_] = _
    rw [hlist, change_snap _ _ hkeeps hmax]
    rfl
  · show some ((guiBufferUndoSnap env buffer).change changed).inputUndo.length = _
    rw [hlist]
  · show buffer.inputUndoCount + 1 = ((((guiBufferUndoSnap env buffer).change changed).inputUndo ++ [_]).length : Int)
    rw [hlist, h.count]
    rfl

/-- After an edit, an edit adds the content before it. -/
theorem edit_edited (hkeeps : env.Keeps undoMax) (hmax : 1 ≤ undoMax) (hready : buffer.Ready undoMax)
    (h : buffer.UndoAt older undo []) (hundo : undo.data ≠ buffer.text) (hne : changed.text ≠ buffer.text) :
    (guiBufferUndoAdd env ((guiBufferUndoSnap env buffer).change changed)).UndoAt
      (withoutOldest undoMax buffer.inputUndo) ⟨buffer.text, buffer.inputBufferPos⟩ [] := by
  obtain ⟨kept, -, hkept, -, hfreed⟩ :=
    (h.change env changed).freeAll hkeeps hmax hready.length (.inl rfl)
  have hadd := undoAdd_freed hkeeps hmax (edit_snap_ne hkeeps hmax hne) hfreed
  have hsnap := change_snap buffer changed hkeeps hmax
  rw [hsnap, Option.map_some, if_neg fun heq => hundo (Option.some.inj heq).symm, hkept rfl, GuiInput.added,
    hsnap] at hadd
  exact hadd

/-- After an undo, an edit forgets what was undone. -/
theorem edit_at (hkeeps : env.Keeps undoMax) (hmax : 1 ≤ undoMax) (hready : buffer.Ready undoMax)
    (h : buffer.UndoAt older undo newer) (hundo : undo.data = buffer.text) (hne : changed.text ≠ buffer.text)
    (hcut : newer = [] ∨ buffer.inputUndo.length ≠ undoMax + 1 ∨ older ≠ []) :
    ∃ kept, kept <:+ older ∧ (kept ++ [undo]).length ≤ undoMax ∧
      (guiBufferUndoAdd env ((guiBufferUndoSnap env buffer).change changed)).UndoAt kept undo [] := by
  obtain ⟨kept, hkept, -, hlength, hfreed⟩ :=
    (h.change env changed).freeAll hkeeps hmax hready.length hcut
  have hadd := undoAdd_freed hkeeps hmax (edit_snap_ne hkeeps hmax hne) hfreed
  rw [change_snap _ _ hkeeps hmax, Option.map_some, if_pos (congrArg some hundo.symm)] at hadd
  exact ⟨kept, hkept, hlength, hadd⟩

/-- An edit at the oldest undo of a full list makes what was undone last the current undo. -/
theorem edit_oldest {next : GuiInputUndo} (hkeeps : env.Keeps undoMax) (hmax : 1 ≤ undoMax)
    (h : buffer.UndoAt [] undo (next :: newer)) (hne : changed.text ≠ buffer.text)
    (hfull : buffer.inputUndo.length = undoMax + 1) :
    if next.data = buffer.text then
      (guiBufferUndoAdd env ((guiBufferUndoSnap env buffer).change changed)).UndoAt [] next []
    else (guiBufferUndoAdd env ((guiBufferUndoSnap env buffer).change changed)).UndoAt [next]
      ⟨buffer.text, buffer.inputBufferPos⟩ [] := by
  have hchange := h.change env changed
  have hfreed := hchange.free_current.freeAfter
  rw [← freeOldest_full hkeeps hchange.count hfull] at hfreed
  have hadd := undoAdd_freed hkeeps hmax (edit_snap_ne hkeeps hmax hne) hfreed
  have hsnap := change_snap buffer changed hkeeps hmax
  rw [GuiInput.added, hsnap] at hadd
  split
  · rename_i heq
    rw [Option.map_some, if_pos (congrArg some heq.symm)] at hadd
    exact hadd
  · rename_i hneq
    rw [Option.map_some, if_neg fun heq => hneq (Option.some.inj heq).symm] at hadd
    exact hadd

/-! ## Undo and redo -/

theorem modifierExec_keeps (hkeeps : env.Keeps undoMax) : guiInputModifierExec env buffer = some buffer := by
  rw [guiInputModifierExec]
  rcases hkeeps.modifier buffer.text with hnone | hsome
  · rw [hnone]
  · rw [hsome]
    exact if_neg fun hne => hne rfl

/-- The input gets the content of an undo. -/
theorem undoUse_text {chars : List Str} (hkeeps : env.Keeps undoMax) (h : buffer.Chars chars)
    (hvalid : utf8IsValid undo.data = none) :
    ∃ used, guiInputUndoUse env buffer undo = some used ∧ (∃ chars, used.Chars chars) ∧ SameUndos buffer used ∧
      used.text = undo.data := by
  rw [guiInputUndoUse]
  split
  · obtain ⟨chars', hflatten, replaced, hreplace, hchars, hsame⟩ := replaceInput_chars env h undo.data
    rw [utf8Normalize_valid hvalid] at hflatten
    obtain ⟨hmoved, hpos, htext⟩ := setPos_chars hchars undo.pos
    refine ⟨guiInputSetPos replaced undo.pos, ?_, ⟨chars', hmoved⟩, hsame.trans hpos, ?_⟩
    · rw [hreplace]
      show guiInputTextChangedModifierAndSignal env (guiInputSetPos replaced undo.pos) false = _
      rw [guiInputTextChangedModifierAndSignal, if_neg Bool.false_ne_true, modifierExec_keeps hkeeps]
      exact ite_self _
    · rw [htext]
      exact Subtype.ext (hchars.text.trans hflatten)
  · rename_i heq
    exact ⟨buffer, rfl, ⟨chars, h⟩, .refl buffer, (not_not.mp heq).symm⟩

/-- Another undo becomes the current one, and the input gets its content. -/
theorem useAt_text {used : GuiInputUndo} (hkeeps : env.Keeps undoMax) (hready : buffer.Ready undoMax)
    (hcount : buffer.inputUndoCount = (buffer.inputUndo.length : Int))
    (hlist : buffer.inputUndo = older ++ used :: newer) :
    ∃ buffer', guiInputUndoUse env { buffer with ptrInputUndo := some older.length } used = some buffer' ∧
      buffer'.Ready undoMax ∧ buffer'.UndoAt older used newer ∧ buffer'.text = used.data := by
  obtain ⟨chars, hchars⟩ := hready.chars
  have hsame : buffer.SameInput { buffer with ptrInputUndo := some older.length } := ⟨rfl, rfl, rfl, rfl, rfl, rfl⟩
  have hvalid : utf8IsValid used.data = none := hready.valid used (by
    rw [hlist]
    exact List.mem_append_right _ (List.mem_cons_self ..))
  obtain ⟨buffer', huse, hchars', hundos, htext⟩ := undoUse_text hkeeps (hsame.keepsChars hchars) hvalid
  have hlist' : buffer'.inputUndo = buffer.inputUndo := hundos.list
  refine ⟨buffer', huse, ⟨hchars', ?_, ?_⟩, ⟨hlist'.trans hlist, hundos.ptr, ?_⟩, htext⟩
  · rw [hlist']
    exact hready.valid
  · rw [hlist']
    exact hready.length
  · rw [hundos.count, hlist']
    exact hcount

theorem undo_noUndo (h : buffer.NoUndo) : guiInputUndo env buffer = some buffer := by
  rw [guiInputUndo, h.ptr]

theorem redo_noUndo (h : buffer.NoUndo) : guiInputRedo env buffer = some buffer := by
  rw [guiInputRedo, h.ptr]

/-- Without anything to redo, the list and the input are as before. -/
theorem redo_last (h : buffer.UndoAt older undo []) : guiInputRedo env buffer = some buffer := by
  have hget : buffer.inputUndo[older.length + 1]? = none := by
    rw [h.list, List.getElem?_eq_none]
    rw [List.length_append]
    exact Nat.le_refl _
  rw [guiInputRedo, h.ptr]
  dsimp only
  rw [hget]

theorem redo_next {next : GuiInputUndo} (hkeeps : env.Keeps undoMax) (hready : buffer.Ready undoMax)
    (h : buffer.UndoAt older undo (next :: newer)) :
    ∃ buffer', guiInputRedo env buffer = some buffer' ∧ buffer'.Ready undoMax ∧
      buffer'.UndoAt (older ++ [undo]) next newer ∧ buffer'.text = next.data := by
  have hlist : buffer.inputUndo = older ++ [undo] ++ next :: newer := by
    rw [h.list, List.append_assoc, List.singleton_append]
  have hget : buffer.inputUndo[older.length + 1]? = some next := by
    rw [hlist, List.getElem?_append_right (by rw [List.length_append]; exact Nat.le_refl _), List.length_append]
    simp only [List.length_singleton, Nat.sub_self, List.getElem?_cons_zero]
  have hlength : (older ++ [undo]).length = older.length + 1 := List.length_append ..
  rw [guiInputRedo, h.ptr]
  dsimp only
  rw [hget, ← hlength]
  exact useAt_text hkeeps hready h.count hlist

/-- At an undo whose content the input has, nothing is added. -/
theorem undo_at_saves (h : buffer.UndoAt older undo newer) (hundo : undo.data = buffer.text) :
    ¬ (older.length + 1 = buffer.inputUndo.length ∧
      (buffer.inputUndo[older.length]?.map GuiInputUndo.data).getD buffer.text ≠ buffer.text) := by
  rw [h.list, List.getElem?_append_right (Nat.le_refl _), Nat.sub_self, List.getElem?_cons_zero, Option.map_some,
    Option.getD_some]
  exact fun hne => hne.2 hundo

theorem undo_oldest (h : buffer.UndoAt [] undo newer) (hundo : undo.data = buffer.text) :
    guiInputUndo env buffer = some buffer := by
  rw [guiInputUndo, h.ptr]
  dsimp only
  rw [if_neg (undo_at_saves h hundo), h.ptr]
  rfl

theorem undo_previous {previous : GuiInputUndo} (hkeeps : env.Keeps undoMax) (hready : buffer.Ready undoMax)
    (h : buffer.UndoAt (older ++ [previous]) undo newer) (hundo : undo.data = buffer.text) :
    ∃ buffer', guiInputUndo env buffer = some buffer' ∧ buffer'.Ready undoMax ∧
      buffer'.UndoAt older previous (undo :: newer) ∧ buffer'.text = previous.data := by
  have hlist : buffer.inputUndo = older ++ previous :: undo :: newer := by
    rw [h.list, List.append_assoc, List.singleton_append]
  have hget : buffer.inputUndo[older.length]? = some previous := by
    rw [hlist, List.getElem?_append_right (Nat.le_refl _), Nat.sub_self, List.getElem?_cons_zero]
  have hlength : (older ++ [previous]).length = older.length + 1 := List.length_append ..
  have hptr : buffer.ptrInputUndo = some (older.length + 1) := by rw [h.ptr, hlength]
  have hsaves := undo_at_saves h hundo
  rw [hlength] at hsaves
  rw [guiInputUndo, hptr]
  dsimp only
  rw [if_neg hsaves, hptr]
  dsimp only
  rw [hget]
  exact useAt_text hkeeps hready h.count hlist

/-- After an edit, the first undo adds the current content, to have it for a redo. -/
theorem undo_edited (hkeeps : env.Keeps undoMax) (hmax : 1 ≤ undoMax) (hready : buffer.Ready undoMax)
    (h : buffer.UndoAt older undo []) (hundo : undo.data ≠ buffer.text) :
    ∃ kept buffer', withoutOldest undoMax buffer.inputUndo = kept ++ [undo] ∧ guiInputUndo env buffer = some buffer' ∧
      buffer'.Ready undoMax ∧ buffer'.UndoAt kept undo [⟨buffer.text, buffer.inputBufferPos⟩] ∧
      buffer'.text = undo.data := by
  obtain ⟨chars, hchars⟩ := hready.chars
  have hfree : (guiBufferUndoSnapFree buffer).UndoAt older undo [] := ⟨h.list, h.ptr, h.count⟩
  obtain ⟨kept, -, hkept, hlength, hfreed⟩ := hfree.freeAll hkeeps hmax hready.length (.inl rfl)
  have hsnap : (guiBufferUndoSnapFree buffer).inputUndoSnap = none := rfl
  have hadd := undoAdd_freed hkeeps hmax (by rw [hsnap]; exact nofun) hfreed
  rw [hsnap, if_neg nofun] at hadd
  let saved := guiBufferUndoAdd env (guiBufferUndoSnapFree buffer)
  have hsaved : saved.UndoAt (kept ++ [undo]) ⟨buffer.text, buffer.inputBufferPos⟩ [] := hadd
  have hfreeSame : buffer.SameInput (guiBufferUndoSnapFree buffer) := ⟨rfl, rfl, rfl, rfl, rfl, rfl⟩
  have hsame : buffer.SameInput saved := hfreeSame.trans (undoAdd_sameInput _)
  have hmem : ∀ old ∈ kept ++ [undo], utf8IsValid old.data = none := fun old hold => by
    refine hready.valid old ((withoutOldest_suffix undoMax _).subset ?_)
    rw [← show kept ++ [undo] = withoutOldest undoMax buffer.inputUndo from hkept rfl]
    exact hold
  have hready' : saved.Ready undoMax := by
    refine ⟨⟨chars, hsame.keepsChars hchars⟩, ?_, ?_⟩
    · intro old hold
      rw [hsaved.list, List.mem_append, List.mem_singleton] at hold
      rcases hold with hold | rfl
      · exact hmem old hold
      · exact hchars.consistent.valid
    · rw [hsaved.list, List.length_append]
      exact Nat.succ_le_succ hlength
  have hlist : saved.inputUndo = kept ++ undo :: [⟨buffer.text, buffer.inputBufferPos⟩] := by
    rw [hsaved.list, List.append_assoc, List.singleton_append]
  have hptr : saved.ptrInputUndo = some (kept.length + 1) := by
    rw [hsaved.ptr, List.length_append, List.length_singleton]
  have hget : saved.inputUndo[kept.length]? = some undo := by
    rw [hlist, List.getElem?_append_right (Nat.le_refl _), Nat.sub_self, List.getElem?_cons_zero]
  have hsaves : older.length + 1 = buffer.inputUndo.length ∧
      (buffer.inputUndo[older.length]?.map GuiInputUndo.data).getD buffer.text ≠ buffer.text := by
    rw [h.list, List.getElem?_append_right (Nat.le_refl _), Nat.sub_self, List.getElem?_cons_zero, Option.map_some,
      Option.getD_some, List.length_append]
    exact ⟨rfl, hundo⟩
  obtain ⟨buffer', huse, hused⟩ := useAt_text hkeeps hready' hsaved.count hlist
  refine ⟨kept, buffer', (hkept rfl).symm, ?_, hused⟩
  rw [guiInputUndo, h.ptr]
  dsimp only
  rw [if_pos hsaves, show guiBufferUndoAdd env (guiBufferUndoSnapFree buffer) = saved from rfl, hptr]
  dsimp only
  rw [hget]
  exact huse

/-! ## The list after any edit -/

/-- The undos of the input: none, or one of them current, whose content the input has or was edited from. -/
inductive GuiInput.UndoShape (buffer : GuiInput) : Prop
  | none (h : buffer.NoUndo)
  | edited (older : List GuiInputUndo) (undo : GuiInputUndo) (h : buffer.UndoAt older undo [])
      (hne : undo.data ≠ buffer.text)
  | at (older : List GuiInputUndo) (undo : GuiInputUndo) (newer : List GuiInputUndo) (h : buffer.UndoAt older undo newer)
      (heq : undo.data = buffer.text)

theorem edit_ready (hready : buffer.Ready undoMax) (hchanged : changed.Consistent)
    (h : (guiBufferUndoAdd env ((guiBufferUndoSnap env buffer).change changed)).UndoAt older undo newer)
    (hmem : ∀ old ∈ older ++ undo :: newer, old ∈ buffer.inputUndo ∨ old = ⟨buffer.text, buffer.inputBufferPos⟩)
    (hlength : (older ++ undo :: newer).length ≤ undoMax + 1) :
    (guiBufferUndoAdd env ((guiBufferUndoSnap env buffer).change changed)).Ready undoMax := by
  obtain ⟨chars, hchars⟩ := hready.chars
  refine ⟨edit_chars hready hchanged, ?_, ?_⟩
  · intro old hold
    rw [h.list] at hold
    rcases hmem old hold with hold | rfl
    · exact hready.valid old hold
    · exact hchars.consistent.valid
  · rw [h.list]
    exact hlength

theorem edit_same_ready (hkeeps : env.Keeps undoMax) (hmax : 1 ≤ undoMax) (hready : buffer.Ready undoMax)
    (hchanged : changed.Consistent) (heq : changed.text = buffer.text) :
    (guiBufferUndoAdd env ((guiBufferUndoSnap env buffer).change changed)).Ready undoMax := by
  refine ⟨edit_chars hready hchanged, ?_, ?_⟩
  · rw [edit_same hkeeps hmax heq]
    exact hready.valid
  · rw [edit_same hkeeps hmax heq]
    exact hready.length

/-- An edit that changes the content makes the content before it the last undo, whatever was undone before. -/
theorem edit_adds (hkeeps : env.Keeps undoMax) (hmax : 1 ≤ undoMax) (hready : buffer.Ready undoMax)
    (hshape : buffer.UndoShape) (hchanged : changed.Consistent) (hne : changed.text ≠ buffer.text) :
    (guiBufferUndoAdd env ((guiBufferUndoSnap env buffer).change changed)).Ready undoMax ∧
      ∃ kept undo, (guiBufferUndoAdd env ((guiBufferUndoSnap env buffer).change changed)).UndoAt kept undo [] ∧
        undo.data = buffer.text := by
  cases hshape with
  | none h =>
    have hadd := edit_noUndo hkeeps hmax h hne
    refine ⟨edit_ready hready hchanged hadd ?_ (by simp only [List.nil_append, List.length_singleton]; omega),
      _, _, hadd, rfl⟩
    intro old hold
    exact .inr (List.mem_singleton.mp hold)
  | edited older undo h hundo =>
    have hadd := edit_edited hkeeps hmax hready h hundo hne
    refine ⟨edit_ready hready hchanged hadd ?_ ?_, _, _, hadd, rfl⟩
    · intro old hold
      rw [List.mem_append, List.mem_singleton] at hold
      exact hold.imp_left fun hold => (withoutOldest_suffix _ _).subset hold
    · have := withoutOldest_length hready.length
      rw [List.length_append, List.length_singleton]
      omega
  | «at» older undo newer h hundo =>
    by_cases hcut : newer = [] ∨ buffer.inputUndo.length ≠ undoMax + 1 ∨ older ≠ []
    · obtain ⟨kept, hkept, hlength, hadd⟩ := edit_at hkeeps hmax hready h hundo hne hcut
      refine ⟨edit_ready hready hchanged hadd ?_ (Nat.le_succ_of_le hlength), _, _, hadd, hundo⟩
      intro old hold
      rw [List.mem_append, List.mem_singleton] at hold
      refine .inl ?_
      rw [h.list, List.mem_append, List.mem_cons]
      exact hold.imp (hkept.subset ·) .inl
    · push Not at hcut
      obtain ⟨hnewer, hfull, rfl⟩ := hcut
      obtain ⟨next, newer, rfl⟩ := List.exists_cons_of_ne_nil hnewer
      have hnext : next ∈ buffer.inputUndo := by
        rw [h.list]
        exact List.mem_cons_of_mem _ (List.mem_cons_self ..)
      have hadd := edit_oldest hkeeps hmax h hne hfull
      split at hadd
      · rename_i heq
        refine ⟨edit_ready hready hchanged hadd ?_ (by simp only [List.nil_append, List.length_singleton]; omega),
          _, _, hadd, heq⟩
        intro old hold
        exact .inl (List.mem_singleton.mp hold ▸ hnext)
      · refine ⟨edit_ready hready hchanged hadd ?_ (Nat.succ_le_succ hmax), _, _, hadd, rfl⟩
        intro old hold
        rw [List.mem_append, List.mem_singleton, List.mem_singleton] at hold
        refine hold.imp_left fun heq => ?_
        rw [heq]
        exact hnext

/-- Any step keeps the list of undos. -/
theorem guiUndoStep_shape {step : GuiInputEnv × GuiUndoOp} (hkeeps : step.1.Keeps undoMax) (hmax : 1 ≤ undoMax)
    (hlegal : step.2.Legal) (hready : buffer.Ready undoMax) (hshape : buffer.UndoShape) :
    ∃ buffer', guiUndoStep buffer step = some buffer' ∧ buffer'.Ready undoMax ∧ buffer'.UndoShape := by
  obtain ⟨env, op⟩ := step
  cases op with
  | edit changed =>
    refine ⟨_, rfl, ?_⟩
    by_cases heq : changed.text = buffer.text
    · refine ⟨edit_same_ready hkeeps hmax hready hlegal heq, ?_⟩
      rw [edit_same hkeeps hmax heq]
      cases hshape with
      | none h => exact .none ⟨h.list, h.ptr, h.count⟩
      | edited older undo h hundo => exact .edited older undo ⟨h.list, h.ptr, h.count⟩ fun hnew => hundo (hnew.trans heq)
      | «at» older undo newer h hundo => exact .at older undo newer ⟨h.list, h.ptr, h.count⟩ (hundo.trans heq.symm)
    · obtain ⟨hready', kept, undo, hadd, hundo⟩ := edit_adds hkeeps hmax hready hshape hlegal heq
      refine ⟨hready', .edited kept undo hadd ?_⟩
      rw [edit_text, hundo]
      exact fun hsame => heq hsame.symm
  | undo =>
    show ∃ buffer', guiInputUndo env buffer = some buffer' ∧ _
    cases hshape with
    | none h => exact ⟨buffer, undo_noUndo h, hready, .none h⟩
    | edited older undo h hundo =>
      obtain ⟨kept, buffer', -, heq, hready', hat, htext⟩ := undo_edited hkeeps hmax hready h hundo
      exact ⟨buffer', heq, hready', .at _ _ _ hat htext.symm⟩
    | «at» older undo newer h hundo =>
      rcases List.eq_nil_or_concat older with rfl | ⟨older, previous, rfl⟩
      · exact ⟨buffer, undo_oldest h hundo, hready, .at _ _ _ h hundo⟩
      · rw [List.concat_eq_append] at h
        obtain ⟨buffer', heq, hready', hat, htext⟩ := undo_previous hkeeps hready h hundo
        exact ⟨buffer', heq, hready', .at _ _ _ hat htext.symm⟩
  | redo =>
    show ∃ buffer', guiInputRedo env buffer = some buffer' ∧ _
    cases hshape with
    | none h => exact ⟨buffer, redo_noUndo h, hready, .none h⟩
    | edited older undo h hundo => exact ⟨buffer, redo_last h, hready, .edited _ _ h hundo⟩
    | «at» older undo newer h hundo =>
      cases newer with
      | nil => exact ⟨buffer, redo_last h, hready, .at _ _ _ h hundo⟩
      | cons next newer =>
        obtain ⟨buffer', heq, hready', hat, htext⟩ := redo_next hkeeps hready h
        exact ⟨buffer', heq, hready', .at _ _ _ hat htext.symm⟩

/-! ## Edits in a row -/

/-- As long as the list has room for them, `es` is at its end. -/
theorem withoutOldest_append (undos : List GuiInputUndo) {es : List GuiInputUndo} (h : es.length ≤ undoMax) :
    ∃ kept, withoutOldest undoMax (undos ++ es) = kept ++ es := by
  rw [withoutOldest]
  split
  · rename_i hfull
    cases undos with
    | nil =>
      rw [List.nil_append] at hfull
      omega
    | cons first undos => exact ⟨undos, rfl⟩
  · exact ⟨undos, rfl⟩

/-- The list ends with the undos of the edits in a row, the first of them `first`. -/
theorem edits_edited (hmax : 1 ≤ undoMax) {edits : List (GuiInputEnv × GuiInput)} (before es : List GuiInputUndo)
    {first : GuiInputUndo} (hready : buffer.Ready undoMax) (h : buffer.UndoAt older undo [])
    (hundo : undo.data ≠ buffer.text) (hlist : older ++ [undo] = before ++ first :: es)
    (hlength : (first :: es).length + edits.length ≤ undoMax)
    (hlegal : ∀ edit ∈ edits, edit.1.Keeps undoMax ∧ edit.2.Consistent)
    (hchain : (buffer.text :: edits.map fun edit => edit.2.text).IsChain (· ≠ ·)) :
    ∃ edited older' undo' before' es',
      (edits.map fun edit => (edit.1, GuiUndoOp.edit edit.2)).foldlM guiUndoStep buffer = some edited ∧
      edited.Ready undoMax ∧ edited.UndoAt older' undo' [] ∧ undo'.data ≠ edited.text ∧
      older' ++ [undo'] = before' ++ first :: es' ∧ (first :: es').length = (first :: es).length + edits.length := by
  induction edits generalizing buffer older undo before es with
  | nil => exact ⟨buffer, older, undo, before, es, rfl, hready, h, hundo, hlist, rfl⟩
  | cons edit edits ih =>
    obtain ⟨hkeeps, hconsistent⟩ := hlegal edit (List.mem_cons_self ..)
    obtain ⟨hne, hchain⟩ := List.isChain_cons_cons.mp hchain
    have hshape : buffer.UndoShape := .edited older undo h hundo
    obtain ⟨hready', -⟩ := edit_adds hkeeps hmax hready hshape hconsistent hne.symm
    have hadd := edit_edited hkeeps hmax hready h hundo hne.symm
    rw [show (edit :: edits).length = edits.length + 1 from rfl] at hlength
    obtain ⟨kept, hkept⟩ := withoutOldest_append before (show (first :: es).length ≤ undoMax by omega)
    rw [h.list, hlist, hkept] at hadd
    obtain ⟨edited, older', undo', before', es', hrun, hrest⟩ := ih kept
      (es ++ [⟨buffer.text, buffer.inputBufferPos⟩]) hready' hadd
      (by rw [edit_text]; exact hne) (List.append_assoc ..)
      (by
        simp only [List.length_cons, List.length_append, List.length_nil] at hlength ⊢
        omega)
      (fun edit' hmem => hlegal edit' (List.mem_cons_of_mem _ hmem)) (by rw [edit_text]; exact hchain)
    refine ⟨edited, older', undo', before', es', ?_, ?_⟩
    · rw [List.map_cons, List.foldlM_cons]
      exact hrun
    · simp only [List.length_cons, List.length_append, List.length_nil] at hrest ⊢
      refine ⟨hrest.1, hrest.2.1, hrest.2.2.1, hrest.2.2.2.1, ?_⟩
      omega

/-- Undos go back in the list. -/
theorem undos_at {undos : List GuiInputEnv} (hkeeps : ∀ env ∈ undos, env.Keeps undoMax) (hready : buffer.Ready undoMax)
    (h : buffer.UndoAt older undo newer) (hundo : undo.data = buffer.text) (hlength : undos.length ≤ older.length) :
    ∃ undone older' undo' newer', (undos.map fun env => (env, GuiUndoOp.undo)).foldlM guiUndoStep buffer = some undone ∧
      undone.Ready undoMax ∧ undone.UndoAt older' undo' newer' ∧ undo'.data = undone.text ∧
      older' ++ undo' :: newer' = older ++ undo :: newer ∧ older'.length + undos.length = older.length := by
  induction undos generalizing buffer older undo newer with
  | nil => exact ⟨buffer, older, undo, newer, rfl, hready, h, hundo, rfl, rfl⟩
  | cons env undos ih =>
    rcases List.eq_nil_or_concat older with rfl | ⟨older, previous, rfl⟩
    · exact absurd hlength (Nat.not_succ_le_zero _)
    · rw [List.concat_eq_append] at h hlength ⊢
      rw [List.length_cons, List.length_append, List.length_singleton] at hlength
      obtain ⟨buffer', heq, hready', hat, htext⟩ := undo_previous (hkeeps env (List.mem_cons_self ..)) hready h hundo
      obtain ⟨undone, older', undo', newer', hrun, hready'', hat', hundo', hlist, hcount⟩ :=
        ih (fun env' hmem => hkeeps env' (List.mem_cons_of_mem _ hmem)) hready' hat htext.symm (by omega)
      refine ⟨undone, older', undo', newer', ?_, hready'', hat', hundo', ?_, ?_⟩
      · rw [List.map_cons, List.foldlM_cons, show guiUndoStep buffer (env, GuiUndoOp.undo) = some buffer' from heq]
        exact hrun
      · rw [hlist, List.append_assoc, List.singleton_append]
      · rw [List.length_cons, List.length_append, List.length_singleton]
        omega

/-- Redos go forth in the list. -/
theorem redos_at {redos : List GuiInputEnv} (hkeeps : ∀ env ∈ redos, env.Keeps undoMax) (hready : buffer.Ready undoMax)
    (h : buffer.UndoAt older undo newer) (hundo : undo.data = buffer.text) (hlength : redos.length ≤ newer.length) :
    ∃ redone older' undo' newer', (redos.map fun env => (env, GuiUndoOp.redo)).foldlM guiUndoStep buffer = some redone ∧
      redone.UndoAt older' undo' newer' ∧ undo'.data = redone.text ∧
      older' ++ undo' :: newer' = older ++ undo :: newer ∧ older'.length = older.length + redos.length := by
  induction redos generalizing buffer older undo newer with
  | nil => exact ⟨buffer, older, undo, newer, rfl, h, hundo, rfl, rfl⟩
  | cons env redos ih =>
    cases newer with
    | nil => exact absurd hlength (Nat.not_succ_le_zero _)
    | cons next newer =>
      obtain ⟨buffer', heq, hready', hat, htext⟩ := redo_next (hkeeps env (List.mem_cons_self ..)) hready h
      obtain ⟨redone, older', undo', newer', hrun, hat', hundo', hlist, hcount⟩ :=
        ih (fun env' hmem => hkeeps env' (List.mem_cons_of_mem _ hmem)) hready' hat htext.symm
          (Nat.le_of_succ_le_succ hlength)
      refine ⟨redone, older', undo', newer', ?_, hat', hundo', ?_, ?_⟩
      · rw [List.map_cons, List.foldlM_cons, show guiUndoStep buffer (env, GuiUndoOp.redo) = some buffer' from heq]
        exact hrun
      · rw [hlist, List.append_assoc, List.singleton_append]
      · rw [hcount, List.length_append, List.length_singleton, List.length_cons]
        omega

theorem undoesEdits (hmax : 1 ≤ undoMax) (hready : buffer.Ready undoMax) (hshape : buffer.UndoShape) :
    UndoesEdits undoMax buffer := by
  intro edits undos redos hlength hundos hredos hlegal hkeeps hchain
  cases edits with
  | nil =>
    obtain rfl := List.length_eq_zero_iff.mp hundos
    obtain rfl := List.length_eq_zero_iff.mp hredos
    exact ⟨buffer, buffer, buffer, rfl, rfl, rfl, rfl, rfl⟩
  | cons edit edits =>
    obtain ⟨hkeepsEdit, hconsistent⟩ := hlegal edit (List.mem_cons_self ..)
    obtain ⟨hne, hchain⟩ := List.isChain_cons_cons.mp hchain
    obtain ⟨hready1, kept, first, hadd, hfirst⟩ := edit_adds hkeepsEdit hmax hready hshape hconsistent hne.symm
    rw [List.length_cons] at hlength hundos hredos
    obtain ⟨edited, older, undo, before, es, hedits, hready2, hat, hundo, hlist, hcount⟩ :=
      edits_edited hmax kept [] hready1 hadd (by rw [edit_text, hfirst]; exact hne) rfl
        (by rw [List.length_singleton]; omega) (fun edit' hmem => hlegal edit' (List.mem_cons_of_mem _ hmem))
        (by rw [edit_text]; exact hchain)
    rw [List.length_singleton] at hcount
    -- the first undo adds the last content
    obtain ⟨env, undos, rfl⟩ := List.exists_cons_of_length_eq_add_one hundos
    have hkeepsUndo : ∀ env' ∈ env :: undos, env'.Keeps undoMax := fun env' hmem =>
      hkeeps env' (List.mem_append_left _ hmem)
    obtain ⟨last, buffer3, hlast, hundo3, hready3, hat3, htext3⟩ :=
      undo_edited (hkeepsUndo env (List.mem_cons_self ..)) hmax hready2 hat hundo
    obtain ⟨before', hbefore'⟩ := withoutOldest_append before (show (first :: es).length ≤ undoMax by omega)
    rw [hat.list, hlist, hbefore'] at hlast
    have hlastLength : last.length = before'.length + edits.length := by
      have hboth := congrArg List.length hlast
      simp only [List.length_append, List.length_cons, List.length_nil] at hboth hcount
      omega
    rw [List.length_cons] at hundos
    obtain ⟨undone, older4, undo4, newer4, hundos4, hready4, hat4, htext4, hlist4, hcount4⟩ :=
      undos_at (fun env' hmem => hkeepsUndo env' (List.mem_cons_of_mem _ hmem)) hready3 hat3 htext3.symm (by omega)
    have hwhole : older4 ++ undo4 :: newer4 = before' ++ first :: es ++ [⟨edited.text, edited.inputBufferPos⟩] := by
      rw [hlist4, hlast, List.append_assoc, List.singleton_append]
    rw [List.append_assoc, List.cons_append] at hwhole
    obtain ⟨-, hcons⟩ := List.append_inj hwhole (by omega)
    obtain ⟨hundo4, hnewer4⟩ := List.cons.inj hcons
    obtain ⟨redone, older5, undo5, newer5, hredos5, hat5, htext5, hlist5, hcount5⟩ :=
      redos_at (fun env' hmem => hkeeps env' (List.mem_append_right _ hmem)) hready4 hat4 htext4
        (by rw [hnewer4, List.length_append, List.length_singleton]; rw [List.length_cons] at hcount; omega)
    have hend : older5 ++ undo5 :: newer5 =
        (before' ++ first :: es) ++ [⟨edited.text, edited.inputBufferPos⟩] := by
      rw [hlist5, hlist4, hlast, List.append_assoc, List.singleton_append]
    obtain ⟨-, hcons5⟩ := List.append_inj hend (by
      rw [List.length_append]
      omega)
    refine ⟨edited, undone, redone, ?_, ?_, hredos5, ?_, ?_⟩
    · rw [List.map_cons, List.foldlM_cons]
      exact hedits
    · rw [List.map_cons, List.foldlM_cons, show guiUndoStep edited (env, GuiUndoOp.undo) = some buffer3 from hundo3]
      exact hundos4
    · rw [← htext4, hundo4, hfirst]
    · rw [← htext5, (List.cons.inj hcons5).1]

/-! ## The branch -/

/-- The list of undos is on the branch: what is older than the current content, and what was undone. -/
inductive UndoesOnBranch (undoMax : Nat) (buffer : GuiInput) (branch : EditBranch) : Prop
  | none (h : buffer.NoUndo) (hfuture : branch.future = [])
  | edited (older : List GuiInputUndo) (undo : GuiInputUndo) (h : buffer.UndoAt older undo [])
      (hne : undo.data ≠ buffer.text) (hfuture : branch.future = [])
      (hpast : ((withoutOldest undoMax buffer.inputUndo).map GuiInputUndo.data).reverse <+: branch.past)
  | at (older : List GuiInputUndo) (undo : GuiInputUndo) (newer : List GuiInputUndo) (h : buffer.UndoAt older undo newer)
      (heq : undo.data = buffer.text) (hfuture : newer.map GuiInputUndo.data = branch.future)
      (hpast : (older.map GuiInputUndo.data).reverse <+: branch.past)

/-- The input has the content of the branch, whose contents next to each other are not the same. -/
structure OnBranch (undoMax : Nat) (buffer : GuiInput) (branch : EditBranch) : Prop where
  ready : buffer.Ready undoMax
  current : branch.current = buffer.text
  past : (branch.current :: branch.past).IsChain (· ≠ ·)
  future : (branch.current :: branch.future).IsChain (· ≠ ·)
  undos : UndoesOnBranch undoMax buffer branch

theorem OnBranch.shape {branch : EditBranch} (h : OnBranch undoMax buffer branch) : buffer.UndoShape := by
  cases h.undos with
  | none h _ => exact .none h
  | edited older undo h hne _ _ => exact .edited older undo h hne
  | «at» older undo newer h heq _ _ => exact .at older undo newer h heq

theorem isPrefix_reverse_map {undos kept : List GuiInputUndo} (h : kept <:+ undos) :
    (kept.map GuiInputUndo.data).reverse <+: (undos.map GuiInputUndo.data).reverse :=
  List.reverse_prefix.mpr (h.map _)

/-- An edit keeps to the branch, unless it is made at the oldest undo of a full list. -/
theorem edit_onBranch {branch : EditBranch} (hkeeps : env.Keeps undoMax) (hmax : 1 ≤ undoMax)
    (h : OnBranch undoMax buffer branch) (hchanged : changed.Consistent)
    (holdest : EditKeepsOldest undoMax buffer (.edit changed)) :
    (branch.edit changed.text).current = changed.text ∧
      OnBranch undoMax (guiBufferUndoAdd env ((guiBufferUndoSnap env buffer).change changed)) (branch.edit changed.text) := by
  by_cases heq : changed.text = buffer.text
  · rw [EditBranch.edit, if_pos (heq.trans h.current.symm)]
    refine ⟨h.current.trans heq.symm, edit_same_ready hkeeps hmax h.ready hchanged heq,
      h.current.trans (edit_text.trans heq).symm, h.past, h.future, ?_⟩
    rw [edit_same hkeeps hmax heq]
    cases h.undos with
    | none hno hfuture => exact .none ⟨hno.list, hno.ptr, hno.count⟩ hfuture
    | edited older undo hat hne hfuture hpast =>
      exact .edited older undo ⟨hat.list, hat.ptr, hat.count⟩ (fun hnew => hne (hnew.trans heq)) hfuture hpast
    | «at» older undo newer hat hundo hfuture hpast =>
      exact .at older undo newer ⟨hat.list, hat.ptr, hat.count⟩ (hundo.trans heq.symm) hfuture hpast
  · obtain ⟨hready, -⟩ := edit_adds hkeeps hmax h.ready h.shape hchanged heq
    rw [EditBranch.edit, if_neg fun hsame => heq (hsame.trans h.current)]
    refine ⟨rfl, hready, edit_text.symm, ?_, .singleton _, ?_⟩
    · exact List.isChain_cons_cons.mpr ⟨fun hsame => heq (hsame.trans h.current), h.past⟩
    · cases h.undos with
      | none hno hfuture =>
        have hadd := edit_noUndo hkeeps hmax hno heq
        refine .edited _ _ hadd (fun hsame => heq (hsame.trans edit_text).symm) rfl ?_
        refine (isPrefix_reverse_map (withoutOldest_suffix _ _)).trans ?_
        rw [hadd.list, h.current]
        exact List.cons_prefix_cons.mpr ⟨rfl, List.nil_prefix⟩
      | edited older undo hat hne hfuture hpast =>
        have hadd := edit_edited hkeeps hmax h.ready hat hne heq
        refine .edited _ _ hadd (fun hsame => heq (hsame.trans edit_text).symm) rfl ?_
        refine (isPrefix_reverse_map (withoutOldest_suffix _ _)).trans ?_
        rw [hadd.list, List.map_append, List.reverse_append, h.current]
        exact List.cons_prefix_cons.mpr ⟨rfl, hpast⟩
      | «at» older undo newer hat hundo hfuture hpast =>
        by_cases hcut : newer = [] ∨ buffer.inputUndo.length ≠ undoMax + 1 ∨ older ≠ []
        · obtain ⟨kept, hkept, hlength, hadd⟩ := edit_at hkeeps hmax h.ready hat hundo heq hcut
          refine .edited _ _ hadd (fun hsame => heq (hundo.symm.trans (hsame.trans edit_text)).symm) rfl ?_
          refine (isPrefix_reverse_map (withoutOldest_suffix _ _)).trans ?_
          rw [hadd.list, List.map_append, List.reverse_append, h.current, ← hundo]
          exact List.cons_prefix_cons.mpr ⟨rfl, (isPrefix_reverse_map hkept).trans hpast⟩
        · push Not at hcut
          obtain ⟨hnewer, hfull, rfl⟩ := hcut
          obtain ⟨next, newer, rfl⟩ := List.exists_cons_of_ne_nil hnewer
          -- there is room for one content only, so the wrong one is dropped before it is used
          have hone : undoMax = 1 := by
            rcases holdest with hsame | hone | hlist | hptr
            · exact absurd hsame heq
            · exact hone
            · exact absurd hfull hlist
            · exact absurd hat.ptr hptr
          have hadd := edit_oldest hkeeps hmax hat heq hfull
          have hnext : next.data ≠ buffer.text := fun hsame => by
            have hchain := h.future
            rw [← hfuture, List.map_cons, List.isChain_cons_cons] at hchain
            exact hchain.1 (h.current.trans hsame.symm)
          rw [if_neg hnext] at hadd
          refine .edited _ _ hadd (fun hsame => heq (hsame.trans edit_text).symm) rfl ?_
          rw [withoutOldest, hadd.list, hone, if_pos (by exact rfl), h.current]
          exact List.cons_prefix_cons.mpr ⟨rfl, List.nil_prefix⟩

/-- The input goes back to the content before the current one on the branch. -/
theorem OnBranch.back {branch : EditBranch} {buffer' : GuiInput} {content : CStr} {rest : List CStr}
    (h : OnBranch undoMax buffer branch) (hpast : content :: rest <+: branch.past) (hready : buffer'.Ready undoMax)
    (htext : buffer'.text = content)
    (hundos : ∀ past, rest <+: past → UndoesOnBranch undoMax buffer' ⟨past, content, branch.current :: branch.future⟩) :
    buffer'.text ≠ buffer.text ∧ OnBranch undoMax buffer' branch.undo := by
  obtain ⟨past, hpast⟩ := hpast
  rw [List.cons_append] at hpast
  have hchain := h.past
  rw [← hpast, List.isChain_cons_cons] at hchain
  have hundo : branch.undo = ⟨rest ++ past, content, branch.current :: branch.future⟩ := by
    rw [EditBranch.undo, ← hpast]
  rw [hundo]
  refine ⟨?_, hready, htext.symm, hchain.2, List.isChain_cons_cons.mpr ⟨hchain.1.symm, h.future⟩,
    hundos _ (List.prefix_append _ _)⟩
  rw [htext, ← h.current]
  exact hchain.1.symm

/-- An undo goes back on the branch, or nowhere. -/
theorem undo_onBranch {branch : EditBranch} (hkeeps : env.Keeps undoMax) (hmax : 1 ≤ undoMax)
    (h : OnBranch undoMax buffer branch) :
    ∃ buffer', guiInputUndo env buffer = some buffer' ∧
      (buffer' = buffer ∨ (buffer'.text ≠ buffer.text ∧ OnBranch undoMax buffer' branch.undo)) := by
  cases h.undos with
  | none hno hfuture => exact ⟨buffer, undo_noUndo hno, .inl rfl⟩
  | edited older undo hat hne hfuture hpast =>
    obtain ⟨kept, buffer', hkept, heq, hready, hat', htext⟩ := undo_edited hkeeps hmax h.ready hat hne
    rw [hkept, List.map_append, List.reverse_append] at hpast
    refine ⟨buffer', heq, .inr (h.back hpast hready htext fun past hrest => ?_)⟩
    exact .at _ _ _ hat' htext.symm (by rw [hfuture, h.current]; rfl) hrest
  | «at» older undo newer hat hundo hfuture hpast =>
    rcases List.eq_nil_or_concat older with rfl | ⟨older, previous, rfl⟩
    · exact ⟨buffer, undo_oldest hat hundo, .inl rfl⟩
    · rw [List.concat_eq_append] at hat hpast
      rw [List.map_append, List.reverse_append] at hpast
      obtain ⟨buffer', heq, hready, hat', htext⟩ := undo_previous hkeeps h.ready hat hundo
      refine ⟨buffer', heq, .inr (h.back hpast hready htext fun past hrest => ?_)⟩
      exact .at _ _ _ hat' htext.symm (by rw [List.map_cons, hfuture, hundo, h.current]) hrest

/-- A redo goes forth on the branch, or nowhere. -/
theorem redo_onBranch {branch : EditBranch} (hkeeps : env.Keeps undoMax) (h : OnBranch undoMax buffer branch) :
    ∃ buffer', guiInputRedo env buffer = some buffer' ∧
      (buffer' = buffer ∨ (buffer'.text ≠ buffer.text ∧ OnBranch undoMax buffer' branch.redo)) := by
  cases h.undos with
  | none hno hfuture => exact ⟨buffer, redo_noUndo hno, .inl rfl⟩
  | edited older undo hat hne hfuture hpast => exact ⟨buffer, redo_last hat, .inl rfl⟩
  | «at» older undo newer hat hundo hfuture hpast =>
    cases newer with
    | nil => exact ⟨buffer, redo_last hat, .inl rfl⟩
    | cons next newer =>
      obtain ⟨buffer', heq, hready, hat', htext⟩ := redo_next hkeeps h.ready hat
      rw [List.map_cons] at hfuture
      have hchain := h.future
      rw [← hfuture, List.isChain_cons_cons] at hchain
      have hredo : branch.redo = ⟨branch.current :: branch.past, next.data, newer.map GuiInputUndo.data⟩ := by
        rw [EditBranch.redo, ← hfuture]
      refine ⟨buffer', heq, .inr ⟨?_, ?_⟩⟩
      · rw [htext, ← h.current]
        exact hchain.1.symm
      · rw [hredo]
        refine ⟨hready, htext.symm, List.isChain_cons_cons.mpr ⟨hchain.1.symm, h.past⟩, hchain.2, ?_⟩
        refine .at _ _ _ hat' htext.symm rfl ?_
        rw [List.map_append, List.reverse_append, h.current, ← hundo]
        exact List.cons_prefix_cons.mpr ⟨rfl, hpast⟩

/-- A step keeps to the branch, if it is no edit at the oldest undo of a full list. -/
theorem guiUndoStep_onBranch {branch : EditBranch} {step : GuiInputEnv × GuiUndoOp} (hkeeps : step.1.Keeps undoMax)
    (hmax : 1 ≤ undoMax) (hlegal : step.2.Legal) (holdest : EditKeepsOldest undoMax buffer step.2)
    (h : OnBranch undoMax buffer branch) :
    ∃ buffer', guiUndoStep buffer step = some buffer' ∧ OnBranch undoMax buffer' (branch.next step.2 buffer'.text) := by
  obtain ⟨env, op⟩ := step
  cases op with
  | edit changed =>
    refine ⟨_, rfl, ?_⟩
    rw [edit_text]
    exact (edit_onBranch hkeeps hmax h hlegal holdest).2
  | undo =>
    obtain ⟨buffer', heq, rfl | ⟨hne, hback⟩⟩ := undo_onBranch hkeeps hmax h
    · refine ⟨buffer', heq, ?_⟩
      rwa [EditBranch.next, if_pos h.current.symm]
    · refine ⟨buffer', heq, ?_⟩
      rwa [EditBranch.next, if_neg (fun hsame => hne (hsame.trans h.current))]
  | redo =>
    obtain ⟨buffer', heq, rfl | ⟨hne, hforth⟩⟩ := redo_onBranch hkeeps h
    · refine ⟨buffer', heq, ?_⟩
      rwa [EditBranch.next, if_pos h.current.symm]
    · refine ⟨buffer', heq, ?_⟩
      rwa [EditBranch.next, if_neg (fun hsame => hne (hsame.trans h.current))]

theorem staysOnBranch {branch : EditBranch} {steps : List (GuiInputEnv × GuiUndoOp)} (hmax : 1 ≤ undoMax)
    (hlegal : ∀ step ∈ steps, step.1.Keeps undoMax ∧ step.2.Legal)
    (holdest : EditsKeepOldest undoMax buffer steps) (h : OnBranch undoMax buffer branch) :
    StaysOnBranch buffer branch steps := by
  induction steps generalizing buffer branch with
  | nil => exact trivial
  | cons step steps ih =>
    obtain ⟨hkeeps, hstep⟩ := hlegal step (List.mem_cons_self ..)
    obtain ⟨buffer', heq, h'⟩ := guiUndoStep_onBranch hkeeps hmax hstep holdest.1 h
    exact ⟨buffer', heq, h'.current,
      ih (fun step' hmem => hlegal step' (List.mem_cons_of_mem _ hmem)) (holdest.2 buffer' heq) h'⟩

theorem guiUndo_run_shape {steps : List (GuiInputEnv × GuiUndoOp)} (hmax : 1 ≤ undoMax)
    (hlegal : ∀ step ∈ steps, step.1.Keeps undoMax ∧ step.2.Legal) (hready : buffer.Ready undoMax)
    (hshape : buffer.UndoShape) :
    ∃ final, steps.foldlM guiUndoStep buffer = some final ∧ final.Ready undoMax ∧ final.UndoShape := by
  induction steps generalizing buffer with
  | nil => exact ⟨buffer, rfl, hready, hshape⟩
  | cons step steps ih =>
    obtain ⟨hkeeps, hstep⟩ := hlegal step (List.mem_cons_self ..)
    obtain ⟨buffer', heq, hready', hshape'⟩ := guiUndoStep_shape hkeeps hmax hstep hready hshape
    rw [List.foldlM_cons, heq]
    exact ih (fun step' hmem => hlegal step' (List.mem_cons_of_mem _ hmem)) hready' hshape'

end

/-- Edits in a row are always undone and redone; undos and redos keep to the branch in
a run without an edit at the oldest undo of a full list. -/
theorem guiUndo_followsBranch {undoMax : Nat} (hmax : 1 ≤ undoMax) {buffer : GuiInput} (hinput : buffer.input = true)
    (hconsistent : buffer.Consistent) (hno : buffer.NoUndo) (steps : List (GuiInputEnv × GuiUndoOp))
    (hlegal : ∀ step ∈ steps, step.1.Keeps undoMax ∧ step.2.Legal) :
    (∃ final, steps.foldlM guiUndoStep buffer = some final ∧ UndoesEdits undoMax final) ∧
      (EditsKeepOldest undoMax buffer steps → StaysOnBranch buffer ⟨[], buffer.text, []⟩ steps) := by
  obtain ⟨chars, hchars⟩ := hconsistent.exists_chars hinput
  have hready : buffer.Ready undoMax := by
    refine ⟨⟨chars, hchars⟩, ?_, ?_⟩
    · rw [hno.list]
      exact nofun
    · rw [hno.list]
      exact Nat.zero_le _
  constructor
  · obtain ⟨final, hrun, hready', hshape⟩ := guiUndo_run_shape hmax hlegal hready (.none hno)
    exact ⟨final, hrun, undoesEdits hmax hready' hshape⟩
  · intro holdest
    exact staysOnBranch hmax hlegal holdest
      ⟨hready, rfl, .singleton _, .singleton _, .none hno rfl⟩

/-- An input with one letter. -/
def letterInput (letter : Byte) : GuiInput where
  input := true
  inputBuffer := letter :: List.replicate 255 0
  inputBufferAlloc := 256
  inputBufferSize := 1
  inputBufferLength := 1
  inputBufferPos := 1
  inputUndoSnap := none
  inputUndo := []
  ptrInputUndo := none
  inputUndoCount := 0

theorem letterInput_consistent : ∀ letter ∈ [97, 98, 100], (letterInput letter).Consistent := by
  have hall : ∀ letter ∈ [97, 98, 100],
      utf8IsValid (letterInput letter).text = none ∧ (letterInput letter).text.1.length = 1 ∧
        utf8Strlen (letterInput letter).text = 1 := by decide +kernel
  have hsizes : (1 : Int) < 256 ∧ (0 : Int) ≤ 1 ∧ (1 : Int) ≤ 1 := by decide
  intro letter hmem
  obtain ⟨hvalid, hsize, hlength⟩ := hall letter hmem
  have hmemory : (letterInput letter).inputBuffer.length = 256 := by
    rw [letterInput, List.length_cons, List.length_replicate]
  exact ⟨congrArg Nat.cast hmemory, hvalid, congrArg Nat.cast hsize.symm, hsizes.1,
    congrArg Nat.cast hlength.symm, hsizes.2.1, hsizes.2.2⟩

/-- Two edits, which are undone, another edit, and two undos. -/
def undoneEdits : List (GuiInputEnv × GuiUndoOp) :=
  [.edit (letterInput 97), .edit (letterInput 98), .undo, .undo, .edit (letterInput 100), .undo, .undo].map
    (⟨fun _ => 0, fun _ => true, 2, false, fun _ => none⟩, ·)

theorem undoneEdits_legal : ∀ step ∈ undoneEdits, step.1.Keeps 2 ∧ step.2.Legal := by
  have hkeeps : GuiInputEnv.Keeps ⟨fun _ => 0, fun _ => true, 2, false, fun _ => none⟩ 2 := ⟨rfl, fun _ => .inl rfl⟩
  intro step hstep
  obtain ⟨op, hop, rfl⟩ := List.mem_map.mp hstep
  refine ⟨hkeeps, ?_⟩
  simp only [List.mem_cons, List.not_mem_nil, or_false] at hop
  rcases hop with rfl | rfl | rfl | rfl | rfl | rfl | rfl
  · exact letterInput_consistent 97 (by decide)
  · exact letterInput_consistent 98 (by decide)
  · trivial
  · trivial
  · exact letterInput_consistent 100 (by decide)
  · trivial
  · trivial

/-- Up to the last edit, undos and redos keep to the branch. -/
theorem guiUndo_followsBranch_undone :
    (∃ final, (undoneEdits.take 4).foldlM guiUndoStep (guiBufferInputBufferInit fun _ => 0) = some final ∧
      UndoesEdits 2 final) ∧
    StaysOnBranch (guiBufferInputBufferInit fun _ => 0) ⟨[], (guiBufferInputBufferInit fun _ => 0).text, []⟩
      (undoneEdits.take 4) := by
  have hrun := guiUndo_followsBranch (show 1 ≤ 2 by decide) rfl (guiBufferInputBufferInit_consistent fun _ => 0).1
    ⟨rfl, rfl, rfl⟩ (undoneEdits.take 4) fun step hstep => undoneEdits_legal step (List.mem_of_mem_take hstep)
  exact ⟨hrun.1, hrun.2 (by decide +kernel)⟩

/-- The content of the first edit, which was undone before the last one, comes back. -/
theorem guiUndo_followsBranch_fails :
    (guiBufferInputBufferInit fun _ => 0).Consistent ∧ (guiBufferInputBufferInit fun _ => 0).NoUndo ∧
      (∀ step ∈ undoneEdits, step.1.Keeps 2 ∧ step.2.Legal) ∧
      ¬ StaysOnBranch (guiBufferInputBufferInit fun _ => 0) ⟨[], (guiBufferInputBufferInit fun _ => 0).text, []⟩
        undoneEdits :=
  ⟨(guiBufferInputBufferInit_consistent _).1, ⟨rfl, rfl, rfl⟩, undoneEdits_legal, by decide +kernel⟩

end Wirc

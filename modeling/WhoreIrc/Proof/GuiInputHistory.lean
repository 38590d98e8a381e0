import WhoreIrc.Spec.GuiInput

/-!
# Browsing a history changes nothing (`history_browse`)

The input is the text of the entry that is pointed, so what is written in place of the
text of this entry is the same text (`setData_self`), and an empty input is not added.
-/

namespace Wirc

open Framework

variable {Buffer : Type} [DecidableEq Buffer] {maxCommands : Int} {buffer : Buffer} {owner : GuiHistoryOwner Buffer}
  {state state0 : GuiHistories Buffer} {xs : List (Addr × Str)}

theorem setData_self {memory : Heap Str} {a : Addr} {node : Node Str} (h : memory a = some node) :
    memory.setData a node.data = memory := by
  rw [Heap.setData, Heap.modify, h]
  exact Function.update_eq_self_iff.mpr h.symm

/-- The histories are those of `state0`, with the entries `xs`, and one of them may be pointed. -/
structure Browsing (buffer : Buffer) (owner : GuiHistoryOwner Buffer) (xs : List (Addr × Str))
    (state0 state : GuiHistories Buffer) : Prop where
  browsed : HistoryBrowsed buffer owner state0 state
  ptr : ∀ a, (state.lists owner).ptrHistory = some a → a ∈ addrs xs

/-- An entry is shown. -/
theorem Browsing.show_entry (h : Browsing buffer owner xs state0 state) {a : Addr} {node : Node Str}
    (ha : a ∈ addrs xs) (hnode : state.memory a = some node) :
    Browsing buffer owner xs state0 ((state.setPtr owner (some a)).setInput buffer node.data) := by
  have hlist : ((state.setPtr owner (some a)).setInput buffer node.data).lists owner =
      { state.lists owner with ptrHistory := some a } := Function.update_self ..
  constructor
  case browsed =>
    constructor
    case memory => exact h.browsed.memory
    case ends =>
      rw [hlist]
      exact h.browsed.ends
    case count =>
      rw [hlist]
      exact h.browsed.count
    case others =>
      intro other hother
      exact (Function.update_of_ne hother ..).trans (h.browsed.others other hother)
    case input =>
      rw [pointedText, hlist]
      show Function.update state.inputBuffer buffer node.data buffer =
        ((((some a).bind state.memory).map Node.data).getD [])
      rw [Function.update_self, Option.bind_some, hnode]
      rfl
  case ptr =>
    intro b hb
    rw [hlist] at hb
    cases hb
    exact ha

/-- No entry is shown. -/
theorem Browsing.show_none (h : Browsing buffer owner xs state0 state) :
    Browsing buffer owner xs state0 ((state.setPtr owner none).setInput buffer []) := by
  have hlist : ((state.setPtr owner none).setInput buffer []).lists owner =
      { state.lists owner with ptrHistory := none } := Function.update_self ..
  constructor
  case browsed =>
    constructor
    case memory => exact h.browsed.memory
    case ends =>
      rw [hlist]
      exact h.browsed.ends
    case count =>
      rw [hlist]
      exact h.browsed.count
    case others =>
      intro other hother
      exact (Function.update_of_ne hother ..).trans (h.browsed.others other hother)
    case input =>
      rw [pointedText, hlist]
      exact Function.update_self ..
  case ptr =>
    intro b hb
    rw [hlist] at hb
    cases hb

theorem previous_eq {env : GuiHistoryAddEnv} {a : Addr} {node : Node Str} (hinput : state.input buffer = true)
    (hptr : guiInputHistoryPreviousPtr state owner = some (some a)) (hnode : state.memory a = some node)
    (hkeep : guiInputHistoryKeep maxCommands (state.setPtr owner (some a)) buffer node.prev env =
      some (state.setPtr owner (some a))) :
    guiInputHistoryPrevious maxCommands state buffer owner env =
      some ((state.setPtr owner (some a)).setInput buffer node.data) := by
  have hlist : (state.setPtr owner (some a)).lists owner = { state.lists owner with ptrHistory := some a } :=
    Function.update_self ..
  have hmemory : (state.setPtr owner (some a)).memory a = some node := hnode
  rw [guiInputHistoryPrevious, hinput, hptr]
  simp only [Bool.not_true, Bool.false_eq_true, if_false, Option.bind_eq_bind, Option.bind_some, hmemory, hkeep, hlist]

theorem Browsing.previous (h : Browsing buffer owner xs state0 state) (hseg : Seg state0.memory none xs none)
    (hends : (state0.lists owner).ends = endsOf xs) (hne : ∀ x ∈ xs, x.2 ≠ []) (env : GuiHistoryAddEnv) :
    ∃ state', guiInputHistoryPrevious maxCommands state buffer owner env = some state' ∧
      Browsing buffer owner xs state0 state' := by
  rw [← h.browsed.memory] at hseg
  rw [← h.browsed.ends] at hends
  have hinput := h.browsed.input
  rw [pointedText] at hinput
  cases hflag : state.input buffer with
  | false =>
    refine ⟨state, ?_, h⟩
    rw [guiInputHistoryPrevious, hflag]
    rfl
  | true =>
    cases hptr : (state.lists owner).ptrHistory with
    | none =>
      rw [hptr] at hinput
      have hfirst : guiInputHistoryPreviousPtr state owner = some (firstPtr xs none) := by
        rw [guiInputHistoryPreviousPtr, hptr]
        dsimp only
        rw [hends, endsOf]
      cases xs with
      | nil =>
        refine ⟨state, ?_, h⟩
        rw [guiInputHistoryPrevious, hflag, hfirst]
        rfl
      | cons x xs =>
        -- the input is empty
        refine ⟨_, previous_eq hflag hfirst hseg.1 ?_, h.show_entry List.mem_cons_self hseg.1⟩
        rw [guiInputHistoryKeep]
        exact if_pos hinput
    | some a =>
      obtain ⟨⟨a, text⟩, hx, rfl⟩ := List.mem_map.mp (h.ptr a hptr)
      obtain ⟨before, after, hsplit⟩ := List.append_of_mem hx
      have hseg' := hseg
      rw [hsplit, seg_append] at hseg'
      have hnode := hseg'.2.1
      have hnext : guiInputHistoryPreviousPtr state owner = some (firstPtr after none) := by
        rw [guiInputHistoryPreviousPtr, hptr]
        dsimp only
        rw [hnode, Option.map_some]
      cases after with
      | nil =>
        refine ⟨state, ?_, h⟩
        rw [guiInputHistoryPrevious, hflag, hnext]
        rfl
      | cons y after =>
        -- the input is the text of the entry before the one that is recalled
        have htext : state.inputBuffer buffer = text := by
          rw [hinput, hptr, Option.bind_some, hnode]
          rfl
        have hy : y ∈ xs := hsplit ▸ List.mem_append_right _ (List.mem_cons_of_mem _ List.mem_cons_self)
        refine ⟨_, previous_eq hflag hnext hseg'.2.2.1 ?_, h.show_entry (List.mem_map_of_mem hy) hseg'.2.2.1⟩
        have hsame : state.memory.setData a text = state.memory := setData_self hnode
        have hinputNe : (state.setPtr owner (some y.1)).inputBuffer buffer ≠ [] := by
          rw [show (state.setPtr owner (some y.1)).inputBuffer buffer = text from htext]
          exact hne _ hx
        rw [guiInputHistoryKeep, if_neg hinputNe]
        show some { state.setPtr owner (some y.1) with memory := state.memory.setData a (state.inputBuffer buffer) } = _
        rw [htext, hsame]
        rfl

theorem Browsing.next (h : Browsing buffer owner xs state0 state) (hseg : Seg state0.memory none xs none)
    (env : GuiHistoryAddEnv) :
    ∃ state', guiInputHistoryNext maxCommands state buffer owner env = some state' ∧
      Browsing buffer owner xs state0 state' := by
  rw [← h.browsed.memory] at hseg
  have hinput := h.browsed.input
  rw [pointedText] at hinput
  rw [guiInputHistoryNext]
  split
  · exact ⟨state, rfl, h⟩
  · cases hptr : (state.lists owner).ptrHistory with
    | none =>
      rw [hptr] at hinput
      exact ⟨state, if_neg (not_not.mpr hinput), h⟩
    | some a =>
      obtain ⟨⟨a, text⟩, hx, rfl⟩ := List.mem_map.mp (h.ptr a hptr)
      obtain ⟨before, after, hsplit⟩ := List.append_of_mem hx
      have hseg' := hseg
      rw [hsplit, seg_append] at hseg'
      have hnode := hseg'.2.1
      have htext : state.inputBuffer buffer = text := by
        rw [hinput, hptr, Option.bind_some, hnode]
        rfl
      have hsame : state.setText a (state.inputBuffer buffer) = state := by
        rw [GuiHistories.setText, htext, show state.memory.setData a text = state.memory from setData_self hnode]
      dsimp only
      simp only [hsame, hnode, Option.bind_eq_bind, Option.bind_some]
      cases hprev : lastPtr none before with
      | none => exact ⟨_, rfl, h.show_none⟩
      | some b =>
        have hb : b ∈ addrs xs := by
          have hbefore : b ∈ addrs before := (lastPtr_mem hprev).resolve_right (Option.some_ne_none b).symm
          rw [hsplit, addrs_append]
          exact List.mem_append_left _ hbefore
        obtain ⟨⟨b, textb⟩, hy, rfl⟩ := List.mem_map.mp hb
        obtain ⟨node, hnode', -⟩ := hseg.mem hy
        refine ⟨_, ?_, h.show_entry hb hnode'⟩
        dsimp only
        rw [show (state.setPtr owner (some b)).memory b = some node from hnode']
        rfl

/-- Browsing a history, from an empty input on, changes none of its texts, nor their number. -/
theorem history_browse (hseg : Seg state.memory none xs none) (hends : (state.lists owner).ends = endsOf xs)
    (hne : ∀ x ∈ xs, x.2 ≠ []) (hptr : (state.lists owner).ptrHistory = none) (hinput : state.inputBuffer buffer = [])
    (moves : List GuiHistoryMove) :
    ∃ state', moves.foldlM (guiHistoryMove maxCommands buffer owner) state = some state' ∧
      HistoryBrowsed buffer owner state state' := by
  have hbegin : Browsing buffer owner xs state state := by
    refine ⟨⟨rfl, rfl, rfl, fun _ _ => rfl, ?_⟩, fun a ha => ?_⟩
    · rw [hinput, pointedText, hptr]
      rfl
    · rw [hptr] at ha
      cases ha
  have hrun (state1 : GuiHistories Buffer) (hstate1 : Browsing buffer owner xs state state1) :
      ∃ state', moves.foldlM (guiHistoryMove maxCommands buffer owner) state1 = some state' ∧
        Browsing buffer owner xs state state' := by
    induction moves generalizing state1 with
    | nil => exact ⟨state1, rfl, hstate1⟩
    | cons move moves ih =>
      obtain ⟨state2, hmove, hstate2⟩ : ∃ state2, guiHistoryMove maxCommands buffer owner state1 move = some state2 ∧
          Browsing buffer owner xs state state2 := by
        cases move with
        | previous env => exact hstate1.previous hseg hends hne env
        | next env => exact hstate1.next hseg env
      rw [List.foldlM_cons, hmove]
      exact ih state2 hstate2
  obtain ⟨state', hmoves, hstate'⟩ := hrun state hbegin
  exact ⟨state', hmoves, hstate'.browsed⟩

/-- A history with two commands, the newest one first. -/
def browsedTwo : GuiHistories Unit where
  lists _ := ⟨⟨some 1, some 2⟩, none, 2⟩
  memory := Heap.store (Heap.store (fun _ => none) 1 ⟨lit "/join #test", none, some 2⟩) 2 ⟨lit "hello", some 1, none⟩
  input _ := true
  inputBuffer _ := []

theorem history_browse_two :
    ∃ state', [GuiHistoryMove.previous ⟨none, 3, 4⟩, .previous ⟨none, 3, 4⟩, .next ⟨none, 3, 4⟩].foldlM
        (guiHistoryMove 0 () .global) browsedTwo = some state' ∧
      HistoryBrowsed () .global browsedTwo state' := by
  have hseg : Seg browsedTwo.memory none [(1, lit "/join #test"), (2, lit "hello")] none := ⟨rfl, rfl, trivial⟩
  exact history_browse hseg rfl (by decide) rfl rfl _

end Wirc

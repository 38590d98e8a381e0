import WhoreIrc.Spec.GuiHistory

/-!
# Consistent histories (`guiHistory_run_consistent`)

One lemma says what an addition does to a list (`listAdd_ok`), one what a text
that replaces another does (`setText_ok`), and each operation is made of them.
-/

namespace Wirc

open Framework

section

variable {Buffer : Type} [DecidableEq Buffer] {maxCommands : Int} {state : GuiHistories Buffer}
  {entries : GuiHistoryOwner Buffer → List (Addr × Str)} {owner : GuiHistoryOwner Buffer}

/-- What an operation leaves as it was: the input, and whether entries are recalled. -/
structure SameInput (state state' : GuiHistories Buffer) : Prop where
  input : state'.input = state.input
  inputBuffer : state'.inputBuffer = state.inputBuffer
  recalls : ∀ owner, (state'.lists owner).ptrHistory.isSome = (state.lists owner).ptrHistory.isSome

omit [DecidableEq Buffer] in
theorem SameInput.refl (state : GuiHistories Buffer) : SameInput state state := ⟨rfl, rfl, fun _ => rfl⟩

omit [DecidableEq Buffer] in
theorem SameInput.trans {state₁ state₂ state₃ : GuiHistories Buffer} (h : SameInput state₁ state₂)
    (h' : SameInput state₂ state₃) : SameInput state₁ state₃ :=
  ⟨h'.input.trans h.input, h'.inputBuffer.trans h.inputBuffer, fun owner => (h'.recalls owner).trans (h.recalls owner)⟩

/-- One list is changed, and the others stay. -/
theorem consistent_setList (hok : ∀ owner, HistoryListOk maxCommands (state.lists owner) (entries owner))
    {list : GuiHistoryList} {memory : Heap Str} (xs : List (Addr × Str))
    (hlists : Lists memory (Function.update entries owner xs)) (hlist : HistoryListOk maxCommands list xs) :
    HistoriesConsistent maxCommands (state.setList owner list memory) := by
  refine ⟨_, hlists, fun owner' => ?_⟩
  simp only [GuiHistories.setList]
  rcases eq_or_ne owner' owner with rfl | hne
  · rw [Function.update_self, Function.update_self]
    exact hlist
  · rw [Function.update_of_ne hne, Function.update_of_ne hne]
    exact hok owner'

theorem sameInput_setList {list : GuiHistoryList} {memory : Heap Str}
    (h : list.ptrHistory.isSome = (state.lists owner).ptrHistory.isSome) :
    SameInput state (state.setList owner list memory) := by
  refine ⟨rfl, rfl, fun owner' => ?_⟩
  simp only [GuiHistories.setList]
  rcases eq_or_ne owner' owner with rfl | hne
  · rw [Function.update_self, h]
  · rw [Function.update_of_ne hne]

/-! ## Additions -/

omit [DecidableEq Buffer] in
theorem newestText_eq (hlists : Lists state.memory entries)
    (hok : ∀ owner, HistoryListOk maxCommands (state.lists owner) (entries owner)) :
    newestText state owner = ((entries owner).map Prod.snd).head? := by
  rw [newestText, (hok owner).ends]
  cases hxs : entries owner with
  | nil => rfl
  | cons x xs =>
    have hs := hlists.linked owner
    rw [hxs] at hs
    simp only [endsOf, firstPtr_cons, Option.bind_some, hs.1, Option.map_some, List.map_cons, List.head?_cons]

omit [DecidableEq Buffer] in
theorem isNewest_eq (hlists : Lists state.memory entries)
    (hok : ∀ owner, HistoryListOk maxCommands (state.lists owner) (entries owner)) (string : Str) :
    guiHistoryIsNewest state owner string = some (decide (newestText state owner = some string)) := by
  rw [newestText_eq hlists hok, guiHistoryIsNewest, (hok owner).ends]
  cases hxs : entries owner with
  | nil => rfl
  | cons x xs =>
    have hs := hlists.linked owner
    rw [hxs] at hs
    simp only [endsOf, firstPtr_cons, hs.1, Option.map_some, List.map_cons, List.head?_cons, Option.some.injEq]

/-- An entry more than there may be is removed at the end. -/
theorem removeLast_ok (removed : Int) (list : GuiHistoryList) {memory : Heap Str} {x : Addr × Str}
    {xs : List (Addr × Str)} (hlists : Lists memory (Function.update entries owner (x :: xs)))
    (hends : list.ends = endsOf (x :: xs)) (hcount : list.numHistory = xs.length + 1)
    (hbound : 0 < maxCommands → (xs.length : Int) ≤ maxCommands) (hdiffer : ((x :: xs).map Prod.snd).IsChain (· ≠ ·))
    (hptr : ∀ a, list.ptrHistory = some a → a ∈ addrs xs)
    (hremoved : 0 < maxCommands → (xs.length : Int) < maxCommands ∨ removed = -1) :
    ∃ list' memory' xs', guiHistoryRemoveLast maxCommands removed list memory = some (list', memory') ∧
      Lists memory' (Function.update entries owner xs') ∧ HistoryListOk maxCommands list' xs' ∧
      list'.ptrHistory.isSome = list.ptrHistory.isSome := by
  rw [guiHistoryRemoveLast]
  by_cases hfull : maxCommands > 0 ∧ list.numHistory > maxCommands
  · obtain ⟨hpos, hmore⟩ := hfull
    have hlen : (xs.length : Int) = maxCommands := by
      have := hbound hpos
      omega
    have hremoved := (hremoved hpos).resolve_left (by omega)
    rcases List.eq_nil_or_concat xs with rfl | ⟨init, z, rfl⟩
    · simp only [List.length_nil] at hlen
      omega
    rw [List.concat_eq_append] at *
    have hxs : Function.update entries owner (x :: (init ++ [z])) owner = (x :: init) ++ (z.1, z.2) :: [] := by
      rw [Function.update_self]
      rfl
    have hz : z.1 ∈ addrs (Function.update entries owner (x :: (init ++ [z])) owner) := by
      rw [hxs]
      simp
    have hlast : list.ends.last = some z.1 := by
      rw [hends, ← List.cons_append]
      simp only [endsOf, lastPtr_append, lastPtr_cons, lastPtr_nil]
    have hs := hlists.linked owner
    rw [hxs, seg_append] at hs
    obtain ⟨prev, hprev⟩ := Option.isSome_iff_exists.mp (@lastPtr_cons_isSome _ none init x)
    have hmem : prev ∈ addrs (x :: init) := by simpa using lastPtr_mem hprev
    have hends' : list.ends = endsOf (Function.update entries owner (x :: (init ++ [z])) owner) := by
      rw [Function.update_self, hends]
    obtain ⟨memory', hunlink, hlists'⟩ := hlists.unlinkNode hends' hxs
    have hnode := hs.2.1
    rw [hprev] at hnode
    simp only [hlast, hnode, hunlink, if_pos (And.intro hpos hmore), Option.bind_eq_bind, Option.bind_some]
    rw [Function.update_idem, List.append_nil] at hlists'
    refine ⟨_, memory', x :: init, rfl, hlists',
      ⟨congrArg endsOf (List.append_nil _), ?_, fun _ => ?_, ?_, fun a ha => ?_⟩, ?_⟩
    · simp only [hcount, List.length_append, List.length_cons, List.length_nil]
      omega
    · simp only [List.length_append, List.length_cons, List.length_nil] at hlen ⊢
      omega
    · rw [← List.cons_append, List.map_append] at hdiffer
      exact hdiffer.left_of_append
    · dsimp only at ha
      split at ha
      · cases ha
        exact hmem
      · rename_i hne
        rcases List.mem_append.mp ((@addrs_append _ init _) ▸ hptr a ha) with hin | hin
        · exact List.mem_cons_of_mem _ hin
        · refine absurd ?_ hne
          rw [ha, List.mem_singleton.mp hin]
    · dsimp only
      split
      · rename_i heq
        rw [heq]
        rfl
      · rfl
  · rw [if_neg hfull]
    refine ⟨list, memory, x :: xs, rfl, hlists, ⟨hends, hcount, fun hpos => ?_, hdiffer, fun a ha => ?_⟩, rfl⟩
    · rw [List.length_cons]
      omega
    · exact List.mem_cons_of_mem _ (hptr a ha)

/-- An addition, after which there is room, or an entry that is removed is counted as removed. -/
theorem listAdd_ok (hlists : Lists state.memory entries)
    (hok : ∀ owner, HistoryListOk maxCommands (state.lists owner) (entries owner)) (removed : Int) (string : Str)
    (newHistory : Addr)
    (hroom : newestText state owner ≠ some string → state.memory newHistory = none → 0 < maxCommands →
      (state.lists owner).numHistory < maxCommands ∨ removed = -1) :
    ∃ state', guiHistoryListAdd maxCommands removed state owner string newHistory = some state' ∧
      HistoriesConsistent maxCommands state' ∧ SameInput state state' := by
  have hown := hok owner
  simp only [guiHistoryListAdd, isNewest_eq hlists hok, Option.bind_eq_bind, Option.bind_some, decide_eq_true_eq]
  by_cases hnewest : newestText state owner = some string
  · rw [if_pos hnewest]
    exact ⟨state, rfl, ⟨entries, hlists, hok⟩, .refl state⟩
  rw [if_neg hnewest]
  cases hmalloc : state.memory.malloc newHistory with
  | none => exact ⟨state, rfl, ⟨entries, hlists, hok⟩, .refl state⟩
  | some a =>
    obtain ⟨hfree, rfl⟩ := Heap.malloc_eq_some.mp hmalloc
    obtain ⟨hlists', hends'⟩ := @Lists.linkFirst _ _ _ _ _ _ _ string _ hlists hown.ends hfree
    have hdiffer : (((a, string) :: entries owner).map Prod.snd).IsChain (· ≠ ·) := by
      refine hown.differ.cons fun y hy => ?_
      rintro rfl
      rw [newestText_eq hlists hok] at hnewest
      exact hnewest hy
    obtain ⟨list', memory', xs', hremove, hlists'', hlist', hsome⟩ := removeLast_ok removed
      { state.lists owner with
        ends := (linkFirst state.memory (state.lists owner).ends a string).2
        numHistory := (state.lists owner).numHistory + 1 }
      hlists' hends' (by dsimp only; rw [hown.count]) hown.bound hdiffer hown.ptr
      (by rw [← hown.count]; exact hroom hnewest hfree)
    simp only [hremove, Option.bind_some]
    exact ⟨_, rfl, consistent_setList hok xs' hlists'' hlist', sameInput_setList hsome⟩

/-- `gui_history_add`, when there is room in the history of the buffer. -/
theorem historyAdd_ok (h : HistoriesConsistent maxCommands state) {buffer : Buffer} {string : Str}
    {env : GuiHistoryAddEnv} (hroom : HistoryRoom maxCommands state buffer string env) :
    ∃ state', guiHistoryAdd maxCommands state buffer string env = some state' ∧
      HistoriesConsistent maxCommands state' ∧ SameInput state state' := by
  rw [guiHistoryAdd]
  split
  · exact ⟨state, rfl, h, .refl state⟩
  · rename_i hkept
    obtain ⟨entries, hlists, hok⟩ := h
    obtain ⟨state₁, hstate₁, ⟨entries₁, hlists₁, hok₁⟩, hsame₁⟩ := listAdd_ok hlists hok 1
      (env.string2.getD string) env.bufferHistory fun hnew hfree hpos => .inl (hroom hkept hnew hfree hpos)
    obtain ⟨state₂, hstate₂, h₂, hsame₂⟩ := @listAdd_ok _ _ _ _ _ GuiHistoryOwner.global hlists₁ hok₁ (-1)
      (env.string2.getD string) env.globalHistory fun _ _ _ => .inr rfl
    refine ⟨state₂, ?_, h₂, hsame₁.trans hsame₂⟩
    simp only [guiHistoryBufferAdd, hstate₁, guiHistoryGlobalAdd, Option.bind_eq_bind, Option.bind_some]
    exact hstate₂

/-! ## Recalls -/

theorem consistent_input (h : HistoriesConsistent maxCommands state) (buffer : Buffer) (text : Str) :
    HistoriesConsistent maxCommands (state.setInput buffer text) := h

/-- A text that differs from those of its neighbours. -/
theorem isChain_replace {xs ys : List (Addr × Str)} {a : Addr} {d text : Str} {m : Heap Str}
    (hs : Seg m none (xs ++ (a, d) :: ys) none) (hdiffer : ((xs ++ (a, d) :: ys).map Prod.snd).IsChain (· ≠ ·))
    (hnew : ∀ c, (lastPtr none xs = some c ∨ firstPtr ys none = some c) → ∀ node, m c = some node → node.data ≠ text) :
    ((xs ++ (a, text) :: ys).map Prod.snd).IsChain (· ≠ ·) := by
  rw [List.map_append, List.map_cons, List.isChain_append, List.isChain_cons] at hdiffer ⊢
  obtain ⟨hxs, ⟨-, hys⟩, -⟩ := hdiffer
  rw [seg_append] at hs
  refine ⟨hxs, ⟨fun y hy => ?_, hys⟩, fun x hx y hy => ?_⟩
  · cases ys with
    | nil => cases hy
    | cons z ys =>
      cases hy
      exact (hnew z.1 (.inr rfl) _ hs.2.2.1).symm
  · cases hy
    rcases List.eq_nil_or_concat xs with rfl | ⟨init, z, rfl⟩
    · cases hx
    · rw [List.concat_eq_append] at hs hnew hx
      rw [List.map_append, List.map_cons, List.map_nil, List.getLast?_concat] at hx
      cases hx
      rw [seg_append] at hs
      exact hnew z.1 (.inl (by rw [lastPtr_append]; rfl)) _ hs.1.2.1

/-- The text of an entry is replaced by one that is new where it is put. -/
theorem consistent_setText (hlists : Lists state.memory entries)
    (hok : ∀ owner, HistoryListOk maxCommands (state.lists owner) (entries owner)) {history : Addr} {text : Str}
    (hmem : history ∈ addrs (entries owner)) (hnew : NewText state history text) :
    ∃ entries', Lists (state.setText history text).memory entries' ∧
      (∀ owner, HistoryListOk maxCommands ((state.setText history text).lists owner) (entries' owner)) ∧
      ∀ owner, addrs (entries' owner) = addrs (entries owner) := by
  obtain ⟨xs, d, ys, hsplit, hnode⟩ := hlists.node hmem
  have haddrs : addrs (xs ++ (history, text) :: ys) = addrs (entries owner) := by
    rw [hsplit, addrs_append, addrs_append]
    rfl
  refine ⟨_, hlists.setData hsplit, fun owner' => ?_, fun owner' => ?_⟩
  · rcases eq_or_ne owner' owner with rfl | hne
    · have hown := hok owner'
      have hlength : (xs ++ (history, text) :: ys).length = (entries owner').length := by
        rw [hsplit, List.length_append, List.length_append]
        rfl
      rw [Function.update_self]
      refine ⟨hown.ends.trans (endsOf_congr haddrs.symm), by rw [hlength]; exact hown.count,
        by rw [hlength]; exact hown.bound, ?_, by rw [haddrs]; exact hown.ptr⟩
      have hs := hlists.linked owner'
      have hdiffer := hown.differ
      rw [hsplit] at hs hdiffer
      exact isChain_replace hs hdiffer fun c hc node hc' => hnew _ hnode c hc node hc'
    · rw [Function.update_of_ne hne]
      exact hok owner'
  · rcases eq_or_ne owner' owner with rfl | hne
    · rw [Function.update_self, haddrs]
    · rw [Function.update_of_ne hne]

omit [DecidableEq Buffer] in
/-- The entry that is recalled next is of the list. -/
theorem previousEntry_mem (hlists : Lists state.memory entries)
    (hok : ∀ owner, HistoryListOk maxCommands (state.lists owner) (entries owner)) {entry : Addr}
    (hentry : previousEntry state owner = some entry) : entry ∈ addrs (entries owner) := by
  rw [previousEntry] at hentry
  cases hptr : (state.lists owner).ptrHistory with
  | none =>
    rw [hptr] at hentry
    simp only [(hok owner).ends] at hentry
    simpa using firstPtr_mem hentry
  | some ptr =>
    obtain ⟨xs, d, ys, hsplit, hnode⟩ := hlists.node ((hok owner).ptr ptr hptr)
    simp only [hptr, hnode, Option.bind_some] at hentry
    rw [hsplit, addrs_append, List.mem_append]
    refine .inr (List.mem_cons_of_mem _ ?_)
    simpa using firstPtr_mem hentry

omit [DecidableEq Buffer] in
theorem previousPtr_eq (hlists : Lists state.memory entries)
    (hok : ∀ owner, HistoryListOk maxCommands (state.lists owner) (entries owner)) :
    guiInputHistoryPreviousPtr state owner = some (previousEntry state owner) := by
  rw [guiInputHistoryPreviousPtr, previousEntry]
  cases hptr : (state.lists owner).ptrHistory with
  | none => rfl
  | some ptr =>
    obtain ⟨xs, d, ys, hsplit, hnode⟩ := hlists.node ((hok owner).ptr ptr hptr)
    simp only [hnode, Option.map_some, Option.bind_some]

/-- `ptr_history` is set to an entry of the list, or to NULL. -/
theorem consistent_setPtr (hok : ∀ owner, HistoryListOk maxCommands (state.lists owner) (entries owner))
    (owner : GuiHistoryOwner Buffer)
    {ptr : Option Addr} (hptr : ∀ a, ptr = some a → a ∈ addrs (entries owner)) (owner' : GuiHistoryOwner Buffer) :
    HistoryListOk maxCommands ((state.setPtr owner ptr).lists owner') (entries owner') := by
  simp only [GuiHistories.setPtr, GuiHistories.setList]
  rcases eq_or_ne owner' owner with rfl | hne
  · rw [Function.update_self]
    have hown := hok owner'
    exact ⟨hown.ends, hown.count, hown.bound, hown.differ, hptr⟩
  · rw [Function.update_of_ne hne]
    exact hok owner'

/-- Which entry is recalled does not matter for an addition. -/
theorem historyRoom_setPtr {ptr : Option Addr} {buffer : Buffer} {string : Str} {env : GuiHistoryAddEnv}
    (h : HistoryRoom maxCommands state buffer string env) :
    HistoryRoom maxCommands (state.setPtr owner ptr) buffer string env := by
  have hlist : ∀ owner', ((state.setPtr owner ptr).lists owner').ends = (state.lists owner').ends ∧
      ((state.setPtr owner ptr).lists owner').numHistory = (state.lists owner').numHistory := fun owner' => by
    simp only [GuiHistories.setPtr, GuiHistories.setList]
    rcases eq_or_ne owner' owner with rfl | hne
    · rw [Function.update_self]
      exact ⟨rfl, rfl⟩
    · rw [Function.update_of_ne hne]
      exact ⟨rfl, rfl⟩
  rw [HistoryRoom, newestText, (hlist _).1, (hlist _).2]
  exact h

/-- The input is kept, and an entry is still recalled. -/
theorem keep_ok (hlists : Lists state.memory entries)
    (hok : ∀ owner, HistoryListOk maxCommands (state.lists owner) (entries owner)) {buffer : Buffer}
    {prevHistory : Option Addr} {env : GuiHistoryAddEnv}
    (hmem : ∀ a, prevHistory = some a → a ∈ addrs (entries owner))
    (hfits : state.inputBuffer buffer ≠ [] → (∀ a, prevHistory = some a → NewText state a (state.inputBuffer buffer)) ∧
      (prevHistory = none → HistoryRoom maxCommands state buffer (state.inputBuffer buffer) env)) :
    ∃ state', guiInputHistoryKeep maxCommands state buffer prevHistory env = some state' ∧
      HistoriesConsistent maxCommands state' ∧
      ∀ owner, (state'.lists owner).ptrHistory.isSome = (state.lists owner).ptrHistory.isSome := by
  unfold guiInputHistoryKeep
  split
  · exact ⟨state, rfl, ⟨entries, hlists, hok⟩, fun _ => rfl⟩
  · rename_i hinput
    obtain ⟨hnew, hroom⟩ := hfits hinput
    cases prevHistory with
    | some a =>
      obtain ⟨entries', hlists', hok', -⟩ := consistent_setText hlists hok (hmem a rfl) (hnew a rfl)
      exact ⟨_, rfl, ⟨entries', hlists', hok'⟩, fun _ => rfl⟩
    | none =>
      obtain ⟨state', hadd, hconsistent, hsame⟩ := historyAdd_ok ⟨entries, hlists, hok⟩ (hroom rfl)
      exact ⟨state', hadd, hconsistent, hsame.recalls⟩

theorem previous_ok (h : HistoriesConsistent maxCommands state) {buffer : Buffer} {env : GuiHistoryAddEnv}
    (hfits : state.input buffer = true → PreviousFits maxCommands state buffer owner env) :
    ∃ state', guiInputHistoryPrevious maxCommands state buffer owner env = some state' ∧
      HistoriesConsistent maxCommands state' := by
  rw [guiInputHistoryPrevious]
  split
  · exact ⟨state, rfl, h⟩
  rename_i hinput
  obtain ⟨entries, hlists, hok⟩ := h
  rw [previousPtr_eq hlists hok]
  cases hentry : previousEntry state owner with
  | none => exact ⟨state, rfl, ⟨entries, hlists, hok⟩⟩
  | some entry =>
    have hmem := previousEntry_mem hlists hok hentry
    obtain ⟨xs, d, ys, hsplit, hnode⟩ := hlists.node hmem
    have hentry' : ∀ a, some entry = some a → a ∈ addrs (entries owner) := fun a ha => by
      cases ha
      exact hmem
    have hok' := consistent_setPtr hok owner hentry'
    have hprev : ∀ a, lastPtr none xs = some a → a ∈ addrs (entries owner) := fun a ha => by
      rw [hsplit, addrs_append, List.mem_append]
      exact .inl (by simpa using lastPtr_mem ha)
    obtain ⟨state', hkeep, ⟨entries', hlists', hok''⟩, hrecalls⟩ := keep_ok
      (show Lists (state.setPtr owner (some entry)).memory entries from hlists) hok' hprev
      (fun hne => ⟨(hfits (by simpa using hinput) hne entry _ hentry hnode).1,
        fun hnone => historyRoom_setPtr ((hfits (by simpa using hinput) hne entry _ hentry hnode).2 hnone)⟩)
    have hsome : ((state'.lists owner).ptrHistory).isSome = true := by
      rw [hrecalls]
      simp only [GuiHistories.setPtr, GuiHistories.setList, Function.update_self, Option.isSome_some]
    obtain ⟨ptr, hptr⟩ := Option.isSome_iff_exists.mp hsome
    obtain ⟨xs', d', ys', -, hnode'⟩ := hlists'.node ((hok'' owner).ptr ptr hptr)
    refine ⟨state'.setInput buffer d', ?_, entries', hlists', hok''⟩
    have hnode₀ : (state.setPtr owner (some entry)).memory entry = _ := hnode
    simp only [Option.bind_eq_bind, Option.bind_some, hnode₀, hkeep, hptr, hnode']

theorem next_ok (h : HistoriesConsistent maxCommands state) {buffer : Buffer} {env : GuiHistoryAddEnv}
    (hfits : state.input buffer = true → NextFits maxCommands state buffer owner env) :
    ∃ state', guiInputHistoryNext maxCommands state buffer owner env = some state' ∧
      HistoriesConsistent maxCommands state' := by
  rw [guiInputHistoryNext]
  split
  · exact ⟨state, rfl, h⟩
  rename_i hinput
  obtain ⟨hnew, hroom⟩ := hfits (by simpa using hinput)
  obtain ⟨entries, hlists, hok⟩ := h
  cases hptr : (state.lists owner).ptrHistory with
  | none =>
    dsimp only
    split
    · obtain ⟨state', hadd, hconsistent, -⟩ := historyAdd_ok ⟨entries, hlists, hok⟩ (hroom hptr ‹_›)
      exact ⟨_, by rw [hadd, Option.map_some], consistent_input hconsistent buffer []⟩
    · exact ⟨state, rfl, entries, hlists, hok⟩
  | some ptr =>
    have hmem := (hok owner).ptr ptr hptr
    obtain ⟨entries', hlists', hok', haddrs⟩ := consistent_setText hlists hok hmem (hnew ptr hptr)
    rw [← haddrs] at hmem
    obtain ⟨xs, d, ys, hsplit, hnode⟩ := hlists'.node hmem
    have hprev : ∀ a, lastPtr none xs = some a → a ∈ addrs (entries' owner) := fun a ha => by
      rw [hsplit, addrs_append, List.mem_append]
      exact .inl (by simpa using lastPtr_mem ha)
    have hok'' := consistent_setPtr hok' owner hprev
    simp only [hnode, Option.bind_eq_bind, Option.bind_some]
    cases hlast : lastPtr none xs with
    | none =>
      rw [hlast] at hok''
      exact ⟨_, rfl, entries', hlists', hok''⟩
    | some a =>
      rw [hlast] at hok''
      obtain ⟨xs', d', ys', -, hnode'⟩ := hlists'.node (hprev a hlast)
      refine ⟨((state.setText ptr (state.inputBuffer buffer)).setPtr owner (some a)).setInput buffer d', ?_,
        entries', hlists', hok''⟩
      have hnode₀ : ((state.setText ptr (state.inputBuffer buffer)).setPtr owner (some a)).memory a = _ := hnode'
      simp only [hnode₀, Option.map_some]

/-- What a step does to consistent histories, when it fits. -/
theorem historyStep_ok (h : HistoriesConsistent maxCommands state) {op : GuiHistoryOp Buffer}
    (hfits : HistoryStepFits maxCommands state op) :
    ∃ state', guiHistoryStep maxCommands state op = some state' ∧ HistoriesConsistent maxCommands state' := by
  cases op with
  | add buffer string env =>
    obtain ⟨state', hadd, hconsistent, -⟩ := historyAdd_ok h hfits
    exact ⟨state', hadd, hconsistent⟩
  | localPrevious buffer env => exact previous_ok h hfits
  | globalPrevious buffer env => exact previous_ok h hfits
  | localNext buffer env => exact next_ok h hfits
  | globalNext buffer env => exact next_ok h hfits
  | inputReturn buffer env =>
    obtain ⟨state', hadd, ⟨entries, hlists, hok⟩, -⟩ := historyAdd_ok h hfits
    have hnone : ∀ owner : GuiHistoryOwner Buffer, ∀ a, none = some a → a ∈ addrs (entries owner) := fun _ a ha => by
      cases ha
    have hinput : ∀ owner, HistoryListOk maxCommands ((state'.setInput buffer []).lists owner) (entries owner) := hok
    have hok' := consistent_setPtr hinput (.buffer buffer) (hnone _)
    have hok'' := consistent_setPtr hok' .global (hnone _)
    refine ⟨((state'.setInput buffer []).setPtr (.buffer buffer) none).setPtr .global none, ?_, entries, hlists, hok''⟩
    rw [guiHistoryStep, guiInputReturn, hadd, Option.map_some]
  | input buffer text => exact ⟨_, rfl, h⟩

omit [DecidableEq Buffer] in
theorem historiesInit_ok (input : Buffer → Bool) :
    HistoriesConsistent maxCommands (guiHistoriesInit input) :=
  ⟨fun _ => [], ⟨fun _ => trivial, fun _ => List.nodup_nil, fun _ _ _ _ ha => (List.not_mem_nil ha).elim⟩,
    fun _ => ⟨rfl, rfl, fun h => Int.le_of_lt h, .nil, fun _ ha => by cases ha⟩⟩

/-- In a run whose steps fit, the histories are consistent in every state. -/
theorem guiHistory_run_consistent (maxCommands : Int) (input : Buffer → Bool) (ops : List (GuiHistoryOp Buffer))
    (hfits : HistoryRunFits maxCommands input ops) (before after : List (GuiHistoryOp Buffer))
    (hops : ops = before ++ after) :
    ∃ state, before.foldlM (guiHistoryStep maxCommands) (guiHistoriesInit input) = some state ∧
      HistoriesConsistent maxCommands state :=
  alongM_states (fun _ _ h hop => historyStep_ok h hop) (historiesInit_ok input) hfits hops

end

/-- Two commands in one buffer, and the last one recalled. -/
def twoCommands : List (GuiHistoryOp Unit) :=
  [.add () (lit "/list") ⟨none, 0, 1⟩, .add () (lit "/names") ⟨none, 2, 3⟩, .localPrevious () ⟨none, 4, 5⟩]

theorem guiHistory_run_consistent_two : ∃ state,
    twoCommands.foldlM (guiHistoryStep 2) (guiHistoriesInit fun _ => true) = some state ∧
      HistoriesConsistent 2 state := by
  refine guiHistory_run_consistent 2 (fun _ => true) twoCommands ?_ twoCommands [] (List.append_nil _).symm
  refine ⟨fun _ _ _ _ => by decide, fun s₁ h₁ => ?_⟩
  cases h₁
  refine ⟨fun _ _ _ _ => by decide, fun s₂ h₂ => ?_⟩
  cases h₂
  exact ⟨fun _ hinput => absurd rfl hinput, fun _ _ => trivial⟩

/-- With one command kept, the number of entries is wrong after two. -/
theorem guiHistory_run_consistent_fails : ¬ ∃ state,
    (twoCommands.take 2).foldlM (guiHistoryStep 1) (guiHistoriesInit fun _ => true) = some state ∧
      HistoriesConsistent 1 state := by
  rintro ⟨state, hstate, entries, -, hok⟩
  have hcount : ((twoCommands.take 2).foldlM (guiHistoryStep 1) (guiHistoriesInit fun _ => true)).map
      (fun state => (state.lists (.buffer ())).numHistory) = some 3 := by decide
  rw [hstate, Option.map_some, Option.some.injEq, (hok _).count] at hcount
  have hbound := (hok (.buffer ())).bound (by decide)
  omega

end Wirc

import WhoreIrc.Proof.GuiBuffer
import WhoreIrc.Proof.GuiWindows
import WhoreIrc.Proof.GuiWindowScroll

/-!
# Scroll lists in every run (`scrolls_run_iff`)

A window that is switched to a buffer with another number has its list right, and
so has a window that is switched to the buffer that it displays (`switched_ok`).
The other operations are made of these switches, and `gui_buffer_close` takes a
buffer out of the lists of the windows that display it (`bufferClose_spec`).
-/

namespace Wirc

open Framework

variable {Buffer : Type} {screen screen' : GuiScreen Buffer} {entries : Nat → List (Addr × GuiWindowScroll Buffer)}
  {env : GuiBufferEnv Buffer} {window : Nat} {buffer : Buffer} {w : GuiWindow (Option Buffer)}
  {l : List (Addr × GuiWindowScroll Buffer)}

/-- The buffers of scroll structures. -/
def buffersOf (l : List (Addr × GuiWindowScroll Buffer)) : List Buffer := l.map fun x => x.2.buffer

theorem windowScrollOk_iff {guiBuffers : List Buffer} {displayed : Option Buffer} :
    WindowScrollOk guiBuffers displayed l ↔ ∃ first rest, buffersOf l = first :: rest ∧ displayed = some first ∧
      (first :: rest).Nodup ∧ ∀ x ∈ first :: rest, x ∈ guiBuffers := by
  constructor
  · intro h
    obtain ⟨x, xs, rfl, hx⟩ := h.first
    refine ⟨x.2.buffer, buffersOf xs, rfl, hx, h.onePerBuffer, fun y hy => ?_⟩
    obtain ⟨z, hz, rfl⟩ := List.mem_map.mp (show y ∈ (x :: xs).map fun x => x.2.buffer from hy)
    exact h.isOpen z hz
  · rintro ⟨first, rest, hl, rfl, hnodup, hopen⟩
    cases l with
    | nil => cases hl
    | cons x xs =>
      rw [← hl] at hnodup hopen
      obtain ⟨rfl, -⟩ := List.cons.inj hl
      exact ⟨⟨x, xs, rfl, rfl⟩, hnodup, fun y hy => hopen _ (List.mem_map_of_mem hy)⟩

theorem windowScrollOk_congr {guiBuffers : List Buffer} {displayed : Option Buffer}
    {l' : List (Addr × GuiWindowScroll Buffer)} (hl : buffersOf l' = buffersOf l)
    (h : WindowScrollOk guiBuffers displayed l) : WindowScrollOk guiBuffers displayed l' := by
  rw [windowScrollOk_iff] at h ⊢
  rwa [hl]

/-- A window that is open has a scroll structure for its buffer. -/
theorem displayed_of_search (h : ScreenListsOk screen entries) (hw : screen.windows.tree.search window = some w) :
    ∃ x xs, entries window = x :: xs ∧ w.buffer = some x.2.buffer := by
  obtain ⟨hmem, rfl⟩ := GuiWindowTree.search_some hw
  exact (h.each w hmem).first

theorem window_of_search (h : ScreenListsOk screen entries) (hw : screen.windows.tree.search window = some w) :
    WindowScrollOk screen.buffers.guiBuffers w.buffer (entries window) := by
  obtain ⟨hmem, rfl⟩ := GuiWindowTree.search_some hw
  exact h.each w hmem

/-! ## The first structure -/

theorem setFirstPos_ok (h : ScrollLists screen.scrolls entries) (h0 : entries window ≠ [])
    (f : GuiWindowScrollPos → GuiWindowScrollPos) :
    ∃ scrolls l, guiScreenSetFirstPos screen window f = some { screen with scrolls } ∧
      ScrollLists scrolls (Function.update entries window l) ∧ buffersOf l = buffersOf (entries window) := by
  cases hb : entries window with
  | nil => exact absurd hb h0
  | cons x xs =>
    have hfirst := h.first window
    rw [hb, firstPtr_cons] at hfirst
    obtain ⟨scrolls, hset, h'⟩ := scrollSetPos_ok h (show entries window = [] ++ (x.1, x.2) :: xs from hb) f
    refine ⟨scrolls, _, ?_, h', rfl⟩
    rw [guiScreenSetFirstPos, hfirst]
    dsimp only
    rw [hset, Option.map_some]

variable [DecidableEq Buffer]

/-- The search for the buffer displayed finds the first structure. -/
theorem search_displayed (h : ScreenListsOk screen entries) (hw : screen.windows.tree.search window = some w)
    (hbuffer : w.buffer = some buffer) :
    guiWindowScrollSearch screen.scrolls window buffer = some (screen.scrolls.scroll window) := by
  obtain ⟨x, xs, hb, hx⟩ := displayed_of_search h hw
  rw [scrollSearch_eq h.scrolls, h.scrolls.first, hb, List.find?_cons_of_pos]
  · rfl
  · exact decide_eq_true (Option.some.inj (hx.symm.trans hbuffer))

theorem search_ne_first {scrolls : GuiScrolls Buffer} (h : ScrollLists scrolls entries)
    {x : Addr × GuiWindowScroll Buffer} {xs : List (Addr × GuiWindowScroll Buffer)} (hb : entries window = x :: xs)
    (hne : x.2.buffer ≠ buffer) : guiWindowScrollSearch scrolls window buffer ≠ some (scrolls.scroll window) := by
  rw [scrollSearch_eq h, h.first, hb, List.find?_cons_of_neg (by simpa using hne), firstPtr_cons]
  intro heq
  obtain ⟨y, hy, hyx⟩ := Option.map_eq_some_iff.mp (Option.some.inj heq)
  have hnodup := h.linked.nodup window
  rw [hb] at hnodup
  refine (List.nodup_cons.mp hnodup).1 ?_
  rw [← hyx]
  exact List.mem_map_of_mem (List.mem_of_find?_eq_some hy)

/-- A structure for a buffer is found if there is one. -/
theorem remembers_iff (h : ScrollLists screen.scrolls entries) :
    Remembers screen window buffer ↔ buffer ∈ buffersOf (entries window) := by
  rw [Remembers, scrollSearch_eq h, buffersOf, List.mem_map]
  simp only [Option.some.injEq, Option.map_eq_some_iff, Prod.exists, exists_and_right, exists_eq_right]
  constructor
  · rintro ⟨a, d, hfind⟩
    exact ⟨a, d, List.mem_of_find?_eq_some hfind, by simpa using List.find?_some hfind⟩
  · rintro ⟨a, d, hmem, hd⟩
    have hsome : ((entries window).find? fun x => x.2.buffer = buffer).isSome :=
      List.find?_isSome.mpr ⟨(a, d), hmem, decide_eq_true hd⟩
    obtain ⟨x, hx⟩ := Option.isSome_iff_exists.mp hsome
    exact ⟨x.1, x.2, hx⟩

/-! ## A window that is switched to a buffer -/

/-- The window displays the buffer, and has another scroll list. -/
structure Switched (screen screen' : GuiScreen Buffer) (entries : Nat → List (Addr × GuiWindowScroll Buffer)) (window : Nat)
    (buffer : Buffer) (l : List (Addr × GuiWindowScroll Buffer)) : Prop where
  scrolls : ScrollLists screen'.scrolls (Function.update entries window l)
  windows : screen'.windows =
    { screen.windows with tree := screen.windows.tree.modify window fun w => { w with buffer := some buffer } }
  buffers : BuffersOk screen'.buffers
  same : SameBuffers screen.buffers screen'.buffers

omit [DecidableEq Buffer] in
theorem names_setBuffer (tree : GuiWindowTree (GuiWindow (Option Buffer))) (displayed : Option Buffer) :
    (tree.modify window fun w => { w with buffer := displayed }).names = tree.names :=
  GuiWindowTree.names_modify (f := fun w => { w with buffer := displayed }) (fun _ => rfl) tree

omit [DecidableEq Buffer] in
/-- The windows are right when the list of the window that is switched is. -/
theorem switched_ok (h : ScreenListsOk screen entries) (hmem : window ∈ screen.windows.tree.names)
    (hs : Switched screen screen' entries window buffer l)
    (hl : WindowScrollOk screen.buffers.guiBuffers (some buffer) l) :
    ScreenListsOk screen' (Function.update entries window l) := by
  have hnames : screen'.windows.tree.names = screen.windows.tree.names := by
    rw [hs.windows]
    exact names_setBuffer _ _
  refine ⟨?_, hs.buffers, hs.scrolls, fun window' hw' => ?_, fun w hw => ?_⟩
  · rw [hs.windows]
    exact windowsOk_tree h.windows (names_setBuffer _ _)
  · rw [hnames] at hw'
    rw [Function.update_of_ne fun heq => hw' (by rwa [heq])]
    exact h.closed window' hw'
  · rw [hs.windows, GuiWindowTree.modify, GuiWindowTree.windows_map] at hw
    obtain ⟨w', hw', rfl⟩ := List.mem_map.mp hw
    rw [hs.same.guiBuffers]
    split
    · rename_i heq
      dsimp only
      rw [heq, Function.update_self]
      exact hl
    · rename_i hne
      rw [Function.update_of_ne hne]
      exact h.each w' hw'

omit [DecidableEq Buffer] in
/-- What a switch does once the list is that of the new buffer. -/
theorem switchTail_ok (h : ScrollLists screen.scrolls entries) (h0 : entries window ≠ [])
    (hw : screen.windows.tree.search window = some w) (hok : BuffersOk screen.buffers) (buffer : Buffer) : ∃ screen' l,
    ((guiWindowSetBuffer screen.windows window (some buffer)).bind fun windows =>
      if env.typeFree buffer then
        guiScreenSetFirstPos { screen with windows } window fun pos => { pos with scrolling := false, linesAfter := 0 }
      else some { screen with windows }) = some screen' ∧
    Switched screen screen' entries window buffer l ∧ buffersOf l = buffersOf (entries window) := by
  rw [guiWindowSetBuffer, hw, Option.map_some, Option.bind_some]
  split
  · obtain ⟨scrolls, l, hset, h', hl⟩ := @setFirstPos_ok _ { screen with windows :=
      { screen.windows with tree := screen.windows.tree.modify window fun w => { w with buffer := some buffer } } }
      entries window h h0 fun pos => { pos with scrolling := false, linesAfter := 0 }
    exact ⟨_, l, hset, ⟨h', rfl, hok, ⟨rfl, rfl⟩⟩, hl⟩
  · exact ⟨_, entries window, rfl, ⟨by rwa [Function.update_eq_self], rfl, hok, ⟨rfl, rfl⟩⟩, rfl⟩

/-- A switch to a buffer with the same number: the list stays that of the buffer displayed before. -/
theorem switchToBuffer_same (h : ScreenListsOk screen entries) (hw : screen.windows.tree.search window = some w)
    {displayed : Buffer} (hdisplayed : w.buffer = some displayed)
    (hnumber : screen.buffers.number displayed = screen.buffers.number buffer) :
    ∃ screen' l, guiWindowSwitchToBuffer env screen window buffer = some screen' ∧
      Switched screen screen' entries window buffer l ∧ buffersOf l = buffersOf (entries window) := by
  obtain ⟨x, xs, hb, -⟩ := displayed_of_search h hw
  obtain ⟨screen', l, htail, hs, hl⟩ :=
    @switchTail_ok _ _ _ env _ _ h.scrolls (by rw [hb]; exact List.cons_ne_nil _ _) hw h.buffers buffer
  refine ⟨screen', l, ?_, hs, hl⟩
  rw [guiWindowSwitchToBuffer, hw, Option.bind_eq_bind, Option.bind_some, hdisplayed, Option.bind_eq_bind,
    Option.bind_some,
    if_neg (not_not.mpr hnumber), Option.bind_eq_bind, Option.bind_some]
  exact htail

theorem switchScroll_ok (h : ScreenListsOk screen entries) (hw : screen.windows.tree.search window = some w)
    {displayed : Buffer} (hdisplayed : w.buffer = some displayed) (hopen : buffer ∈ screen.buffers.guiBuffers) :
    ∃ scrolls buffers l kept, guiWindowSwitchScroll env screen window displayed buffer = some { screen with scrolls, buffers } ∧
      ScrollLists scrolls (Function.update entries window l) ∧ BuffersOk buffers ∧ SameBuffers screen.buffers buffers ∧
      buffersOf l = buffer :: kept ∧ kept.Sublist ((buffersOf (entries window)).filter (· ≠ buffer)) := by
  have hwindow := window_of_search h hw
  obtain ⟨x, xs, hb, hx⟩ := hwindow.first
  have hold : displayed ∈ screen.buffers.guiBuffers := by
    have hxopen := hwindow.isOpen x (by rw [hb]; exact List.mem_cons_self)
    rwa [Option.some.inj (hdisplayed.symm.trans hx)]
  obtain ⟨scrolls, y, kept, hswitch, hscrolls, hy, hkept⟩ := scrollSwitch_ok h.scrolls hb hwindow.onePerBuffer buffer
  have hkept' : (buffersOf kept).Sublist ((buffersOf (entries window)).filter (· ≠ buffer)) := by
    rw [buffersOf, buffersOf, List.filter_map]
    exact hkept.map fun x => x.2.buffer
  have hl : buffersOf (y :: kept) = buffer :: buffersOf kept := by rw [← hy]; rfl
  obtain ⟨buffers, hbuffers, hok, hsame⟩ : ∃ buffers, (if env.guiBuffersVisitedFrozen then screen.buffers
      else guiBufferVisitedAdd env.maxVisitedBuffers (guiBufferVisitedAdd env.maxVisitedBuffers screen.buffers displayed) buffer) =
      buffers ∧ BuffersOk buffers ∧ SameBuffers screen.buffers buffers := by
    refine ⟨_, rfl, ?_⟩
    split
    · exact ⟨h.buffers, rfl, rfl⟩
    · exact ⟨visitedAdd_ok (visitedAdd_ok h.buffers hold _) hopen _, rfl, rfl⟩
  rw [guiWindowSwitchScroll, hswitch, Option.bind_eq_bind, Option.bind_some, hbuffers]
  dsimp only
  split
  · obtain ⟨scrolls', l, hset, hscrolls', hl'⟩ := @setFirstPos_ok _ { screen with scrolls, buffers } _ window hscrolls
      (by rw [Function.update_self]; exact List.cons_ne_nil _ _)
      fun pos => { pos with startLine := none, startLinePos := 0, scrolling := false }
    rw [Function.update_idem] at hscrolls'
    rw [Function.update_self] at hl'
    exact ⟨scrolls', buffers, l, buffersOf kept, hset, hscrolls', hok, hsame, hl'.trans hl, hkept'⟩
  · exact ⟨scrolls, buffers, _, buffersOf kept, rfl, hscrolls, hok, hsame, hl, hkept'⟩

/-- A switch to a buffer with another number: its structure comes first. -/
theorem switchToBuffer_ne (h : ScreenListsOk screen entries) (hw : screen.windows.tree.search window = some w)
    {displayed : Buffer} (hdisplayed : w.buffer = some displayed) (hopen : buffer ∈ screen.buffers.guiBuffers)
    (hnumber : screen.buffers.number displayed ≠ screen.buffers.number buffer) :
    ∃ screen' l kept, guiWindowSwitchToBuffer env screen window buffer = some screen' ∧
      Switched screen screen' entries window buffer l ∧ buffersOf l = buffer :: kept ∧
      kept.Sublist ((buffersOf (entries window)).filter (· ≠ buffer)) := by
  obtain ⟨scrolls, buffers, l, kept, hscroll, hscrolls, hok, hsame, hl, hkept⟩ := @switchScroll_ok _ _ _ env _ _ _ _ h hw displayed hdisplayed hopen
  have h0 : Function.update entries window l window ≠ [] := by
    rw [Function.update_self]
    rintro rfl
    cases hl
  obtain ⟨screen', l', htail, hs, hl'⟩ := @switchTail_ok _ { screen with scrolls, buffers } _ env _ _ hscrolls h0 hw hok buffer
  rw [Function.update_self] at hl'
  have hscrolls' := hs.scrolls
  rw [Function.update_idem] at hscrolls'
  refine ⟨screen', l', kept, ?_, ⟨hscrolls', hs.windows, hs.buffers, ?_⟩, hl'.trans hl, hkept⟩
  · rw [guiWindowSwitchToBuffer, hw, Option.bind_eq_bind, Option.bind_some, hdisplayed, Option.bind_eq_bind,
      Option.bind_some,
      if_pos hnumber, hscroll, Option.bind_eq_bind, Option.bind_some]
    exact htail
  · exact ⟨hs.same.guiBuffers.trans hsame.guiBuffers, hs.same.number.trans hsame.number⟩

/-- A window that is switched to the buffer that it displays. -/
theorem switchToOwnBuffer_ok (h : ScreenListsOk screen entries) (hmem : window ∈ screen.windows.tree.names) :
    ∃ screen', guiWindowSwitchToOwnBuffer env screen window = some screen' ∧ ScreenOk screen' ∧
      screen'.windows.tree.names = screen.windows.tree.names := by
  obtain ⟨w, hw⟩ := GuiWindowTree.search_of_mem hmem
  obtain ⟨x, xs, hb, hx⟩ := displayed_of_search h hw
  obtain ⟨screen', l, hswitch, hs, hl⟩ := @switchToBuffer_same _ _ _ env _ _ _ _ h hw _ hx rfl
  have hok := windowScrollOk_congr hl (window_of_search h hw)
  rw [hx] at hok
  refine ⟨screen', ?_, ⟨_, switched_ok h hmem hs hok⟩, ?_⟩
  · rw [guiWindowSwitchToOwnBuffer, hw, Option.bind_eq_bind, Option.bind_some, hx]
    exact hswitch
  · rw [hs.windows]
    exact names_setBuffer _ _

/-! ## Windows -/

omit [DecidableEq Buffer] in
theorem currentWindow_ok (h : ScreenListsOk screen entries) (hmem : window ∈ screen.windows.tree.names) :
    ScreenListsOk { screen with windows := { screen.windows with currentWindow := window } } entries :=
  ⟨⟨h.windows.nodup, h.windows.created, h.windows.list, hmem⟩, h.buffers, h.scrolls, h.closed, h.each⟩

/-- The end of `gui_window_switch`. -/
theorem switchCurrent_ok (hok : ScreenOk screen) (hmem : window ∈ screen.windows.tree.names) :
    ∃ screen', ((Wirc.guiWindowSwitch screen.windows window).bind fun windows =>
      guiWindowSwitchToOwnBuffer env { screen with windows } window) = some screen' ∧ ScreenOk screen' := by
  obtain ⟨entries, h⟩ := hok
  obtain ⟨w, hw⟩ := GuiWindowTree.search_of_mem hmem
  obtain ⟨screen', hswitch, hok', -⟩ := @switchToOwnBuffer_ok _ _ _ env _ _ (currentWindow_ok h hmem) hmem
  refine ⟨screen', ?_, hok'⟩
  rw [Wirc.guiWindowSwitch, hw]
  exact hswitch

theorem screenSwitch_ok (hok : ScreenOk screen) (hmem : window ∈ screen.windows.tree.names) :
    ∃ screen', guiScreenSwitch env screen window = some screen' ∧ ScreenOk screen' := by
  rw [guiScreenSwitch]
  split
  · exact ⟨screen, rfl, hok⟩
  · dsimp only
    split
    · obtain ⟨entries, h⟩ := hok
      obtain ⟨screen₁, hbars, hok₁, hnames⟩ := @switchToOwnBuffer_ok _ _ _ env _ _ h h.windows.current
      obtain ⟨screen', hswitch, hok'⟩ := @switchCurrent_ok _ _ env _ _ hok₁ (hnames ▸ hmem)
      refine ⟨screen', ?_, hok'⟩
      rw [hbars]
      exact hswitch
    · exact switchCurrent_ok hok hmem

omit [DecidableEq Buffer] in
/-- A new window has a list of one structure. -/
theorem screenNew_ok (h : ScreenListsOk screen entries) (hw : screen.windows.tree.search window = some w)
    (hopen : buffer ∈ screen.buffers.guiBuffers) (pos : GuiWindowPos) : ∃ screen',
      guiScreenNew screen window buffer pos = some screen' ∧ ScreenOk screen' ∧
      screen'.windows.tree.names.Perm (screen.windows.created :: screen.windows.tree.names) := by
  obtain ⟨hperm, hwindows⟩ := windowsOk_new h.windows hw (some buffer) pos
  have hmem := (GuiWindowTree.search_some hw).1
  have hfresh : screen.windows.created ∉ screen.windows.tree.names := fun hmem =>
    Nat.lt_irrefl _ (h.windows.created _ hmem)
  have hne : ∀ w' ∈ screen.windows.tree.windows, w'.window ≠ screen.windows.created := fun w' hw' =>
    ne_of_mem_of_not_mem (List.mem_map_of_mem hw') hfresh
  have hnew : guiScreenNew screen window buffer pos = some { screen with
      windows := guiWindowNew screen.windows w (some buffer) pos
      scrolls := guiWindowScrollNew screen.scrolls screen.windows.created buffer } := by
    rw [guiScreenNew, hw]
    rfl
  refine ⟨_, hnew, ⟨_, hwindows, h.buffers, scrollNew_ok h.scrolls (h.closed _ hfresh) buffer,
    fun window' hw' => ?_, fun w' hw' => ?_⟩, hperm⟩
  · have hnot := mt hperm.mem_iff.mpr hw'
    rw [List.mem_cons, not_or] at hnot
    rw [Function.update_of_ne hnot.1]
    exact h.closed _ hnot.2
  · have hold : w' ∈ screen.windows.tree.windows →
        WindowScrollOk screen.buffers.guiBuffers w'.buffer (Function.update entries screen.windows.created
          [(screen.scrolls.allocated, ⟨buffer, guiWindowScrollInitPos⟩)] w'.window) := fun hw' => by
      rw [Function.update_of_ne (hne w' hw')]
      exact h.each w' hw'
    rcases GuiWindowTree.mem_windows_replace hw' with hw' | hw'
    · exact hold hw'
    · simp only [GuiWindowTree.windows, List.cons_append, List.nil_append, List.mem_cons, List.not_mem_nil,
        or_false] at hw'
      rcases hw' with rfl | rfl
      · exact hold hmem
      · dsimp only
        rw [Function.update_self, windowScrollOk_iff]
        exact ⟨buffer, [], rfl, rfl, List.nodup_singleton _, fun x hx => List.mem_singleton.mp hx ▸ hopen⟩

omit [DecidableEq Buffer] in
theorem screenFirst_ok {buffers : GuiBuffers Buffer} (hok : BuffersOk buffers) (hopen : buffer ∈ buffers.guiBuffers)
    (pos : GuiWindowPos) : ScreenOk (guiScreenFirst buffers buffer pos) := by
  have hnone : ScrollLists (⟨fun _ => none, fun _ => none, 0⟩ : GuiScrolls Buffer) fun _ => [] :=
    ⟨⟨fun _ => trivial, fun _ => List.nodup_nil, fun _ _ _ _ ha => absurd ha List.not_mem_nil⟩, fun _ => rfl, fun _ _ => rfl,
      fun _ => Nat.le_refl _⟩
  refine ⟨_, ⟨List.nodup_singleton _, fun name hname => ?_, List.Perm.refl _, List.mem_singleton_self _⟩, hok,
    scrollNew_ok hnone rfl buffer, fun window hw => ?_, fun w hw => ?_⟩
  · rw [List.mem_singleton.mp hname]
    exact Nat.zero_lt_one
  · have hne : window ≠ 0 := fun heq => hw (List.mem_singleton.mpr heq)
    rw [Function.update_of_ne hne]
  · rw [List.mem_singleton.mp hw, Function.update_self, windowScrollOk_iff]
    exact ⟨buffer, [], rfl, rfl, List.nodup_singleton _, fun x hx => List.mem_singleton.mp hx ▸ hopen⟩

omit [DecidableEq Buffer] in
/-- Positions of windows may change. -/
theorem modifyPos_ok (h : ScreenListsOk screen entries) (pos : GuiWindowPos) :
    ScreenListsOk { screen with windows := { screen.windows with
      tree := screen.windows.tree.modify window fun w => { w with pos } } } entries := by
  have hnames : (screen.windows.tree.modify window fun w => { w with pos }).names = screen.windows.tree.names :=
    GuiWindowTree.names_modify (f := fun w => { w with pos }) (fun _ => rfl) _
  refine ⟨windowsOk_tree h.windows hnames, h.buffers, h.scrolls, fun window' hw' => h.closed _ (hnames ▸ hw'),
    fun w hw => ?_⟩
  rw [GuiWindowTree.modify, GuiWindowTree.windows_map] at hw
  obtain ⟨w', hw', rfl⟩ := List.mem_map.mp hw
  split
  · exact h.each w' hw'
  · exact h.each w' hw'

theorem screenSplit_ok (h : ScreenListsOk screen entries) (hmem : window ∈ screen.windows.tree.names)
    (split : GuiWindowPos → Option (GuiWindowPos × GuiWindowPos)) :
    ∃ screen', guiScreenSplit env split screen window = some screen' ∧ ScreenOk screen' := by
  obtain ⟨w, hw⟩ := GuiWindowTree.search_of_mem hmem
  rw [guiScreenSplit, hw, Option.bind_eq_bind, Option.bind_some]
  cases hsplit : split w.pos with
  | none => exact ⟨screen, rfl, entries, h⟩
  | some areas =>
    have hwindow := window_of_search h hw
    obtain ⟨x, xs, hb, hx⟩ := hwindow.first
    obtain ⟨screen₁, hnew, ⟨entries₁, h₁⟩, hperm⟩ :=
      screenNew_ok h hw (hwindow.isOpen x (by rw [hb]; exact List.mem_cons_self)) areas.1
    have hmodify := @modifyPos_ok _ _ _ window h₁ areas.2
    have hcreated : screen.windows.created ∈ (screen₁.windows.tree.modify window fun w => { w with pos := areas.2 }).names := by
      rw [GuiWindowTree.names_modify (f := fun w => { w with pos := areas.2 }) (fun _ => rfl)]
      exact hperm.mem_iff.mpr List.mem_cons_self
    obtain ⟨screen', hswitch, hok⟩ := @screenSwitch_ok _ _ env _ _ ⟨_, hmodify⟩ hcreated
    refine ⟨screen', ?_, hok⟩
    dsimp only
    rw [hx, Option.bind_eq_bind, Option.bind_some, hnew]
    exact hswitch

/-! ## Windows that are merged -/

omit [DecidableEq Buffer] in
theorem freeWindows_ok {scrolls : GuiScrolls Buffer} (h : ScrollLists scrolls entries) (freed : List Nat) :
    ∃ scrolls' entries', freed.foldlM (fun scrolls window => guiWindowScrollFreeAll window scrolls.allocated scrolls) scrolls =
        some scrolls' ∧ ScrollLists scrolls' entries' ∧ ∀ window, entries' window = if window ∈ freed then [] else entries window := by
  induction freed generalizing scrolls entries with
  | nil => exact ⟨scrolls, entries, rfl, h, fun _ => rfl⟩
  | cons window freed ih =>
    obtain ⟨scrolls₁, hfree, h₁, -⟩ := scrollFreeAll_ok h (h.bound window)
    obtain ⟨scrolls', entries', hrest, h', hentries⟩ := ih h₁
    refine ⟨scrolls', entries', ?_, h', fun window' => ?_⟩
    · rw [List.foldlM_cons, hfree]
      exact hrest
    · rw [hentries]
      rcases eq_or_ne window' window with rfl | hne
      · rw [Function.update_self, ite_self, if_pos List.mem_cons_self]
      · simp only [Function.update_of_ne hne, List.mem_cons, hne, false_or]

/-- Each window is one that was there, with the same buffer. -/
def KeptWindows (windows windows' : GuiWindows (Option Buffer)) : Prop :=
  ∀ w' ∈ windows'.tree.windows, ∃ w ∈ windows.tree.windows, w.window = w'.window ∧ w.buffer = w'.buffer

omit [DecidableEq Buffer] in
theorem screenFree_ok (h : ScreenListsOk screen entries) {windows : GuiWindows (Option Buffer)}
    (hok : WindowsOk windows)
    (hkept : KeptWindows screen.windows windows) :
    ∃ screen', guiScreenFree screen windows = some screen' ∧ ScreenOk screen' ∧ screen'.windows = windows := by
  obtain ⟨scrolls, entries', hfree, hscrolls, hentries⟩ :=
    freeWindows_ok h.scrolls (screen.windows.guiWindows.filter (· ∉ windows.guiWindows))
  have hstays : ∀ window' ∈ windows.tree.names, entries' window' = entries window' := fun window' hw' => by
    rw [hentries, if_neg]
    simpa using fun _ => hok.list.mem_iff.mpr hw'
  refine ⟨{ screen with windows, scrolls }, ?_,
    ⟨entries', hok, h.buffers, hscrolls, fun window' hw' => ?_, fun w' hw' => ?_⟩, rfl⟩
  · rw [guiScreenFree, hfree]
    rfl
  · rw [hentries]
    split
    · rfl
    · refine h.closed window' fun hmem => ‹window' ∉ _› ?_
      simpa using ⟨h.windows.list.mem_iff.mpr hmem, mt hok.list.mem_iff.mp hw'⟩
  · obtain ⟨w, hw, hwindow, hbuffer⟩ := hkept w' hw'
    rw [hstays _ (List.mem_map_of_mem hw'), ← hwindow, ← hbuffer]
    exact h.each w hw

theorem screenMerged_ok (h : ScreenListsOk screen entries) {windows : GuiWindows (Option Buffer)}
    (hok : WindowsOk windows)
    (hkept : KeptWindows screen.windows windows) (hmem : window ∈ windows.tree.names) :
    ∃ screen', (if windows.guiWindows.length < screen.windows.guiWindows.length then
        (guiScreenFree screen windows).bind fun screen => guiWindowSwitchToOwnBuffer env screen window
      else some screen) = some screen' ∧ ScreenOk screen' := by
  split
  · obtain ⟨screen₁, hfree, ⟨entries₁, h₁⟩, hwindows⟩ := screenFree_ok h hok hkept
    obtain ⟨screen', hswitch, hok', -⟩ := @switchToOwnBuffer_ok _ _ _ env _ _ h₁ (hwindows.symm ▸ hmem)
    exact ⟨screen', by rw [hfree, Option.bind_some, hswitch], hok'⟩
  · exact ⟨screen, rfl, entries, h⟩

omit [DecidableEq Buffer] in
theorem merge_kept {look : GuiWindowLook} {windows windows' : GuiWindows (Option Buffer)}
    (hrun : guiWindowMerge look windows window = some windows') :
    KeptWindows windows windows' ∧ window ∈ windows'.tree.names := by
  unfold guiWindowMerge at hrun
  cases hw : windows.tree.search window with
  | none =>
    rw [hw] at hrun
    cases hrun
  | some w =>
    obtain ⟨hmem, hwindow⟩ := GuiWindowTree.search_some hw
    rw [hw] at hrun
    dsimp only at hrun
    split at hrun
    · cases hrun
      refine ⟨fun w' hw' => ?_, GuiWindowTree.mem_nodeToLeaf hwindow (GuiWindowTree.mem_names_of_search hw)⟩
      rcases GuiWindowTree.mem_windows_nodeToLeaf hw' with hw' | rfl
      · exact ⟨w', hw', rfl, rfl⟩
      · exact ⟨w, hmem, rfl, rfl⟩
    · cases hrun
      exact ⟨fun w' hw' => ⟨w', hw', rfl, rfl⟩, GuiWindowTree.mem_names_of_search hw⟩

omit [DecidableEq Buffer] in
theorem mergeAll_kept {area : Rect} {windows windows' : GuiWindows (Option Buffer)}
    (hrun : guiWindowMergeAll area windows window = some windows') :
    KeptWindows windows windows' ∧ window ∈ windows'.tree.names := by
  unfold guiWindowMergeAll at hrun
  cases hw : windows.tree.search window with
  | none =>
    rw [hw] at hrun
    cases hrun
  | some w =>
    obtain ⟨hmem, hwindow⟩ := GuiWindowTree.search_some hw
    rw [hw] at hrun
    dsimp only at hrun
    split at hrun
    · cases hrun
      refine ⟨fun w' hw' => ?_, List.mem_singleton.mpr hwindow.symm⟩
      rw [List.mem_singleton.mp hw']
      exact ⟨w, hmem, rfl, rfl⟩
    · cases hrun
      exact ⟨fun w' hw' => ⟨w', hw', rfl, rfl⟩, GuiWindowTree.mem_names_of_search hw⟩

theorem screenMerge_ok (h : ScreenListsOk screen entries) (hmem : window ∈ screen.windows.tree.names)
    (look : GuiWindowLook) :
    ∃ screen', guiScreenMerge env look screen window = some screen' ∧ ScreenOk screen' := by
  obtain ⟨windows, hrun⟩ : ∃ windows, guiWindowMerge look screen.windows window = some windows := by
    obtain ⟨w, hw⟩ := GuiWindowTree.search_of_mem hmem
    unfold guiWindowMerge
    rw [hw]
    dsimp only
    split <;> exact ⟨_, rfl⟩
  obtain ⟨hkept, hmem'⟩ := merge_kept hrun
  rw [guiScreenMerge, hrun]
  exact screenMerged_ok h (windowsOk_merge h.windows hrun) hkept hmem'

theorem screenMergeAll_ok (h : ScreenListsOk screen entries) (hmem : window ∈ screen.windows.tree.names) (area : Rect) :
    ∃ screen', guiScreenMergeAll env area screen window = some screen' ∧ ScreenOk screen' := by
  obtain ⟨windows, hrun⟩ : ∃ windows, guiWindowMergeAll area screen.windows window = some windows := by
    obtain ⟨w, hw⟩ := GuiWindowTree.search_of_mem hmem
    unfold guiWindowMergeAll
    rw [hw]
    dsimp only
    split <;> exact ⟨_, rfl⟩
  obtain ⟨hkept, hmem'⟩ := mergeAll_kept hrun
  rw [guiScreenMergeAll, hrun]
  exact screenMerged_ok h (windowsOk_mergeAll h.windows hrun) hkept hmem'

/-- What is scrolled may change in any structure. -/
theorem screenScroll_ok (h : ScreenListsOk screen entries) (hmem : window ∈ screen.windows.tree.names) (buffer : Buffer)
    (pos : GuiWindowScrollPos) : ∃ screen', guiScreenScroll screen window buffer pos = some screen' ∧ ScreenOk screen' := by
  obtain ⟨w, hw⟩ := GuiWindowTree.search_of_mem hmem
  rw [guiScreenScroll, hw, Option.bind_eq_bind, Option.bind_some, scrollSearch_eq h.scrolls, Option.bind_eq_bind,
    Option.bind_some]
  cases hfind : (entries window).find? fun x => x.2.buffer = buffer with
  | none => exact ⟨screen, rfl, entries, h⟩
  | some x =>
    obtain ⟨-, before, after, hsplit, -⟩ := List.find?_eq_some_iff_append.mp hfind
    obtain ⟨scrolls, hset, h'⟩ := scrollSetPos_ok h.scrolls (show entries window = before ++ (x.1, x.2) :: after from hsplit)
      fun _ => pos
    refine ⟨{ screen with scrolls }, ?_, _, h.windows, h.buffers, h', fun window' hw' => ?_, fun w' hw' => ?_⟩
    · dsimp only [Option.map_some]
      rw [hset]
      rfl
    · rw [Function.update_of_ne fun heq => hw' (by rwa [heq])]
      exact h.closed window' hw'
    · rcases eq_or_ne w'.window window with heq | hne
      · rw [heq, Function.update_self]
        refine windowScrollOk_congr (l := entries window) ?_ (heq ▸ h.each w' hw')
        rw [hsplit, buffersOf, buffersOf]
        simp only [List.map_append, List.map_cons]
      · rw [Function.update_of_ne hne]
        exact h.each w' hw'

/-! ## A buffer that is closed -/

/-- The windows that display the buffer, among those given, display another one and do not remember it. -/
structure TakenOut (screen screen' : GuiScreen Buffer) (entries entries' : Nat → List (Addr × GuiWindowScroll Buffer))
    (windows : List Nat) (buffer : Buffer) : Prop where
  lists : ScreenListsOk screen' entries'
  same : SameBuffers screen.buffers screen'.buffers
  names : screen'.windows.tree.names = screen.windows.tree.names
  displayed : ∀ window, displayedBuffer screen' window = some buffer ↔
    displayedBuffer screen window = some buffer ∧ window ∉ windows
  remembered : ∀ window, buffer ∈ buffersOf (entries' window) ↔
    buffer ∈ buffersOf (entries window) ∧ ¬ (displayedBuffer screen window = some buffer ∧ window ∈ windows)

omit [DecidableEq Buffer] in
theorem displayed_switched (hs : Switched screen screen' entries window buffer l) (window' : Nat) :
    displayedBuffer screen' window' =
      (screen.windows.tree.search window').bind fun w => if w.window = window then some buffer else w.buffer := by
  rw [displayedBuffer, hs.windows, GuiWindowTree.modify, GuiWindowTree.search_map fun w => by split <;> rfl]
  cases screen.windows.tree.search window' with
  | none => rfl
  | some w =>
    rw [Option.map_some, Option.bind_some, Option.bind_some]
    split <;> rfl

/-- A turn of the loop. -/
theorem closeWindow_ok {backToBuffer visitedBuffer : Option Buffer} (h : ScreenListsOk screen entries)
    (hmem : window ∈ screen.windows.tree.names) (hopen : buffer ∈ screen.buffers.guiBuffers)
    (hother : ∀ x ∈ screen.buffers.guiBuffers, x ≠ buffer → screen.buffers.number buffer ≠ screen.buffers.number x)
    (htwo : 2 ≤ screen.buffers.guiBuffers.length)
    (hback : ∀ x ∈ backToBuffer, x ∈ screen.buffers.guiBuffers ∧ x ≠ buffer)
    (hvisited : ∀ x ∈ visitedBuffer, x ∈ screen.buffers.guiBuffers ∧ x ≠ buffer) :
    ∃ screen' entries', guiBufferCloseWindow env backToBuffer visitedBuffer buffer screen window = some screen' ∧
      TakenOut screen screen' entries entries' [window] buffer := by
  obtain ⟨w, hw⟩ := GuiWindowTree.search_of_mem hmem
  have hdisplayed : displayedBuffer screen window = w.buffer := by rw [displayedBuffer, hw, Option.bind_some]
  rw [guiBufferCloseWindow, hw, Option.bind_eq_bind, Option.bind_some]
  split
  · rename_i hcond
    obtain ⟨next, hnext, hnextopen, hne⟩ := toDisplay_other h.buffers.nodup hopen htwo hback hvisited
    obtain ⟨screen₁, l, kept, hswitch, hs, hl, hkept⟩ :=
      @switchToBuffer_ne _ _ _ env _ _ _ _ h hw buffer hcond.1 hnextopen (hother next hnextopen hne)
    have hwindow := window_of_search h hw
    have hone : (next :: kept).Nodup := List.nodup_cons.mpr
      ⟨fun hmem => by simpa using hkept.subset hmem, (hwindow.onePerBuffer.filter _).sublist hkept⟩
    have hlbuffers : ∀ x ∈ next :: kept, x ∈ screen.buffers.guiBuffers := fun x hx => by
      rcases List.mem_cons.mp hx with rfl | hx
      · exact hnextopen
      · obtain ⟨y, hy, rfl⟩ := List.mem_map.mp (List.mem_of_mem_filter (hkept.subset hx))
        exact hwindow.isOpen y hy
    have hlone : (buffersOf l).Nodup := hl ▸ hone
    obtain ⟨scrolls, hremove, hscrolls⟩ := @scrollRemoveBuffer_ok _ _ _ window _ hs.scrolls
      (by rw [Function.update_self]; exact hlone) buffer
    rw [Function.update_self, Function.update_idem] at hscrolls
    have hfilter : buffersOf (l.filter fun z => z.2.buffer ≠ buffer) = next :: kept.filter (· ≠ buffer) := by
      rw [show buffersOf (l.filter fun z => z.2.buffer ≠ buffer) = (buffersOf l).filter (· ≠ buffer) by
        rw [buffersOf, buffersOf, List.filter_map]; rfl, hl, List.filter_cons_of_pos (by simpa using hne)]
    have hs' : Switched screen { screen₁ with scrolls } entries window next (l.filter fun z => z.2.buffer ≠ buffer) :=
      ⟨hscrolls, hs.windows, hs.buffers, hs.same⟩
    refine ⟨{ screen₁ with scrolls }, _, ?_, switched_ok h hmem hs' ?_, hs.same, ?_, fun window' => ?_,
      fun window' => ?_⟩
    · rw [hnext, Option.bind_eq_bind, Option.bind_some, hswitch, Option.bind_eq_bind, Option.bind_some, hremove]
      rfl
    · rw [windowScrollOk_iff]
      have hsub : (next :: kept.filter (· ≠ buffer)).Sublist (next :: kept) := List.filter_sublist.cons_cons next
      exact ⟨next, _, hfilter, rfl, hone.sublist hsub, fun x hx => hlbuffers x (hsub.subset hx)⟩
    · rw [hs.windows]
      exact names_setBuffer _ _
    · rw [displayed_switched hs', List.mem_singleton, displayedBuffer]
      cases hw' : screen.windows.tree.search window' with
      | none => simp
      | some w' =>
        obtain ⟨-, rfl⟩ := GuiWindowTree.search_some hw'
        rw [Option.bind_some, Option.bind_some]
        split
        · simp [*]
        · simp [*]
    · rw [List.mem_singleton]
      rcases eq_or_ne window' window with rfl | hne'
      · rw [Function.update_self, hfilter, hdisplayed, hcond.1]
        simpa using hne.symm
      · rw [Function.update_of_ne hne']
        simp [hne']
  · rename_i hcond
    have hnot : w.buffer ≠ some buffer := fun heq => hcond ⟨heq, htwo⟩
    refine ⟨screen, entries, rfl, h, ⟨rfl, rfl⟩, rfl, fun window' => ?_, fun window' => ?_⟩
    · refine ⟨fun heq => ⟨heq, fun hmem => hnot ?_⟩, And.left⟩
      rw [← hdisplayed, ← List.mem_singleton.mp hmem, heq]
    · refine ⟨fun hmem => ⟨hmem, fun hboth => hnot ?_⟩, And.left⟩
      rw [← hdisplayed, ← List.mem_singleton.mp hboth.2, hboth.1]

/-- The loop on windows, when the buffer that is closed has a number of its own. -/
theorem closeWindows_ok {backToBuffer visitedBuffer : Option Buffer} (windows : List Nat)
    (h : ScreenListsOk screen entries)
    (hmem : ∀ window ∈ windows, window ∈ screen.windows.tree.names) (hopen : buffer ∈ screen.buffers.guiBuffers)
    (hother : ∀ x ∈ screen.buffers.guiBuffers, x ≠ buffer → screen.buffers.number buffer ≠ screen.buffers.number x)
    (htwo : 2 ≤ screen.buffers.guiBuffers.length)
    (hback : ∀ x ∈ backToBuffer, x ∈ screen.buffers.guiBuffers ∧ x ≠ buffer)
    (hvisited : ∀ x ∈ visitedBuffer, x ∈ screen.buffers.guiBuffers ∧ x ≠ buffer) :
    ∃ screen' entries', windows.foldlM (guiBufferCloseWindow env backToBuffer visitedBuffer buffer) screen = some screen' ∧
      TakenOut screen screen' entries entries' windows buffer := by
  induction windows generalizing screen entries with
  | nil => exact ⟨screen, entries, rfl, h, ⟨rfl, rfl⟩, rfl, fun _ => by simp, fun _ => by simp⟩
  | cons window windows ih =>
    obtain ⟨screen₁, entries₁, hturn, h₁⟩ :=
      @closeWindow_ok _ _ _ env _ _ _ _ _ h (hmem window List.mem_cons_self) hopen hother htwo hback hvisited
    obtain ⟨screen', entries', hloop, h'⟩ := ih h₁.lists
      (fun window' hw' => by rw [h₁.names]; exact hmem window' (List.mem_cons_of_mem _ hw'))
      (by rwa [h₁.same.guiBuffers]) (by rwa [h₁.same.guiBuffers, h₁.same.number]) (by rwa [h₁.same.guiBuffers])
      (by rwa [h₁.same.guiBuffers]) (by rwa [h₁.same.guiBuffers])
    refine ⟨screen', entries', ?_, h'.lists, ?_, h'.names.trans h₁.names, fun window' => ?_, fun window' => ?_⟩
    · rw [List.foldlM_cons, hturn]
      exact hloop
    · exact ⟨h'.same.guiBuffers.trans h₁.same.guiBuffers, h'.same.number.trans h₁.same.number⟩
    · rw [h'.displayed, h₁.displayed, List.mem_singleton, List.mem_cons, not_or, and_assoc]
    · rw [h'.remembered, h₁.remembered, h₁.displayed, List.mem_singleton, List.mem_cons]
      by_cases hdisplayed : displayedBuffer screen window' = some buffer <;>
        by_cases heq : window' = window <;> simp [hdisplayed, heq]

/-- Nothing is done when WeeChat quits, or with one buffer. -/
theorem closeWindows_none {backToBuffer visitedBuffer : Option Buffer} (windows : List Nat)
    (hmem : ∀ window ∈ windows, window ∈ screen.windows.tree.names) (hone : screen.buffers.guiBuffers.length < 2) :
    windows.foldlM (guiBufferCloseWindow env backToBuffer visitedBuffer buffer) screen = some screen := by
  induction windows with
  | nil => rfl
  | cons window windows ih =>
    obtain ⟨w, hw⟩ := GuiWindowTree.search_of_mem (hmem window List.mem_cons_self)
    have hturn : guiBufferCloseWindow env backToBuffer visitedBuffer buffer screen window = some screen := by
      rw [guiBufferCloseWindow, hw, Option.bind_eq_bind, Option.bind_some, if_neg fun hcond => ?_]
      exact Nat.not_le.mpr hone hcond.2
    rw [List.foldlM_cons, hturn]
    exact ih fun window' hw' => hmem window' (List.mem_cons_of_mem _ hw')

/-- What a window of the screen displays, when no window displays the buffer. -/
theorem bufferRemove_windows (hnone : ∀ w ∈ screen.windows.tree.windows, w.buffer ≠ some buffer) :
    (guiBufferRemove env screen buffer).windows = screen.windows := by
  have hmap : screen.windows.tree.map (fun w : GuiWindow (Option Buffer) => if w.buffer = some buffer then
      { w with buffer := (guiBufferRemove env screen buffer).buffers.guiBuffers.head? } else w) = screen.windows.tree := by
    rw [GuiWindowTree.map_congr fun w hw => if_neg (hnone w hw)]
    induction screen.windows.tree with
    | leaf w => rfl
    | node splitPct splitHorizontal child1 child2 ih1 ih2 => rw [GuiWindowTree.map, ih1, ih2]
  exact congrArg (fun tree => { screen.windows with tree }) hmap

/-- The screen is right without the buffer if and only if no window remembers it. -/
theorem bufferRemove_iff (h : ScreenListsOk screen entries) {before after : List Buffer}
    (halone : AloneAt screen.buffers buffer before after) :
    ScreenOk (guiBufferRemove env screen buffer) ↔ ∀ window, buffer ∉ buffersOf (entries window) := by
  have hscrolls : (guiBufferRemove env screen buffer).scrolls = screen.scrolls := rfl
  have hclosed : buffer ∉ (guiBufferRemove env screen buffer).buffers.guiBuffers := h.buffers.nodup.not_mem_erase
  constructor
  · rintro ⟨entries', h'⟩ window hmem
    have hremembers := (remembers_iff h.scrolls).mpr hmem
    have hscrolls' : ScrollLists screen.scrolls entries' := hscrolls ▸ h'.scrolls
    rw [remembers_iff hscrolls'] at hremembers
    by_cases hw : window ∈ (guiBufferRemove env screen buffer).windows.tree.names
    · obtain ⟨w, hw', rfl⟩ := List.mem_map.mp hw
      obtain ⟨y, hy, hyb⟩ := List.mem_map.mp hremembers
      exact hclosed (hyb ▸ (h'.each w hw').isOpen y hy)
    · rw [h'.closed window hw] at hremembers
      exact absurd hremembers List.not_mem_nil
  · intro hnone
    have hwindows : (guiBufferRemove env screen buffer).windows = screen.windows := by
      refine bufferRemove_windows fun w hw heq => ?_
      obtain ⟨x, xs, hb, hx⟩ := (h.each w hw).first
      refine hnone w.window ?_
      rw [hb, Option.some.inj (heq.symm.trans hx)]
      exact List.mem_cons_self
    refine ⟨entries, ?_, bufferRemove_ok h.buffers halone, h.scrolls, ?_, ?_⟩
    · rw [hwindows]
      exact h.windows
    · rw [hwindows]
      exact h.closed
    · rw [hwindows]
      refine fun w hw => ⟨(h.each w hw).first, (h.each w hw).onePerBuffer, fun x hx => ?_⟩
      refine (List.mem_erase_of_ne fun heq => hnone w.window ?_).mpr ((h.each w hw).isOpen x hx)
      exact heq ▸ List.mem_map_of_mem hx

/-- The buffers when the loop on windows starts. -/
theorem closeBuffers_ok {buffers : GuiBuffers Buffer} (hok : BuffersOk buffers) (hopen : buffer ∈ buffers.guiBuffers)
    (bufferAutoRenumber : Bool) (number : Int) :
    ∃ buffers', (if guiBufferCountMergedBuffers buffers (buffers.number buffer) > 1
      then guiBufferUnmerge bufferAutoRenumber buffers buffer number else buffers) = buffers' ∧ BuffersOk buffers' ∧
      buffers'.guiBuffers.Perm buffers.guiBuffers ∧ ∃ before after, AloneAt buffers' buffer before after := by
  split
  · exact ⟨_, rfl, unmerge_ok hok hopen ‹_› _ _⟩
  · exact ⟨_, rfl, hok, List.Perm.refl _, alone_of_count hok hopen (Nat.not_lt.mp ‹_›)⟩

omit [DecidableEq Buffer] in
theorem aloneAt_ne {buffers : GuiBuffers Buffer} {before after : List Buffer}
    (halone : AloneAt buffers buffer before after) :
    ∀ x ∈ buffers.guiBuffers, x ≠ buffer → buffers.number buffer ≠ buffers.number x := by
  intro x hx hne
  rw [halone.split, List.mem_append, List.mem_cons] at hx
  rcases hx with hx | rfl | hx
  · exact (halone.before x hx).ne'
  · exact absurd rfl hne
  · exact (halone.after x hx).ne

omit [DecidableEq Buffer] in
theorem aloneAt_congr {buffers buffers' : GuiBuffers Buffer} {before after : List Buffer}
    (hsame : SameBuffers buffers buffers')
    (halone : AloneAt buffers buffer before after) : AloneAt buffers' buffer before after := by
  refine ⟨hsame.guiBuffers.trans halone.split, ?_, ?_⟩
  · rw [hsame.number]
    exact halone.before
  · rw [hsame.number]
    exact halone.after

omit [DecidableEq Buffer] in
theorem screenBuffers_ok (h : ScreenListsOk screen entries) {buffers : GuiBuffers Buffer} (hok : BuffersOk buffers)
    (hperm : buffers.guiBuffers.Perm screen.buffers.guiBuffers) : ScreenListsOk { screen with buffers } entries :=
  ⟨h.windows, hok, h.scrolls, h.closed, fun w hw =>
    ⟨(h.each w hw).first, (h.each w hw).onePerBuffer, fun x hx => hperm.mem_iff.mpr ((h.each w hw).isOpen x hx)⟩⟩

/-- The buffer that is visited is another one. -/
theorem visitedBuffer_other (hok : BuffersOk screen.buffers) :
    ∀ x ∈ guiBufferVisitedBuffer env screen buffer, x ∈ screen.buffers.guiBuffers ∧ x ≠ buffer := by
  intro x hx
  rw [guiBufferVisitedBuffer] at hx
  split at hx
  · obtain ⟨hx, hne⟩ := Option.filter_eq_some_iff.mp hx
    refine ⟨hok.visitedOpen x ?_, by simpa using hne⟩
    rw [guiBufferVisitedSearchByNumber] at hx
    split at hx
    · cases hx
    · exact List.mem_of_getElem? hx
  · cases hx

/-- The buffer to go back to, when the one that is closed is merged, is another one. -/
theorem backToBuffer_other {buffers : GuiBuffers Buffer} (hok : BuffersOk buffers)
    (hopen : buffer ∈ buffers.guiBuffers) :
    ∀ x ∈ (if guiBufferCountMergedBuffers buffers (buffers.number buffer) > 1 then
      (guiBufferGetNextActiveBuffer env buffers buffer false).or (guiBufferGetNextActiveBuffer env buffers buffer true)
      else none), x ∈ buffers.guiBuffers ∧ x ≠ buffer := by
  intro x hx
  split at hx
  · rcases Option.or_eq_some_iff.mp hx with hx | ⟨-, hx⟩
    · exact nextActive_other hok.nodup hopen hx
    · exact nextActive_other hok.nodup hopen hx
  · cases hx

/-- When `gui_buffer_close` leaves the lists right. -/
theorem bufferClose_iff (h : ScreenListsOk screen entries) (hopen : buffer ∈ screen.buffers.guiBuffers) :
    (∃ screen', guiBufferClose env screen buffer = some screen' ∧ ScreenOk screen') ↔
      ∀ window, Remembers screen window buffer →
        displayedBuffer screen window = some buffer ∧ env.weechatQuit = false ∧ 2 ≤ screen.buffers.guiBuffers.length := by
  obtain ⟨buffers, hbuffers, hok, hperm, before, after, halone⟩ := closeBuffers_ok h.buffers hopen env.bufferAutoRenumber
    ((screen.buffers.guiBuffers.getLast?.map screen.buffers.number).getD 0 + 1)
  have h₀ := screenBuffers_ok h hok hperm
  have hback := @backToBuffer_other _ env buffer _ _ h.buffers hopen
  simp only [← hperm.mem_iff] at hback
  have hmem : ∀ window ∈ screen.windows.guiWindows, window ∈ screen.windows.tree.names := fun window hw =>
    h.windows.list.mem_iff.mp hw
  simp only [remembers_iff h.scrolls]
  rw [guiBufferClose]
  dsimp only
  rw [hbuffers, ← hperm.length_eq]
  split
  · rename_i hquit
    rw [Option.bind_eq_bind, Option.bind_some]
    simp only [Option.some.injEq, exists_eq_left', bufferRemove_iff h₀ halone, hquit, Bool.true_eq_false,
      false_and, and_false,
      imp_false]
  · rename_i hquit
    rw [Bool.not_eq_true] at hquit
    by_cases htwo : 2 ≤ buffers.guiBuffers.length
    · obtain ⟨screen₁, entries₁, hloop, h₁⟩ := @closeWindows_ok _ _ _ env _ _ _ _ screen.windows.guiWindows h₀ hmem
        (hperm.mem_iff.mpr hopen) (aloneAt_ne halone) htwo hback (visitedBuffer_other hok)
      rw [hloop, Option.bind_eq_bind, Option.bind_some]
      simp only [Option.some.injEq, exists_eq_left',
        bufferRemove_iff h₁.lists (aloneAt_congr h₁.same halone), hquit, htwo,
        h₁.remembered, and_true, not_and, Classical.not_imp, not_not]
      refine forall_congr' fun window => imp_congr_right fun _ => ⟨And.left, fun hdisplayed => ⟨hdisplayed, ?_⟩⟩
      obtain ⟨w, hw, -⟩ := Option.bind_eq_some_iff.mp hdisplayed
      exact h.windows.list.mem_iff.mpr (GuiWindowTree.mem_names_of_search hw)
    · rw [@closeWindows_none _ { screen with buffers } _ _ _ _ _ screen.windows.guiWindows hmem (Nat.not_le.mp htwo),
        Option.bind_eq_bind, Option.bind_some]
      simp only [Option.some.injEq, exists_eq_left', bufferRemove_iff h₀ halone, htwo, and_false, imp_false]

/-! ## Every operation -/

/-- The first structure of a window that is switched to another buffer with the same number is the old one. -/
theorem switchToBuffer_iff (h : ScreenListsOk screen entries) (hopen : buffer ∈ screen.buffers.guiBuffers) :
    (∃ screen', guiWindowSwitchToBuffer env screen window buffer = some screen' ∧ ScreenOk screen') ↔
      ∃ displayed, displayedBuffer screen window = some displayed ∧
        (displayed = buffer ∨ screen.buffers.number displayed ≠ screen.buffers.number buffer) := by
  cases hw : screen.windows.tree.search window with
  | none =>
    rw [guiWindowSwitchToBuffer, displayedBuffer, hw]
    simp
  | some w =>
    have hwindow := window_of_search h hw
    have hmem := GuiWindowTree.mem_names_of_search hw
    obtain ⟨x, xs, hb, hx⟩ := hwindow.first
    rw [displayedBuffer, hw, Option.bind_some, hx]
    simp only [Option.some.injEq, exists_eq_left']
    by_cases hnumber : screen.buffers.number x.2.buffer = screen.buffers.number buffer
    · obtain ⟨screen₁, l, hswitch, hs, hl⟩ := @switchToBuffer_same _ _ _ env _ _ _ _ h hw _ hx hnumber
      have hok := windowScrollOk_congr hl hwindow
      simp only [hswitch, Option.some.injEq, exists_eq_left', hnumber, ne_eq, not_true_eq_false, or_false]
      constructor
      · rintro ⟨entries', h'⟩
        by_contra hne
        obtain ⟨w', hw', hbuffer⟩ : ∃ w', screen₁.windows.tree.search window = some w' ∧ w'.buffer = some buffer := by
          refine Option.bind_eq_some_iff.mp ((displayed_switched hs window).trans ?_)
          rw [hw, Option.bind_some, if_pos (GuiWindowTree.search_some hw).2]
        obtain ⟨y, ys, rfl⟩ : ∃ y ys, l = y :: ys := by
          cases l with
          | nil =>
            rw [hb] at hl
            cases hl
          | cons y ys => exact ⟨y, ys, rfl⟩
        rw [hb] at hl
        have hy : y.2.buffer = x.2.buffer := (List.cons.inj hl).1
        exact search_ne_first hs.scrolls (Function.update_self ..) (hy ▸ hne) (search_displayed h' hw' hbuffer)
      · rintro rfl
        exact ⟨_, switched_ok h hmem hs (hx ▸ hok)⟩
    · obtain ⟨screen₁, l, kept, hswitch, hs, hl, hkept⟩ := @switchToBuffer_ne _ _ _ env _ _ _ _ h hw _ hx hopen hnumber
      simp only [hswitch, Option.some.injEq, exists_eq_left', ne_eq, hnumber, not_false_eq_true, or_true, iff_true]
      refine ⟨_, switched_ok h hmem hs (windowScrollOk_iff.mpr ⟨buffer, kept, hl, rfl, ?_, fun y hy => ?_⟩)⟩
      · exact List.nodup_cons.mpr ⟨fun hmem => by simpa using hkept.subset hmem, (hwindow.onePerBuffer.filter _).sublist hkept⟩
      · rcases List.mem_cons.mp hy with rfl | hy
        · exact hopen
        · obtain ⟨z, hz, rfl⟩ := List.mem_map.mp (List.mem_of_mem_filter (hkept.subset hy))
          exact hwindow.isOpen z hz

/-- A window that is not open is not switched to. -/
theorem screenSwitch_none (h : ScreenListsOk screen entries) (hmem : window ∉ screen.windows.tree.names) :
    guiScreenSwitch env screen window = none := by
  have hne : screen.windows.currentWindow ≠ window := fun heq => hmem (heq ▸ h.windows.current)
  have hnone : ∀ {screen' : GuiScreen Buffer}, screen'.windows.tree.names = screen.windows.tree.names →
      Wirc.guiWindowSwitch screen'.windows window = none := fun hnames => by
    rw [Wirc.guiWindowSwitch, GuiWindowTree.search_of_notMem (by rwa [hnames]), Option.map_none]
  rw [guiScreenSwitch, if_neg hne]
  dsimp only
  split
  · obtain ⟨screen₁, hbars, -, hnames⟩ := @switchToOwnBuffer_ok _ _ _ env _ _ h h.windows.current
    rw [hbars, Option.bind_eq_bind, Option.bind_some, hnone hnames]
    rfl
  · rw [Option.bind_eq_bind, Option.bind_some, hnone rfl]
    rfl

/-- What leaves the scroll lists right, of each operation. -/
theorem screen_step (hok : ScreenOk screen) (op : GuiScreenOp Buffer) :
    KeepsScrolls screen op ↔ ∃ screen', op.run screen = some screen' ∧ ScreenOk screen' := by
  obtain ⟨entries, h⟩ := hok
  -- an operation on a window that is not open has no result
  have hopen : ∀ {window : Nat} {result : Option (GuiScreen Buffer)},
      (window ∈ screen.windows.tree.names → ∃ screen', result = some screen' ∧ ScreenOk screen') →
      (window ∉ screen.windows.tree.names → result = none) →
      (window ∈ screen.windows.tree.names ↔ ∃ screen', result = some screen' ∧ ScreenOk screen') := by
    intro window result hyes hno
    refine ⟨hyes, fun ⟨screen', hrun, _⟩ => ?_⟩
    by_contra hmem
    rw [hno hmem] at hrun
    cases hrun
  cases op with
  | new parentWindow buffer pos =>
    rw [KeepsScrolls, GuiScreenOp.run]
    split
    · rw [and_iff_left ‹_›]
      refine hopen (fun hmem => ?_) fun hmem => ?_
      · obtain ⟨w, hw⟩ := GuiWindowTree.search_of_mem hmem
        obtain ⟨screen', hnew, hok', -⟩ := screenNew_ok h hw ‹_› pos
        exact ⟨screen', hnew, hok'⟩
      · rw [guiScreenNew, GuiWindowTree.search_of_notMem hmem]
        rfl
    · simp [*]
  | splitHorizontal env look window percentage =>
    refine hopen (fun hmem => screenSplit_ok h hmem _) fun hmem => ?_
    rw [GuiScreenOp.run, guiScreenSplit, GuiWindowTree.search_of_notMem hmem]
    rfl
  | splitVertical env look window percentage =>
    refine hopen (fun hmem => screenSplit_ok h hmem _) fun hmem => ?_
    rw [GuiScreenOp.run, guiScreenSplit, GuiWindowTree.search_of_notMem hmem]
    rfl
  | merge env look window =>
    refine hopen (fun hmem => screenMerge_ok h hmem look) fun hmem => ?_
    rw [GuiScreenOp.run, guiScreenMerge, guiWindowMerge, GuiWindowTree.search_of_notMem hmem]
    rfl
  | mergeAll env area window =>
    refine hopen (fun hmem => screenMergeAll_ok h hmem area) fun hmem => ?_
    rw [GuiScreenOp.run, guiScreenMergeAll, guiWindowMergeAll, GuiWindowTree.search_of_notMem hmem]
    rfl
  | «switch» env window => exact hopen (fun hmem => screenSwitch_ok ⟨entries, h⟩ hmem) (screenSwitch_none h)
  | switchToBuffer env window buffer =>
    rw [KeepsScrolls, GuiScreenOp.run]
    split
    · rw [and_iff_right ‹_›]
      exact (switchToBuffer_iff h ‹_›).symm
    · simp [*]
  | scroll window buffer pos =>
    refine hopen (fun hmem => screenScroll_ok h hmem buffer pos) fun hmem => ?_
    rw [GuiScreenOp.run, guiScreenScroll, GuiWindowTree.search_of_notMem hmem]
    rfl
  | close env buffer =>
    rw [KeepsScrolls, GuiScreenOp.run]
    split
    · rw [and_iff_right ‹_›]
      exact (bufferClose_iff h ‹_›).symm
    · simp [*]

/-- The scroll lists are right in all states of a run if and only if no window is
switched to another buffer with the number of its own, and no buffer is closed that
a window remembers without displaying it. -/
theorem scrolls_run_iff (h : ScreenOk screen) (ops : List (GuiScreenOp Buffer)) :
    (∀ before after, ops = before ++ after →
      ∃ screen', before.foldlM GuiScreenOp.run screen = some screen' ∧ ScreenOk screen') ↔
    AlongM GuiScreenOp.run KeepsScrolls screen ops :=
  alongM_states_iff (fun _ op hok => screen_step hok op) h ops

/-- Options of WeeChat when it does not quit. -/
def screenEnvDefault : GuiBufferEnv Nat where
  typeFree _ := false
  hidden _ := false
  scrollBottomAfterSwitch := false
  jumpPreviousBufferWhenClosing := true
  bufferAutoRenumber := true
  maxVisitedBuffers := 50
  guiBuffersVisitedFrozen := false
  weechatQuit := false
  barsChanged := false

/-- One window on the first of some buffers. -/
def screenOfNumbers (numbers : List Int) : GuiScreen Nat :=
  guiScreenFirst ⟨List.range numbers.length, fun i => numbers.getD i 0, [], -1⟩ 0 ⟨0, 0, 80, 25, 100, 100⟩

theorem screenOfNumbers_ok : ScreenOk (screenOfNumbers [1, 2]) :=
  screenFirst_ok ⟨by decide, by decide, by decide, by decide⟩ (by decide) _

/-- The second buffer is displayed for some time and scrolled. -/
def rememberSecond : List (GuiScreenOp Nat) :=
  [.switchToBuffer screenEnvDefault 0 1, .scroll 0 1 { guiWindowScrollInitPos with scrolling := true },
    .switchToBuffer screenEnvDefault 0 0]

theorem scrolls_run_iff_first :
    (∀ before after, [GuiScreenOp.switchToBuffer screenEnvDefault 0 1, .close screenEnvDefault 1] = before ++ after →
      ∃ screen', before.foldlM GuiScreenOp.run (screenOfNumbers [1, 2]) = some screen' ∧ ScreenOk screen') ↔
    AlongM GuiScreenOp.run KeepsScrolls (screenOfNumbers [1, 2])
      [.switchToBuffer screenEnvDefault 0 1, .close screenEnvDefault 1] :=
  scrolls_run_iff screenOfNumbers_ok _

/-- A window that is switched to a buffer merged with its own has no structure for it, and
a window that remembers a buffer keeps its structure when the buffer is closed. -/
theorem scrolls_run_fails :
    (ScreenOk (screenOfNumbers [1, 1]) ∧ ¬ ∃ screen',
      [GuiScreenOp.switchToBuffer screenEnvDefault 0 1].foldlM GuiScreenOp.run (screenOfNumbers [1, 1]) = some screen' ∧
        ScreenOk screen') ∧
    (ScreenOk (screenOfNumbers [1, 2]) ∧ ¬ ∃ screen',
      (rememberSecond ++ [GuiScreenOp.close screenEnvDefault 1]).foldlM GuiScreenOp.run (screenOfNumbers [1, 2]) = some screen' ∧
        ScreenOk screen') := by
  refine ⟨⟨screenFirst_ok ⟨by decide, by decide, by decide, by decide⟩ (by decide) _, ?_⟩, screenOfNumbers_ok, ?_⟩
  · rintro ⟨screen', hrun, entries, h⟩
    cases hrun
    obtain ⟨x, xs, hb, hx⟩ := (h.each _ (List.mem_singleton_self _)).first
    have hfirst := @search_displayed _ _ _ 0 1 _ _ h rfl rfl
    exact absurd hfirst (by decide)
  · rintro ⟨screen', hrun, entries, h⟩
    cases hrun
    have hremembers := (@remembers_iff _ _ _ 0 1 _ h.scrolls).mp ⟨1, by rfl⟩
    obtain ⟨x, hx, hbuffer⟩ := List.mem_map.mp hremembers
    have hopen := (h.each _ (List.mem_singleton_self _)).isOpen x hx
    rw [hbuffer] at hopen
    exact absurd hopen (by decide)

end Wirc

import WhoreIrc.Spec.Hook

/-!
# The lists of hooks

`HookLists state b`: the hooks of each type are the linked list `b type`. Each
operation is a change of these lists, and none follows a bad pointer.
-/

namespace Wirc

open Framework

/-- `b type` is the list of the hooks of that type. -/
structure HookLists (state : Hooks) (b : HookType → List (Addr × Hook)) : Prop where
  lists : Lists state.memory b
  first : ∀ type, state.weechatHooks type = firstPtr (b type) none
  last : ∀ type, state.lastWeechatHook type = lastPtr none (b type)
  typed : ∀ type, ∀ x ∈ b type, x.2.type = type
  count : ∀ type, state.hooksCount type = ((b type).length : Int)
  all : ∀ a, state.memory a ≠ none → ∃ type, a ∈ addrs (b type)

/-- Names are there for all hooks that are not deleted. -/
def HookNames (b : HookType → List (Addr × Hook)) : Prop :=
  ∀ type, ∀ x ∈ b type, x.2.deleted = false → x.2.hookData ≠ none

section

variable {state : Hooks} {b : HookType → List (Addr × Hook)} {type : HookType} {a : Addr} {d : Hook}
  {xs ys : List (Addr × Hook)}

theorem HookLists.allocated (h : HookLists state b) : state.memory a ≠ none ↔ ∃ type, a ∈ addrs (b type) := by
  refine ⟨h.all a, ?_⟩
  rintro ⟨type, ha⟩
  exact (h.lists.linked type).allocated ha

theorem HookLists.rounds (h : HookLists state b) (type : HookType) : hookRounds state type = (b type).length + 1 := by
  rw [hookRounds, h.count, Int.toNat_natCast]

theorem HookLists.lt_rounds (h : HookLists state b) (type : HookType) : (b type).length < hookRounds state type := by
  rw [h.rounds]
  exact Nat.lt_succ_self _

/-- The lists do not depend on the calls that run. -/
theorem HookLists.exec (h : HookLists state b) (hookExecRecursion : Nat) (realDeletePending : Bool) :
    HookLists { state with hookExecRecursion, realDeletePending } b :=
  ⟨h.lists, h.first, h.last, h.typed, h.count, h.all⟩

/-! ## Walks -/

theorem hooksFrom_ok {q : Option Addr} {rounds : Nat} (hs : Seg state.memory q xs none) (hr : xs.length < rounds) :
    hooksFrom state rounds (firstPtr xs none) = xs := by
  induction xs generalizing q rounds with
  | nil =>
    obtain ⟨rounds, rfl⟩ := Nat.exists_eq_succ_of_ne_zero (Nat.ne_of_gt (Nat.zero_lt_of_lt hr))
    rfl
  | cons x xs ih =>
    obtain ⟨rounds, rfl⟩ := Nat.exists_eq_succ_of_ne_zero (Nat.ne_of_gt (Nat.zero_lt_of_lt hr))
    simp only [firstPtr_cons, hooksFrom, hs.1, ih hs.2 (Nat.lt_of_succ_lt_succ hr)]

/-- The hooks from one of the list on. -/
theorem HookLists.hooksFrom (h : HookLists state b) (hb : b type = xs ++ ys) :
    hooksFrom state (hookRounds state type) (firstPtr ys none) = ys := by
  have hs := h.lists.linked type
  rw [hb, seg_append] at hs
  refine hooksFrom_ok hs.2 ?_
  rw [h.rounds, hb, List.length_append]
  omega

theorem HookLists.hookList (h : HookLists state b) (type : HookType) : hookList state type = b type := by
  rw [Wirc.hookList, h.first]
  exact h.hooksFrom (show b type = [] ++ b type from rfl)

/-- The walk of `hook_find_pos` stops at the first hook that the new one goes before. -/
theorem hookFindPosLoop_ok {hook : Hook} {q : Option Addr} {l : List (Addr × Hook)} {rounds : Nat}
    (hs : Seg state.memory q l none) (hr : l.length < rounds) (hhook : hook.hookData ≠ none)
    (hnames : ∀ x ∈ l, x.2.deleted = false → x.2.hookData ≠ none) :
    ∃ xs ys, l = xs ++ ys ∧ (∀ x ∈ xs, hookGoesBefore hook x.2 = some false) ∧
      (∀ y ∈ ys.head?, hookGoesBefore hook y.2 = some true) ∧
      hookFindPosLoop state hook rounds (firstPtr l none) = some (firstPtr ys none) := by
  induction l generalizing q rounds with
  | nil =>
    obtain ⟨rounds, rfl⟩ := Nat.exists_eq_succ_of_ne_zero (Nat.ne_of_gt (Nat.zero_lt_of_lt hr))
    exact ⟨[], [], rfl, nofun, nofun, rfl⟩
  | cons x l ih =>
    obtain ⟨rounds, rfl⟩ := Nat.exists_eq_succ_of_ne_zero (Nat.ne_of_gt (Nat.zero_lt_of_lt hr))
    have hbefore : ∃ r, hookGoesBefore hook x.2 = some r := by
      rw [hookGoesBefore]
      split
      · exact ⟨_, rfl⟩
      · rename_i hdel
        obtain ⟨command, hc⟩ := Option.ne_none_iff_exists'.mp hhook
        obtain ⟨command', hc'⟩ :=
          Option.ne_none_iff_exists'.mp (hnames x (List.mem_cons_self ..) (Bool.eq_false_iff.mpr hdel))
        rw [hc, hc']
        split <;> exact ⟨_, rfl⟩
    obtain ⟨r, hbefore⟩ := hbefore
    cases r with
    | true =>
      refine ⟨[], x :: l, rfl, nofun, fun y hy => ?_, ?_⟩
      · cases hy
        exact hbefore
      · simp only [firstPtr_cons, hookFindPosLoop, hs.1, hbefore, Option.bind_eq_bind, Option.bind_some, if_true]
    | false =>
      obtain ⟨xs, ys, rfl, hxs, hys, hloop⟩ := ih hs.2 (Nat.lt_of_succ_lt_succ hr) fun y hy =>
        hnames y (List.mem_cons_of_mem _ hy)
      refine ⟨x :: xs, ys, rfl, fun y hy => ?_, hys, ?_⟩
      · rcases List.mem_cons.mp hy with rfl | hy
        · exact hbefore
        · exact hxs y hy
      · simp only [firstPtr_cons, hookFindPosLoop, hs.1, hbefore, Option.bind_eq_bind, Option.bind_some,
          Bool.false_eq_true, if_false]
        exact hloop

/-! ## Changes of one list -/

/-- What no change of a list touches. -/
structure SameExec (state state' : Hooks) : Prop where
  recursion : state'.hookExecRecursion = state.hookExecRecursion
  pending : state'.realDeletePending = state.realDeletePending

theorem HookLists.update (h : HookLists state b) {l : List (Addr × Hook)} {memory : Heap Hook}
    {weechatHooks lastWeechatHook : HookType → Option Addr} {hooksCount : HookType → Int}
    (hlists : Lists memory (Function.update b type l))
    (hfirst : weechatHooks = Function.update state.weechatHooks type (firstPtr l none))
    (hlast : lastWeechatHook = Function.update state.lastWeechatHook type (lastPtr none l))
    (hcount : hooksCount = Function.update state.hooksCount type l.length)
    (htyped : ∀ x ∈ l, x.2.type = type)
    (hall : ∀ c, memory c ≠ none → c ∈ addrs l ∨ c ∉ addrs (b type) ∧ state.memory c ≠ none) :
    HookLists { state with memory, weechatHooks, lastWeechatHook, hooksCount } (Function.update b type l) := by
  refine ⟨hlists, fun t => ?_, fun t => ?_, fun t => ?_, fun t => ?_, fun c hc => ?_⟩
  · rcases eq_or_ne t type with rfl | ht
    · simp only [hfirst, Function.update_self]
    · simp only [hfirst, Function.update_of_ne ht, h.first]
  · rcases eq_or_ne t type with rfl | ht
    · simp only [hlast, Function.update_self]
    · simp only [hlast, Function.update_of_ne ht, h.last]
  · rcases eq_or_ne t type with rfl | ht
    · rwa [Function.update_self]
    · rw [Function.update_of_ne ht]
      exact h.typed t
  · rcases eq_or_ne t type with rfl | ht
    · simp only [hcount, Function.update_self]
    · simp only [hcount, Function.update_of_ne ht, h.count]
  · rcases hall c hc with hcl | ⟨hct, hold⟩
    · exact ⟨type, by rwa [Function.update_self]⟩
    · obtain ⟨t, ht⟩ := h.all c hold
      have hne : t ≠ type := by
        rintro rfl
        exact hct ht
      exact ⟨t, by rwa [Function.update_of_ne hne]⟩

/-- `hook_add_to_list` puts the hook before the first one that it goes before. -/
theorem HookLists.addToList (h : HookLists state b) (hnames : HookNames b) {hook : Hook} {newHook : Addr}
    (hhook : hook.hookData ≠ none) (hnew : state.memory newHook = none) :
    ∃ xs ys state', b hook.type = xs ++ ys ∧ (∀ x ∈ xs, hookGoesBefore hook x.2 = some false) ∧
      (∀ y ∈ ys.head?, hookGoesBefore hook y.2 = some true) ∧
      hookAddToList state newHook hook = some state' ∧ SameExec state state' ∧
      HookLists state' (Function.update b hook.type (xs ++ (newHook, hook) :: ys)) := by
  obtain ⟨xs, ys, hb, hxs, hys, hloop⟩ := hookFindPosLoop_ok (h.lists.linked hook.type)
    (h.lt_rounds hook.type) hhook (hnames hook.type)
  have hseg := h.lists.linked hook.type
  rw [hb, seg_append] at hseg
  refine ⟨xs, ys, { state with
    memory := ((state.memory.store newHook ⟨hook, lastPtr none xs, firstPtr ys none⟩).setPrev (firstPtr ys none)
      (some newHook)).setNext (lastPtr none xs) (some newHook)
    weechatHooks := Function.update state.weechatHooks hook.type (firstPtr (xs ++ (newHook, hook) :: ys) none)
    lastWeechatHook := Function.update state.lastWeechatHook hook.type (lastPtr none (xs ++ (newHook, hook) :: ys))
    hooksCount := Function.update state.hooksCount hook.type (xs ++ (newHook, hook) :: ys).length },
    hb, hxs, hys, ?_, ⟨rfl, rfl⟩, h.update (h.lists.insert hb hnew hook) rfl rfl rfl ?_ ?_⟩
  · have hfirst := h.first hook.type
    have hlast := h.last hook.type
    rw [hb] at hfirst hlast
    have hcount : Function.update state.hooksCount hook.type (state.hooksCount hook.type + 1) =
        Function.update state.hooksCount hook.type ((xs ++ (newHook, hook) :: ys).length : Int) := by
      rw [h.count, hb]
      simp only [List.length_append, List.length_cons]
      rfl
    rw [← h.first] at hloop
    simp only [hookAddToList, hookFindPos, hloop, hcount]
    cases ys with
    | cons y ys =>
      have hsome : (state.weechatHooks hook.type).isSome = true := by
        rw [hfirst]
        cases xs <;> rfl
      have hsame : Function.update state.lastWeechatHook hook.type (lastPtr none (xs ++ (newHook, hook) :: y :: ys)) =
          state.lastWeechatHook := by
        rw [Function.update_eq_self_iff, hlast, lastPtr_append_cons none, lastPtr_append_cons none]
        rfl
      simp only [hsome, if_true, firstPtr_cons, hseg.2.1, Option.bind_eq_bind, Option.bind_some, hsame,
        Heap.setNext_setPrev]
      cases xs with
      | nil => rfl
      | cons x xs =>
        have hsame' : Function.update state.weechatHooks hook.type
            (firstPtr (x :: xs ++ (newHook, hook) :: y :: ys) none) = state.weechatHooks := by
          rw [Function.update_eq_self_iff, hfirst]
          rfl
        simp only [lastPtr_cons_isSome, if_true, hsame']
    | nil =>
      cases xs with
      | nil =>
        have hnone : (state.weechatHooks hook.type).isSome = false := by
          rw [hfirst]
          rfl
        simp only [hnone, Bool.false_eq_true, if_false]
        rfl
      | cons x xs =>
        have hsome : (state.weechatHooks hook.type).isSome = true := by
          rw [hfirst]
          rfl
        have hsame : Function.update state.weechatHooks hook.type (firstPtr (x :: xs ++ [(newHook, hook)]) none) =
            state.weechatHooks := by
          rw [Function.update_eq_self_iff, hfirst]
          rfl
        simp only [hsome, if_true, firstPtr_nil, Option.bind_eq_bind, Option.bind_some, hsame, hlast,
          List.append_nil, lastPtr_append]
        rfl
  · intro x hx
    rcases List.mem_append.mp hx with hx | hx
    · exact h.typed _ x (hb ▸ List.mem_append_left _ hx)
    · rcases List.mem_cons.mp hx with rfl | hx
      · rfl
      · exact h.typed _ x (hb ▸ List.mem_append_right _ hx)
  · intro c hc
    rw [ne_eq, Heap.setNext_eq_none, Heap.setPrev_eq_none] at hc
    simp only [hb, addrs_append, List.mem_append, List.map_cons, List.mem_cons]
    rcases eq_or_ne c newHook with rfl | hne
    · exact .inl (.inr (.inl rfl))
    · rw [Heap.store_of_ne hne] at hc
      tauto

/-- `hook_remove_from_list`. -/
theorem HookLists.removeFromList (h : HookLists state b) (hb : b type = xs ++ (a, d) :: ys) :
    ∃ state', hookRemoveFromList state a = some state' ∧ SameExec state state' ∧
      HookLists state' (Function.update b type (xs ++ ys)) := by
  have hseg := h.lists.linked type
  rw [hb, seg_append] at hseg
  have hnode := hseg.2.1
  have htype : d.type = type := h.typed type (a, d) (by rw [hb]; simp)
  have hnodup := h.lists.nodup type
  rw [hb, addrs_append, List.nodup_append] at hnodup
  obtain ⟨-, hnodup, hdisjoint⟩ := hnodup
  refine ⟨{ state with
    memory := ((state.memory.setNext (lastPtr none xs) (firstPtr ys none)).setPrev (firstPtr ys none)
      (lastPtr none xs)).free a
    weechatHooks := Function.update state.weechatHooks type (firstPtr (xs ++ ys) none)
    lastWeechatHook := Function.update state.lastWeechatHook type (lastPtr none (xs ++ ys))
    hooksCount := Function.update state.hooksCount type (xs ++ ys).length },
    ?_, ⟨rfl, rfl⟩, h.update (h.lists.unlink hb) rfl rfl rfl ?_ ?_⟩
  · have hfirst := h.first type
    have hlast := h.last type
    rw [hb] at hfirst hlast
    have hcount : Function.update state.hooksCount type (state.hooksCount type - 1) =
        Function.update state.hooksCount type ((xs ++ ys).length : Int) := by
      rw [h.count, hb]
      congr 1
      simp only [List.length_append, List.length_cons]
      omega
    have hlast' : (if state.lastWeechatHook type = some a then
        Function.update state.lastWeechatHook type (lastPtr none xs) else state.lastWeechatHook) =
          Function.update state.lastWeechatHook type (lastPtr none (xs ++ ys)) := by
      cases ys with
      | nil => rw [if_pos (by rw [hlast, lastPtr_append]; rfl), List.append_nil]
      | cons y ys =>
        have hne : state.lastWeechatHook type ≠ some a := by
          rw [hlast, lastPtr_append_cons none]
          intro hya
          have hmem : a ∉ y.1 :: addrs ys := (List.nodup_cons.mp hnodup).1
          rcases lastPtr_mem (show lastPtr (some y.1) ys = some a from hya) with hys | hy
          · exact hmem (List.mem_cons_of_mem _ hys)
          · exact hmem (Option.some.inj hy ▸ List.mem_cons_self ..)
        rw [if_neg hne, eq_comm, Function.update_eq_self_iff, hlast, lastPtr_append_cons none,
          lastPtr_append_cons none]
        rfl
    have hfirst' : (if (lastPtr none xs).isSome then state.weechatHooks
        else Function.update state.weechatHooks type (firstPtr ys none)) =
          Function.update state.weechatHooks type (firstPtr (xs ++ ys) none) := by
      cases xs with
      | nil => rfl
      | cons x xs =>
        rw [if_pos lastPtr_cons_isSome, eq_comm, Function.update_eq_self_iff, hfirst]
        rfl
    simp only [hookRemoveFromList, hnode, Option.bind_eq_bind, Option.bind_some, htype, hcount, hlast', hfirst']
  · intro x hx
    refine h.typed _ x (hb ▸ ?_)
    rcases List.mem_append.mp hx with hx | hx
    · exact List.mem_append_left _ hx
    · exact List.mem_append_right _ (List.mem_cons_of_mem _ hx)
  · intro c hc
    have hca : c ≠ a := by
      rintro rfl
      exact hc (Function.update_self ..)
    rw [Heap.free_of_ne hca, ne_eq, Heap.setPrev_eq_none, Heap.setNext_eq_none] at hc
    simp only [hb, addrs_append, List.mem_append, List.map_cons, List.mem_cons]
    tauto

/-! ## Changes of one hook -/

/-- The lists with other data in the hook at `a`. -/
def setHook (a : Addr) (d : Hook) (b : HookType → List (Addr × Hook)) (type : HookType) : List (Addr × Hook) :=
  (b type).map fun x => if x.1 = a then (a, d) else x

theorem addrs_setHook : addrs (setHook a d b type) = addrs (b type) := by
  rw [setHook, addrs, addrs, List.map_map]
  refine List.map_congr_left fun x _ => ?_
  simp only [Function.comp_apply]
  split
  · rename_i hx
    exact hx.symm
  · rfl

theorem mem_setHook {x : Addr × Hook} (hx : x ∈ setHook a d b type) :
    x = (a, d) ∧ a ∈ addrs (b type) ∨ x.1 ≠ a ∧ x ∈ b type := by
  obtain ⟨y, hy, rfl⟩ := List.mem_map.mp hx
  split
  · rename_i hya
    exact .inl ⟨rfl, hya ▸ List.mem_map_of_mem hy⟩
  · rename_i hya
    exact .inr ⟨hya, hy⟩

/-- In the list of the hook only. -/
theorem HookLists.setHook_eq (h : HookLists state b) (hb : b type = xs ++ (a, d) :: ys) (d' : Hook) :
    setHook a d' b = Function.update b type (xs ++ (a, d') :: ys) := by
  have hmem : a ∈ addrs (b type) := by
    rw [hb, addrs_append]
    simp
  have hnodup := h.lists.nodup type
  rw [hb, addrs_append, List.nodup_append] at hnodup
  obtain ⟨-, hys, hxs⟩ := hnodup
  have hkeep : ∀ l : List (Addr × Hook), a ∉ addrs l → (l.map fun x => if x.1 = a then (a, d') else x) = l := by
    intro l hl
    refine (List.map_congr_left fun x hx => if_neg ?_).trans (List.map_id l)
    rintro rfl
    exact hl (List.mem_map_of_mem hx)
  funext t
  rcases eq_or_ne t type with rfl | ht
  · rw [Function.update_self, setHook, hb, List.map_append, List.map_cons,
      hkeep xs fun ha => hxs a ha a (List.mem_cons_self ..) rfl, hkeep ys (List.nodup_cons.mp hys).1, if_pos rfl]
  · rw [Function.update_of_ne ht]
    exact hkeep (b t) (h.lists.disjoint type t ht.symm a hmem)

/-- Data may be changed, other than the type. -/
theorem HookLists.setData (h : HookLists state b) (hmem : (a, d) ∈ b type) (d' : Hook) (htype : d'.type = d.type) :
    HookLists { state with memory := state.memory.setData a d' } (setHook a d' b) := by
  obtain ⟨xs, ys, hb⟩ := List.append_of_mem hmem
  refine ⟨h.setHook_eq hb d' ▸ h.lists.setData hb, fun t => ?_, fun t => ?_, fun t x hx => ?_, fun t => ?_,
    fun c hc => ?_⟩
  · rw [h.first, firstPtr_none, firstPtr_none, addrs_setHook]
  · rw [h.last, lastPtr_none, lastPtr_none, addrs_setHook]
  · rcases mem_setHook hx with ⟨rfl, ha⟩ | ⟨-, hx⟩
    · have ht : t = type := by
        by_contra hne
        exact h.lists.disjoint t type hne a ha (List.mem_map_of_mem hmem)
      rw [ht, ← h.typed type _ hmem]
      exact htype
    · exact h.typed t x hx
  · rw [h.count, setHook, List.length_map]
  · rw [ne_eq, Heap.setData, Heap.modify_eq_none] at hc
    obtain ⟨t, ht⟩ := h.all c hc
    exact ⟨t, by rwa [addrs_setHook]⟩

/-- The hook at an address of a list. -/
theorem HookLists.node (h : HookLists state b) (hmem : (a, d) ∈ b type) :
    ∃ node, state.memory a = some node ∧ node.data = d := (h.lists.linked type).mem hmem

/-! ## Hooks that are deleted -/

/-- The loop of `hook_remove_deleted`, from the hooks `ys` on. -/
theorem HookLists.removeDeletedLoop {rounds : Nat} (h : HookLists state b) (hb : b type = xs ++ ys)
    (hr : ys.length < rounds) :
    ∃ state', hookRemoveDeletedLoop rounds state (firstPtr ys none) = some state' ∧ SameExec state state' ∧
      HookLists state' (Function.update b type (xs ++ ys.filter fun x => !x.2.deleted)) := by
  induction ys generalizing state b xs rounds with
  | nil =>
    obtain ⟨rounds, rfl⟩ := Nat.exists_eq_succ_of_ne_zero (Nat.ne_of_gt (Nat.zero_lt_of_lt hr))
    refine ⟨state, rfl, ⟨rfl, rfl⟩, ?_⟩
    rw [List.filter_nil, ← hb, Function.update_eq_self]
    exact h
  | cons y ys ih =>
    obtain ⟨rounds, rfl⟩ := Nat.exists_eq_succ_of_ne_zero (Nat.ne_of_gt (Nat.zero_lt_of_lt hr))
    have hseg := h.lists.linked type
    rw [hb, seg_append] at hseg
    simp only [firstPtr_cons, hookRemoveDeletedLoop, hseg.2.1, Option.bind_eq_bind, Option.bind_some]
    cases hdel : y.2.deleted with
    | true =>
      obtain ⟨state₁, hremove, hexec, h₁⟩ := h.removeFromList hb
      obtain ⟨state₂, hloop, hexec', h₂⟩ := ih h₁ (Function.update_self ..) (Nat.lt_of_succ_lt_succ hr)
      refine ⟨state₂, ?_, ⟨hexec'.1.trans hexec.1, hexec'.2.trans hexec.2⟩, ?_⟩
      · simp only [if_true, hremove, Option.bind_some, hloop]
      · rw [Function.update_idem] at h₂
        simpa [hdel] using h₂
    | false =>
      obtain ⟨state₂, hloop, hexec', h₂⟩ := ih h (show b type = (xs ++ [y]) ++ ys by rw [hb, List.append_assoc]; rfl)
        (Nat.lt_of_succ_lt_succ hr)
      refine ⟨state₂, ?_, hexec', ?_⟩
      · simp only [Bool.false_eq_true, if_false, hloop]
      · simpa [hdel] using h₂

/-- `hook_remove_deleted`. -/
theorem HookLists.removeDeleted (h : HookLists state b)
    (hpending : state.realDeletePending = false → ∀ type, ∀ x ∈ b type, x.2.deleted = false) :
    ∃ state', hookRemoveDeleted state = some state' ∧ state'.hookExecRecursion = state.hookExecRecursion ∧
      HookLists state' fun type => (b type).filter fun x => !x.2.deleted := by
  have hfold : ∀ types : List HookType, ∀ state b, HookLists state b →
      ∃ state', types.foldlM (fun state type =>
          hookRemoveDeletedLoop (hookRounds state type) state (state.weechatHooks type)) state = some state' ∧
        state'.hookExecRecursion = state.hookExecRecursion ∧
        HookLists state' fun type => if type ∈ types then (b type).filter fun x => !x.2.deleted else b type := by
    intro types
    induction types with
    | nil =>
      intro state b h
      refine ⟨state, rfl, rfl, ?_⟩
      simpa using h
    | cons t types ih =>
      intro state b h
      obtain ⟨state₁, hloop, hexec, h₁⟩ := h.removeDeletedLoop (show b t = [] ++ b t from rfl) (h.lt_rounds t)
      obtain ⟨state₂, hfold, hrec, h₂⟩ := ih state₁ _ h₁
      refine ⟨state₂, ?_, hrec.trans hexec.1, ?_⟩
      · rw [List.foldlM_cons, h.first, hloop]
        exact hfold
      · convert h₂ using 2 with type
        rcases eq_or_ne type t with rfl | ht
        · simp [Function.update_self, List.filter_filter]
        · simp only [List.mem_cons, ht, false_or, Function.update_of_ne ht]
  cases hp : state.realDeletePending with
  | true =>
    obtain ⟨state', hrun, hrec, h'⟩ := hfold hookTypes state b h
    refine ⟨{ state' with realDeletePending := false }, ?_, hrec, ?_⟩
    · simp only [hookRemoveDeleted, hp, if_true, hrun, Option.bind_eq_bind, Option.bind_some]
    · have hall : ∀ type : HookType, type ∈ hookTypes := fun type => by cases type <;> decide
      simp only [hall, if_true] at h'
      exact h'.exec _ false
  | false =>
    refine ⟨state, ?_, rfl, ?_⟩
    · simp only [hookRemoveDeleted, hp, Bool.false_eq_true, if_false]
    · convert h using 2 with type
      exact List.filter_eq_self.mpr fun x hx => by rw [hpending hp type x hx, Bool.not_false]

/-! ## Valid hooks -/

theorem hookValidLoop_ok (hook : Addr) {q : Option Addr} {l : List (Addr × Hook)} {rounds : Nat}
    (hs : Seg state.memory q l none) (hr : l.length < rounds) :
    hookValidLoop state hook rounds (firstPtr l none) = some (l.any fun x => !x.2.deleted && x.1 = hook) := by
  induction l generalizing q rounds with
  | nil =>
    obtain ⟨rounds, rfl⟩ := Nat.exists_eq_succ_of_ne_zero (Nat.ne_of_gt (Nat.zero_lt_of_lt hr))
    rfl
  | cons x l ih =>
    obtain ⟨rounds, rfl⟩ := Nat.exists_eq_succ_of_ne_zero (Nat.ne_of_gt (Nat.zero_lt_of_lt hr))
    simp only [firstPtr_cons, hookValidLoop, hs.1, Option.bind_eq_bind, Option.bind_some, List.any_cons,
      ih hs.2 (Nat.lt_of_succ_lt_succ hr)]
    cases !x.2.deleted && x.1 = hook <;> rfl

/-- `hook_valid`: the hook is in a list and not deleted. -/
theorem HookLists.valid (h : HookLists state b) (hook : Addr) :
    ∃ r, hookValid state (some hook) = some r ∧
      (r = true ↔ ∃ type, ∃ x ∈ b type, x.2.deleted = false ∧ x.1 = hook) := by
  have htypes : ∀ types : List HookType, hookValidTypes state hook types =
      some (types.any fun type => (b type).any fun x => !x.2.deleted && x.1 = hook) := by
    intro types
    induction types with
    | nil => rfl
    | cons t types ih =>
      have hloop := hookValidLoop_ok hook (h.lists.linked t) (h.lt_rounds t)
      simp only [hookValidTypes, h.first, hloop, ih, Option.bind_eq_bind, Option.bind_some, List.any_cons]
      cases (b t).any fun x => !x.2.deleted && x.1 = hook <;> rfl
  refine ⟨_, htypes hookTypes, ?_⟩
  have hall : ∀ type : HookType, type ∈ hookTypes := fun type => by cases type <;> decide
  simp only [List.any_eq_true, hall, true_and, Bool.and_eq_true, Bool.not_eq_true', decide_eq_true_eq]

/-- `unhook` does nothing, or removes the hook, or marks it deleted. -/
theorem HookLists.unhook (h : HookLists state b) (hook : Option Addr) :
    Wirc.unhook state hook = some state ∨
    ∃ type d xs ys a, hook = some a ∧ b type = xs ++ (a, d) :: ys ∧ d.deleted = false ∧
      ∃ state', Wirc.unhook state hook = some state' ∧ state'.hookExecRecursion = state.hookExecRecursion ∧
        (state.hookExecRecursion = 0 ∧ HookLists state' (Function.update b type (xs ++ ys)) ∧
            state'.realDeletePending = state.realDeletePending ∨
          state.hookExecRecursion ≠ 0 ∧ HookLists state' (setHook a { d with hookData := none, deleted := true } b) ∧
            state'.realDeletePending = true) := by
  cases hook with
  | none => exact .inl rfl
  | some a =>
    obtain ⟨r, hvalid, hr⟩ := h.valid a
    cases r with
    | false =>
      refine .inl ?_
      simp only [Wirc.unhook, hvalid, Option.bind_eq_bind, Option.bind_some]
    | true =>
      obtain ⟨type, ⟨p, d⟩, hmem, hdel, rfl⟩ := hr.mp rfl
      obtain ⟨node, hnode, rfl⟩ := h.node hmem
      obtain ⟨xs, ys, hb⟩ := List.append_of_mem hmem
      refine .inr ⟨type, node.data, xs, ys, p, rfl, hb, hdel, ?_⟩
      have hdel : node.data.deleted = false := hdel
      simp only [Wirc.unhook, hvalid, hnode, hdel, Option.bind_eq_bind, Option.bind_some, Bool.false_eq_true,
        if_false]
      rcases eq_or_ne state.hookExecRecursion 0 with hrec | hrec
      · have hset := h.setData hmem { node.data with hookData := none, deleted := false } rfl
        rw [h.setHook_eq hb] at hset
        obtain ⟨state', hremove, hexec, h'⟩ := hset.removeFromList (Function.update_self ..)
        rw [Function.update_idem] at h'
        refine ⟨state', ?_, hexec.1, .inl ⟨hrec, h', hexec.2⟩⟩
        rw [if_pos hrec, ← hremove]
      · have hset := h.setData hmem { node.data with hookData := none, deleted := true } rfl
        exact ⟨_, if_neg hrec, rfl, .inr ⟨hrec, hset.exec _ true, rfl⟩⟩

end

end Wirc

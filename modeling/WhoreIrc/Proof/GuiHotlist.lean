import Mathlib.Data.List.Nodup
import WhoreIrc.Framework.SortedInsert
import WhoreIrc.Spec.GuiHotlist

/-!
# The hotlist of a run (`hotlist_run_iff`)

One lemma says what each of the functions that link and free an entry leaves
(`free_ok`, `addHotlist_ok`), and the operations are made of them. The entries
that `gui_hotlist_resort` copies are right (`resort_listOk`), but freeing the
first ones resets `buffer->hotlist`.
-/

namespace Wirc

open Framework

section

variable {Buffer : Type} {sort : ConfigLookHotlistSort} {number : Buffer → Int}

/-! ## The order -/

/-- The microseconds between two times. -/
theorem utilTimevalDiff_eq (tv1 tv2 : Timeval) :
    utilTimevalDiff tv1 tv2 = (tv2.sec * 1000000 + tv2.usec) - (tv1.sec * 1000000 + tv1.usec) := by
  rw [utilTimevalDiff]
  split <;> omega

theorem hotlistOrdered_trans (x y z : GuiHotlist Buffer) (hxy : HotlistOrdered sort number x y)
    (hyz : HotlistOrdered sort number y z) : HotlistOrdered sort number x z := by
  cases sort <;> simp only [HotlistOrdered, utilTimevalDiff_eq, Fin.lt_def, Fin.ext_iff] at * <;> omega

/-- `gui_hotlist_find_pos` passes the entries that the new one may follow. -/
theorem guiHotlistBefore_false {x y : GuiHotlist Buffer} :
    guiHotlistBefore sort number x y = false ↔ HotlistOrdered sort number y x := by
  cases sort <;>
    simp only [guiHotlistBefore, HotlistOrdered, utilTimevalDiff_eq, Bool.or_eq_false_iff, Bool.and_eq_false_iff,
      decide_eq_false_iff_not, gt_iff_lt, Fin.lt_def, Fin.ext_iff] <;> omega

/-- It stops at one that the new one may precede. -/
theorem guiHotlistBefore_ordered {x y : GuiHotlist Buffer} (h : guiHotlistBefore sort number x y = true) :
    HotlistOrdered sort number x y := by
  have hnot : ¬ HotlistOrdered sort number y x := fun hyx => by
    rw [guiHotlistBefore_false.mpr hyx] at h
    cases h
  cases sort <;> simp only [HotlistOrdered, utilTimevalDiff_eq, Fin.lt_def, Fin.ext_iff] at * <;> omega

/-! ## Entries that are linked and freed -/

section

variable [DecidableEq Buffer] {ι : Type} [DecidableEq ι] {i : ι} {b : ι → List (Addr × GuiHotlist Buffer)} {a : Addr}
  {d : GuiHotlist Buffer}

theorem free_ok {state : GuiHotlists Buffer} {xs ys : List (Addr × GuiHotlist Buffer)}
    (hl : Lists state.memory b) (he : state.ends = endsOf (b i)) (hb : b i = xs ++ (a, d) :: ys) :
    ∃ memory, guiHotlistFree state a = some { state with
        memory, ends := endsOf (xs ++ ys), hotlist := Function.update state.hotlist d.buffer none } ∧
      Lists memory (Function.update b i (xs ++ ys)) := by
  have hs := hl.linked i
  have hn := hl.nodup i
  rw [hb] at hs hn he
  have hunlink := unlinkNode_eq he hs hn
  rw [seg_append] at hs
  have hnode := hs.2.1
  rw [unlinkNode, hnode, Option.map_some] at hunlink
  have hends := (Prod.mk.inj (Option.some.inj hunlink)).2
  have hlast := congrArg ListEnds.last hends
  have hfirst : (if (lastPtr none xs).isSome then state.ends.first else firstPtr ys none) =
      (endsOf (xs ++ ys)).first := by
    rw [he]
    cases xs with
    | nil => rfl
    | cons x xs => rw [if_pos lastPtr_cons_isSome]; rfl
  refine ⟨_, ?_, hl.unlink hb⟩
  rw [guiHotlistFree, hnode]
  dsimp only at hlast ⊢
  rw [hfirst, hlast]

omit [DecidableEq Buffer] in
theorem addHotlist_ok {memory : Heap (GuiHotlist Buffer)} {ends : ListEnds} {rounds : Nat} (hl : Lists memory b)
    (he : ends = endsOf (b i)) (ha : memory a = none) (hrounds : (b i).length ≤ rounds) :
    ∃ memory', guiHotlistAddHotlist sort number rounds memory ends a d =
        some (memory', endsOf (insertBefore (fun x => guiHotlistBefore sort number d x.2) (a, d) (b i))) ∧
      Lists memory' (Function.update b i (insertBefore (fun x => guiHotlistBefore sort number d x.2) (a, d) (b i))) := by
  have hfind := (hl.linked i).find (p := guiHotlistBefore sort number d) hrounds
  cases hbi : b i with
  | nil =>
    rw [hbi] at he
    have hinsert := hl.insert (show b i = [] ++ [] from hbi) ha d
    refine ⟨_, ?_, hinsert⟩
    rw [guiHotlistAddHotlist, he]
    rfl
  | cons y ys =>
    have hfirst : ends.first = some y.1 := by
      rw [he, hbi]
      rfl
    rw [← hbi, guiHotlistAddHotlist, hfirst]
    dsimp only
    rw [guiHotlistFindPos, ← hfirst, he]
    rw [endsOf, hfind]
    cases hfound : (b i).find? fun x => guiHotlistBefore sort number d x.2 with
    | none =>
      have hnone := List.find?_eq_none.mp hfound
      obtain ⟨hl', hends⟩ := hl.linkLast (d := d) he ha
      rw [Option.map_none, insertBefore_of_none fun z hz => by simpa using hnone z hz]
      refine ⟨_, ?_, hl'⟩
      dsimp only
      rw [← hends, he]
      rfl
    | some x =>
      obtain ⟨hx, xs, zs, hsplit, hbefore⟩ := List.find?_eq_some_iff_append.mp hfound
      obtain ⟨memory', hlink, hl'⟩ := hl.linkBefore (d := d) he ha (show b i = xs ++ (x.1, x.2) :: zs from hsplit)
      have hinsert : insertBefore (fun x => guiHotlistBefore sort number d x.2) (a, d) (b i) =
          xs ++ (a, d) :: x :: zs := by
        rw [hsplit]
        exact insertBefore_of_find (fun z hz => by simpa using hbefore z hz) hx
      rw [Option.map_some, hinsert]
      refine ⟨memory', ?_, hl'⟩
      dsimp only
      rw [← hlink, he]
      rfl

/-- The loop of `gui_hotlist_clear` and `gui_hotlist_remove_buffer`, with `kept` before it. -/
theorem removeLoop_ok (remove : GuiHotlist Buffer → Bool) {state : GuiHotlists Buffer}
    {kept rest : List (Addr × GuiHotlist Buffer)} (hl : Lists state.memory b) (hb : b i = kept ++ rest)
    (he : state.ends = endsOf (b i)) {rounds : Nat} (hrounds : rest.length ≤ rounds) :
    ∃ state', guiHotlistRemoveLoop remove rounds state (firstPtr rest none) = some state' ∧
      Lists state'.memory (Function.update b i (kept ++ rest.filter fun x => !remove x.2)) ∧
      state'.ends = endsOf (kept ++ rest.filter fun x => !remove x.2) ∧ state'.allocated = state.allocated ∧
      ∀ buffer, state'.hotlist buffer =
        if ∃ x ∈ rest, remove x.2 = true ∧ x.2.buffer = buffer then none else state.hotlist buffer := by
  induction rest generalizing kept rounds state b with
  | nil =>
    refine ⟨state, ?_, ?_, ?_, rfl, fun buffer => ?_⟩
    · cases rounds <;> rfl
    · rw [List.filter_nil, ← hb, Function.update_eq_self]
      exact hl
    · rw [List.filter_nil, ← hb, he]
    · rw [if_neg]
      rintro ⟨x, hx, -⟩
      cases hx
  | cons x rest ih =>
    obtain ⟨a, d⟩ := x
    obtain ⟨rounds, rfl⟩ : ∃ n, rounds = n + 1 := ⟨rounds - 1, by simp only [List.length_cons] at hrounds; omega⟩
    have hrounds' : rest.length ≤ rounds := by simpa using hrounds
    have hs := hl.linked i
    rw [hb, seg_append] at hs
    rw [firstPtr_cons, guiHotlistRemoveLoop, hs.2.1]
    dsimp only
    cases hremove : remove d with
    | true =>
      obtain ⟨memory, hfree, hl'⟩ := free_ok hl he hb
      obtain ⟨state', hloop, hlists, hends, hallocated, hhotlist⟩ := @ih (Function.update b i (kept ++ rest))
        { state with
          memory, ends := endsOf (kept ++ rest), hotlist := Function.update state.hotlist d.buffer none }
        kept hl' (Function.update_self ..) (by rw [Function.update_self]) rounds hrounds'
      rw [Function.update_idem] at hlists
      rw [if_pos rfl, hfree, Option.bind_some, List.filter_cons_of_neg (by simp [hremove])]
      refine ⟨state', hloop, hlists, hends, hallocated, fun buffer => ?_⟩
      rw [hhotlist]
      by_cases hrest : ∃ x ∈ rest, remove x.2 = true ∧ x.2.buffer = buffer
      · obtain ⟨x, hx, hremoved⟩ := hrest
        rw [if_pos ⟨x, hx, hremoved⟩, if_pos ⟨x, List.mem_cons_of_mem _ hx, hremoved⟩]
      · rw [if_neg hrest]
        by_cases hbuffer : d.buffer = buffer
        · rw [if_pos ⟨(a, d), List.mem_cons_self, hremove, hbuffer⟩, ← hbuffer]
          exact Function.update_self ..
        · rw [if_neg]
          · exact Function.update_of_ne (Ne.symm hbuffer) ..
          · rintro ⟨x, hx, hremoved⟩
            rcases List.mem_cons.mp hx with rfl | hx
            · exact hbuffer hremoved.2
            · exact hrest ⟨x, hx, hremoved⟩
    | false =>
      have happend : kept ++ (a, d) :: rest = (kept ++ [(a, d)]) ++ rest := by simp
      obtain ⟨state', hloop, hlists, hends, hallocated, hhotlist⟩ := ih hl (hb.trans happend) he hrounds'
      rw [if_neg Bool.false_ne_true, List.filter_cons_of_pos (by simp [hremove])]
      refine ⟨state', hloop, ?_, ?_, hallocated, fun buffer => ?_⟩
      · rw [List.append_assoc] at hlists
        exact hlists
      · rw [List.append_assoc] at hends
        exact hends
      · rw [hhotlist]
        congr 1
        refine propext ⟨?_, ?_⟩
        · rintro ⟨x, hx, hremoved⟩
          exact ⟨x, List.mem_cons_of_mem _ hx, hremoved⟩
        · rintro ⟨x, hx, hremoved⟩
          rcases List.mem_cons.mp hx with rfl | hx
          · rw [hremove] at hremoved
            exact absurd hremoved.1 Bool.false_ne_true
          · exact ⟨x, hx, hremoved⟩

end

/-! ## One step -/

section

variable [DecidableEq Buffer] {history : HotlistHistory Buffer} {entries : List (Addr × GuiHotlist Buffer)}

omit [DecidableEq Buffer] in
theorem update_unit (b : Unit → List (Addr × GuiHotlist Buffer)) (l : List (Addr × GuiHotlist Buffer)) :
    Function.update b () l = fun _ => l := by
  funext i
  exact Function.update_self ..

/-- `gui_hotlist_search` finds the entry of the buffer. -/
theorem search_eq {state : GuiHotlists Buffer} (hl : Lists state.memory fun _ : Unit => entries)
    (he : state.ends = endsOf entries) (hallocated : entries.length ≤ state.allocated) (buffer : Buffer) :
    guiHotlistSearch state buffer = some ((entries.find? fun x => x.2.buffer = buffer).map Prod.fst) := by
  rw [guiHotlistSearch, he]
  exact (hl.linked ()).find hallocated

theorem inHotlist_iff {state : GuiHotlists Buffer} (hl : Lists state.memory fun _ : Unit => entries)
    (he : state.ends = endsOf entries) (hallocated : entries.length ≤ state.allocated) (buffer : Buffer) :
    InHotlist state buffer ↔ buffer ∈ entries.map fun x => x.2.buffer := by
  rw [InHotlist, search_eq hl he hallocated]
  simp only [Option.some.injEq, ← Option.isSome_iff_exists, Option.isSome_map, List.find?_isSome, decide_eq_true_eq,
    List.mem_map]

/-- Entries that are right with what was accepted before and in the operation. -/
theorem listOk_step (op : GuiHotlistOp Buffer) {state : GuiHotlists Buffer}
    (hl : Lists state.memory fun _ : Unit => entries) (he : state.ends = endsOf entries)
    (hallocated : entries.length ≤ state.allocated) (hone : (entries.map fun x => x.2.buffer).Nodup)
    (hsorted : entries.Pairwise fun x y => HotlistOrdered sort number x.2 y.2)
    (hentry : ∀ x ∈ entries, HotlistEntryOk (history.accepted x.2.buffer ++ op.accepts x.2.buffer) x.2) :
    HotlistListOk sort number
      ⟨state, fun buffer => if InHotlist state buffer then history.accepted buffer ++ op.accepts buffer else []⟩ entries := by
  refine ⟨hl, he, hallocated, hone, hsorted, fun x hx => ?_, fun buffer hbuffer => ?_⟩
  · dsimp only
    rw [if_pos ((inHotlist_iff hl he hallocated _).mpr (List.mem_map_of_mem hx))]
    exact hentry x hx
  · exact if_neg (mt (inHotlist_iff hl he hallocated _).mp hbuffer)

omit [DecidableEq Buffer] in
/-- One entry for a buffer. -/
theorem entry_unique (hone : (entries.map fun x => x.2.buffer).Nodup) {x y : Addr × GuiHotlist Buffer}
    (hx : x ∈ entries) (hy : y ∈ entries) (h : x.2.buffer = y.2.buffer) : x = y :=
  List.inj_on_of_nodup_map hone hx hy h

/-- The entries that are not removed. -/
theorem remove_ok (op : GuiHotlistOp Buffer) (hop : ∀ buffer, op.accepts buffer = [])
    (hlist : HotlistListOk sort number history entries) (hptr : HotlistPointersOk history.state.hotlist entries)
    (remove : GuiHotlist Buffer → Bool) :
    ∃ state, guiHotlistRemoveLoop remove history.state.allocated history.state history.state.ends.first = some state ∧
      HotlistOk sort number
        ⟨state, fun buffer => if InHotlist state buffer then history.accepted buffer ++ op.accepts buffer else []⟩ := by
  obtain ⟨state, hloop, hl, he, hallocated, hhotlist⟩ :=
    @removeLoop_ok _ _ Unit _ () (fun _ => entries) remove history.state [] entries hlist.linked rfl hlist.ends
      _ hlist.allocated
  rw [List.nil_append, update_unit] at hl
  rw [List.nil_append] at he
  have hfirst : history.state.ends.first = firstPtr entries none := by
    rw [hlist.ends]
    rfl
  have hsub : (entries.filter fun x => !remove x.2).Sublist entries := List.filter_sublist
  refine ⟨state, by rw [hfirst]; exact hloop, _, listOk_step op hl he ?_ ((hsub.map _).nodup hlist.onePerBuffer)
    (hlist.sorted.sublist hsub) fun x hx => ?_, fun x hx => ?_, fun buffer hbuffer => ?_⟩
  · rw [hallocated]
    exact Nat.le_trans hsub.length_le hlist.allocated
  · rw [hop, List.append_nil]
    exact hlist.entry x (hsub.subset hx)
  · obtain ⟨hmem, hkept⟩ := List.mem_filter.mp hx
    dsimp only
    rw [hhotlist, if_neg, hptr.entry x hmem]
    rintro ⟨y, hy, hremove, hsame⟩
    rw [entry_unique hlist.onePerBuffer hy hmem hsame] at hremove
    rw [hremove] at hkept
    cases hkept
  · dsimp only
    rw [hhotlist]
    by_cases hin : ∃ x ∈ entries, remove x.2 = true ∧ x.2.buffer = buffer
    · exact if_pos hin
    · rw [if_neg hin]
      refine hptr.others buffer fun hmem => ?_
      obtain ⟨x, hx, rfl⟩ := List.mem_map.mp hmem
      refine hbuffer (List.mem_map.mpr ⟨x, List.mem_filter.mpr ⟨hx, ?_⟩, rfl⟩)
      cases hremove : remove x.2 with
      | true => exact absurd ⟨x, hx, hremove, rfl⟩ hin
      | false => rfl

/-! ### Additions -/

theorem accepts_other {env : GuiHotlistAddEnv Buffer} {buffer buffer' : Buffer} {priority : Nat}
    (h : buffer' ≠ buffer) : (GuiHotlistOp.add env buffer priority).accepts buffer' = [] :=
  if_neg fun hand => h hand.1.symm

theorem accepts_self {env : GuiHotlistAddEnv Buffer} {buffer : Buffer} {priority : Nat}
    (h : guiHotlistAccepts env buffer (guiHotlistMaxPriority priority) = true) :
    (GuiHotlistOp.add env buffer priority).accepts buffer = [guiHotlistMaxPriority priority] := if_pos ⟨rfl, h⟩

theorem accepts_refused {env : GuiHotlistAddEnv Buffer} {buffer : Buffer} {priority : Nat}
    (h : guiHotlistAccepts env buffer (guiHotlistMaxPriority priority) = false) (buffer' : Buffer) :
    (GuiHotlistOp.add env buffer priority).accepts buffer' = [] := by
  refine if_neg ?_
  rintro ⟨rfl, haccepts⟩
  rw [h] at haccepts
  cases haccepts

/-- A new entry for a buffer that has none, or none if there is no memory. -/
theorem addNew_ok {env : GuiHotlistAddEnv Buffer} {buffer : Buffer} {priority : Nat}
    (haccepts : guiHotlistAccepts env buffer (guiHotlistMaxPriority priority) = true) {state : GuiHotlists Buffer}
    (hl : Lists state.memory fun _ : Unit => entries) (he : state.ends = endsOf entries)
    (hallocated : entries.length ≤ state.allocated) (hone : (entries.map fun x => x.2.buffer).Nodup)
    (hsorted : entries.Pairwise fun x y => HotlistOrdered sort number x.2 y.2)
    (hentry : ∀ x ∈ entries, HotlistEntryOk (history.accepted x.2.buffer) x.2)
    (hptr : HotlistPointersOk state.hotlist entries) (hnew : buffer ∉ entries.map fun x => x.2.buffer)
    {count : GuiHotlistPriority → Nat} (hcount : ∀ priority, count priority = (history.accepted buffer).count priority)
    (hmax : ∀ p ∈ history.accepted buffer, p < guiHotlistMaxPriority priority) :
    ∃ state', guiHotlistAddNew sort number state env buffer (guiHotlistMaxPriority priority) count = some state' ∧
      HotlistOk sort number ⟨state', fun buffer' => if InHotlist state' buffer' then
        history.accepted buffer' ++ (GuiHotlistOp.add env buffer priority).accepts buffer' else []⟩ := by
  have hother : ∀ x ∈ entries, HotlistEntryOk
      (history.accepted x.2.buffer ++ (GuiHotlistOp.add env buffer priority).accepts x.2.buffer) x.2 := by
    intro x hx
    rw [accepts_other fun heq => hnew (List.mem_map.mpr ⟨x, hx, heq⟩), List.append_nil]
    exact hentry x hx
  rw [guiHotlistAddNew]
  cases hmalloc : state.memory.malloc env.newHotlist with
  | none => exact ⟨state, rfl, entries, listOk_step _ hl he hallocated hone hsorted hother, hptr⟩
  | some a =>
    obtain ⟨hfree, rfl⟩ := Heap.malloc_eq_some.mp hmalloc
    dsimp only
    generalize hdata : GuiHotlist.mk (guiHotlistMaxPriority priority) env.creationTime buffer (Function.update count
      (guiHotlistMaxPriority priority) (count (guiHotlistMaxPriority priority) + 1)) = new
    obtain ⟨memory, hadd, hl'⟩ := @addHotlist_ok _ sort number Unit _ () _ _ new _ _ _ hl he hfree hallocated
    rw [update_unit] at hl'
    rw [hadd]
    have hperm := insertBefore_perm (fun x : Addr × GuiHotlist Buffer => guiHotlistBefore sort number new x.2)
      (env.newHotlist, new) entries
    have hbuffer : new.buffer = buffer := by rw [← hdata]
    have hbuffers : ∀ x ∈ entries, x.2.buffer ≠ buffer := fun x hx heq =>
      hnew (List.mem_map.mpr ⟨x, hx, heq⟩)
    refine ⟨_, rfl, _, listOk_step _ hl' rfl ?_ ?_ ?_ fun x hx => ?_, fun x hx => ?_, fun buffer' hbuffer' => ?_⟩
    · rw [hperm.length_eq, List.length_cons]
      exact Nat.succ_le_succ hallocated
    · rw [(hperm.map _).nodup_iff, List.map_cons, List.nodup_cons, hbuffer]
      exact ⟨hnew, hone⟩
    · exact pairwise_insertBefore (fun x y z => hotlistOrdered_trans x.2 y.2 z.2)
        (fun y hy => guiHotlistBefore_ordered hy) (fun y hy => guiHotlistBefore_false.mp hy) hsorted
    · rcases mem_insertBefore.mp hx with rfl | hx
      · dsimp only
        rw [hbuffer, accepts_self haccepts, ← hdata]
        refine ⟨List.mem_append_right _ List.mem_cons_self, fun p hp => ?_, fun p => ?_⟩
        · rcases List.mem_append.mp hp with hp | hp
          · exact Fin.le_of_lt (hmax p hp)
          · exact Fin.le_of_eq (List.mem_singleton.mp hp)
        · dsimp only
          rw [List.count_append, List.count_singleton]
          rcases eq_or_ne p (guiHotlistMaxPriority priority) with rfl | hp
          · rw [Function.update_self, hcount, if_pos (beq_self_eq_true _)]
          · rw [Function.update_of_ne hp, hcount, if_neg (by simpa using Ne.symm hp), Nat.add_zero]
      · exact hother x hx
    · dsimp only
      rcases mem_insertBefore.mp hx with rfl | hx
      · rw [← hbuffer]
        exact Function.update_self ..
      · rw [Function.update_of_ne (hbuffers x hx)]
        exact hptr.entry x hx
    · dsimp only
      rw [(hperm.map _).mem_iff, List.map_cons, List.mem_cons, not_or, hbuffer] at hbuffer'
      rw [Function.update_of_ne hbuffer'.1]
      exact hptr.others buffer' hbuffer'.2

omit [DecidableEq Buffer] in
/-- The other entries are for other buffers. -/
theorem split_buffers {xs ys : List (Addr × GuiHotlist Buffer)} {x : Addr × GuiHotlist Buffer}
    (hone : (entries.map fun x => x.2.buffer).Nodup) (hsplit : entries = xs ++ x :: ys) :
    x.2.buffer ∉ ((xs ++ ys).map fun x => x.2.buffer) ∧ ((xs ++ ys).map fun x => x.2.buffer).Nodup := by
  rw [hsplit, List.map_append, List.map_cons, List.nodup_middle, List.nodup_cons, ← List.map_append] at hone
  exact hone

omit [DecidableEq Buffer] in
/-- The entry with this priority is counted once more. -/
theorem entryOk_count {accepted : List GuiHotlistPriority} {hotlist : GuiHotlist Buffer}
    (h : HotlistEntryOk accepted hotlist) {priority : GuiHotlistPriority} (hle : priority ≤ hotlist.priority) :
    HotlistEntryOk (accepted ++ [priority])
      { hotlist with count := Function.update hotlist.count priority (hotlist.count priority + 1) } := by
  refine ⟨List.mem_append_left _ h.priority_mem, fun p hp => ?_, fun p => ?_⟩
  · rcases List.mem_append.mp hp with hp | hp
    · exact h.priority_max p hp
    · rw [List.mem_singleton.mp hp]
      exact hle
  · dsimp only
    rw [List.count_append, List.count_singleton]
    rcases eq_or_ne p priority with rfl | hp
    · rw [Function.update_self, h.count, if_pos (beq_self_eq_true _)]
    · rw [Function.update_of_ne hp, h.count, if_neg (by simpa using Ne.symm hp), Nat.add_zero]

omit [DecidableEq Buffer] in
/-- The order does not depend on the counts. -/
theorem hotlistOrdered_count {x y : GuiHotlist Buffer} {count : GuiHotlistPriority → Nat} :
    (HotlistOrdered sort number { x with count } y ↔ HotlistOrdered sort number x y) ∧
      (HotlistOrdered sort number y { x with count } ↔ HotlistOrdered sort number y x) := by
  cases sort <;> exact ⟨Iff.rfl, Iff.rfl⟩

section

variable {env : GuiHotlistAddEnv Buffer} {buffer : Buffer} {priority : Nat} {xs ys : List (Addr × GuiHotlist Buffer)}
  {a : Addr} {d : GuiHotlist Buffer}

/-- The buffer has an entry with at least this priority. -/
theorem addCount_ok (haccepts : guiHotlistAccepts env d.buffer (guiHotlistMaxPriority priority) = true)
    (hlist : HotlistListOk sort number history entries) (hptr : HotlistPointersOk history.state.hotlist entries)
    (hsplit : entries = xs ++ (a, d) :: ys) (hle : guiHotlistMaxPriority priority ≤ d.priority) :
    HotlistOk sort number
      (let state : GuiHotlists Buffer := { history.state with memory := history.state.memory.setData a { d with
          count := Function.update d.count (guiHotlistMaxPriority priority) (d.count (guiHotlistMaxPriority priority) + 1) } }
       ⟨state, fun buffer' => if InHotlist state buffer' then
         history.accepted buffer' ++ (GuiHotlistOp.add env d.buffer priority).accepts buffer' else []⟩) := by
  generalize hcount : Function.update d.count (guiHotlistMaxPriority priority)
    (d.count (guiHotlistMaxPriority priority) + 1) = count
  have hentry : HotlistEntryOk (history.accepted d.buffer ++ [guiHotlistMaxPriority priority]) { d with count } := by
    rw [← hcount]
    exact entryOk_count (hlist.entry (a, d) (by rw [hsplit]; simp)) hle
  have hl : Lists (history.state.memory.setData a { d with count }) _ :=
    hlist.linked.setData (i := ()) (show entries = xs ++ (a, d) :: ys from hsplit)
  rw [update_unit] at hl
  have hbuffers : (xs ++ (a, { d with count }) :: ys).map (fun x => x.2.buffer) = entries.map fun x => x.2.buffer := by
    rw [hsplit, List.map_append, List.map_append]
    rfl
  have hends : endsOf entries = endsOf (xs ++ (a, { d with count }) :: ys) :=
    endsOf_congr (by rw [hsplit, addrs_append, addrs_append]; rfl)
  have hmem : ∀ x ∈ xs ++ (a, { d with count }) :: ys, x = (a, { d with count }) ∨
      x ∈ entries ∧ x.2.buffer ≠ d.buffer := by
    intro x hx
    have hother := (split_buffers hlist.onePerBuffer hsplit).1
    rw [List.mem_append, List.mem_cons] at hx
    rcases hx with hx | rfl | hx
    · refine .inr ⟨by rw [hsplit]; exact List.mem_append_left _ hx, fun heq => hother ?_⟩
      exact List.mem_map.mpr ⟨x, List.mem_append_left _ hx, heq⟩
    · exact .inl rfl
    · refine .inr ⟨by rw [hsplit]; exact List.mem_append_right _ (List.mem_cons_of_mem _ hx), fun heq => hother ?_⟩
      exact List.mem_map.mpr ⟨x, List.mem_append_right _ hx, heq⟩
  refine ⟨_, listOk_step _ hl (hlist.ends.trans hends) ?_ (by rw [hbuffers]; exact hlist.onePerBuffer) ?_
    fun x hx => ?_, fun x hx => ?_, fun buffer' hbuffer' => ?_⟩
  · have hlength := hlist.allocated
    rw [hsplit] at hlength
    simpa using hlength
  · have hsorted := hlist.sorted
    rw [hsplit, List.pairwise_append, List.pairwise_cons] at hsorted
    rw [List.pairwise_append, List.pairwise_cons]
    obtain ⟨hxs, ⟨hd, hys⟩, hxys⟩ := hsorted
    refine ⟨hxs, ⟨fun y hy => hotlistOrdered_count.1.mpr (hd y hy), hys⟩, fun x hx y hy => ?_⟩
    rcases List.mem_cons.mp hy with rfl | hy
    · exact hotlistOrdered_count.2.mpr (hxys x hx (a, d) List.mem_cons_self)
    · exact hxys x hx y (List.mem_cons_of_mem _ hy)
  · rcases hmem x hx with rfl | ⟨hx, hne⟩
    · dsimp only
      rw [accepts_self haccepts]
      exact hentry
    · rw [accepts_other hne, List.append_nil]
      exact hlist.entry x hx
  · rcases hmem x hx with rfl | ⟨hx, hne⟩
    · exact hptr.entry (a, d) (by rw [hsplit]; simp)
    · exact hptr.entry x hx
  · rw [hbuffers] at hbuffer'
    exact hptr.others buffer' hbuffer'

/-- The buffer has an entry with a lower priority, which is replaced. -/
theorem addReplace_ok (haccepts : guiHotlistAccepts env d.buffer (guiHotlistMaxPriority priority) = true)
    (hlist : HotlistListOk sort number history entries) (hptr : HotlistPointersOk history.state.hotlist entries)
    (hsplit : entries = xs ++ (a, d) :: ys) (hlt : d.priority < guiHotlistMaxPriority priority) :
    ∃ state', ((guiHotlistFree history.state a).bind fun state =>
        guiHotlistAddNew sort number state env d.buffer (guiHotlistMaxPriority priority) d.count) = some state' ∧
      HotlistOk sort number ⟨state', fun buffer' => if InHotlist state' buffer' then
        history.accepted buffer' ++ (GuiHotlistOp.add env d.buffer priority).accepts buffer' else []⟩ := by
  obtain ⟨memory, hfree, hl⟩ := free_ok (i := ()) hlist.linked hlist.ends hsplit
  rw [update_unit] at hl
  obtain ⟨hnew, hone⟩ := split_buffers hlist.onePerBuffer hsplit
  have hsub : (xs ++ ys).Sublist entries := by
    rw [hsplit]
    exact List.Sublist.append_left (List.sublist_cons_self ..) _
  have hentry := hlist.entry (a, d) (by rw [hsplit]; simp)
  rw [hfree, Option.bind_some]
  refine @addNew_ok _ sort number _ history (xs ++ ys) env d.buffer priority haccepts { history.state with
      memory, ends := endsOf (xs ++ ys), hotlist := Function.update history.state.hotlist d.buffer none }
    hl rfl (Nat.le_trans hsub.length_le hlist.allocated) hone
    (hlist.sorted.sublist hsub) (fun x hx => hlist.entry x (hsub.subset hx))
    ⟨fun x hx => ?_, fun buffer' hbuffer' => ?_⟩ hnew _ hentry.count fun p hp => Fin.lt_of_le_of_lt (hentry.priority_max p hp) hlt
  · dsimp only
    rw [Function.update_of_ne fun heq => hnew (List.mem_map.mpr ⟨x, hx, heq⟩)]
    exact hptr.entry x (hsub.subset hx)
  · dsimp only
    rcases eq_or_ne buffer' d.buffer with rfl | hne
    · exact Function.update_self ..
    · rw [Function.update_of_ne hne]
      refine hptr.others buffer' fun hmem => hbuffer' ?_
      rw [hsplit, List.map_append, List.map_cons, List.mem_append, List.mem_cons] at hmem
      rw [List.map_append, List.mem_append]
      exact hmem.imp_right fun h => h.resolve_left hne

end

theorem add_ok (hlist : HotlistListOk sort number history entries)
    (hptr : HotlistPointersOk history.state.hotlist entries) (env : GuiHotlistAddEnv Buffer) (buffer : Buffer)
    (priority : Nat) :
    ∃ state, guiHotlistAdd sort number history.state env buffer priority = some state ∧
      HotlistOk sort number ⟨state, fun buffer' => if InHotlist state buffer' then
        history.accepted buffer' ++ (GuiHotlistOp.add env buffer priority).accepts buffer' else []⟩ := by
  rw [guiHotlistAdd]
  dsimp only
  cases haccepts : guiHotlistAccepts env buffer (guiHotlistMaxPriority priority) with
  | false =>
    refine ⟨history.state, rfl, entries, listOk_step _ hlist.linked hlist.ends hlist.allocated hlist.onePerBuffer
      hlist.sorted fun x hx => ?_, hptr⟩
    rw [accepts_refused haccepts, List.append_nil]
    exact hlist.entry x hx
  | true =>
    rw [search_eq hlist.linked hlist.ends hlist.allocated]
    simp only [Bool.not_true, Bool.false_eq_true, if_false]
    cases hfind : entries.find? fun x => x.2.buffer = buffer with
    | none =>
      have hnew : buffer ∉ entries.map fun x => x.2.buffer := by
        intro hmem
        obtain ⟨x, hx, hbuffer⟩ := List.mem_map.mp hmem
        exact absurd hbuffer (by simpa using List.find?_eq_none.mp hfind x hx)
      have haccepted := hlist.others buffer hnew
      exact addNew_ok haccepts hlist.linked hlist.ends hlist.allocated hlist.onePerBuffer hlist.sorted hlist.entry hptr
        hnew (fun p => by rw [haccepted]; rfl) (fun p hp => by rw [haccepted] at hp; cases hp)
    | some x =>
      obtain ⟨hbuffer, xs, ys, hsplit, -⟩ := List.find?_eq_some_iff_append.mp hfind
      obtain ⟨a, d⟩ := x
      have hbuffer : d.buffer = buffer := by simpa using hbuffer
      subst hbuffer
      have hs := hlist.linked.linked ()
      rw [hsplit, seg_append] at hs
      rw [Option.map_some]
      dsimp only
      rw [hs.2.1]
      dsimp only
      by_cases hle : d.priority ≥ guiHotlistMaxPriority priority
      · rw [if_pos hle]
        exact ⟨_, rfl, addCount_ok haccepts hlist hptr hsplit hle⟩
      · rw [if_neg hle]
        exact addReplace_ok haccepts hlist hptr hsplit (Fin.not_le.mp hle)

end

/-! ### Sorting again -/

section

variable [DecidableEq Buffer]

omit [DecidableEq Buffer] in
/-- The copies of the entries in `rest`, next to the list that is copied. -/
theorem dupLoop_ok {b : Bool → List (Addr × GuiHotlist Buffer)} {done rest : List (Addr × GuiHotlist Buffer)}
    {memory memory' : Heap (GuiHotlist Buffer)} {ends ends' : ListEnds} {rounds allocated allocated' : Nat}
    {news : List Addr} (hl : Lists memory b) (hb : b false = done ++ rest) (he : ends = endsOf (b true))
    (hallocated : (b true).length ≤ allocated)
    (hloop : guiHotlistDupLoop sort number rounds memory ends allocated news (firstPtr rest none) =
      some (memory', ends', allocated')) :
    ∃ copies, Lists memory' (Function.update b true copies) ∧ ends' = endsOf copies ∧
      copies.length = (b true).length + rest.length := by
  induction rest generalizing b done memory ends rounds allocated news with
  | nil =>
    have hnil : guiHotlistDupLoop sort number rounds memory ends allocated news none =
        some (memory, ends, allocated) := by
      cases rounds <;> rfl
    cases hnil.symm.trans hloop
    exact ⟨b true, by rwa [Function.update_eq_self], he, rfl⟩
  | cons x rest ih =>
    obtain ⟨a, d⟩ := x
    rw [firstPtr_cons] at hloop
    have hs := hl.linked false
    rw [hb, seg_append] at hs
    have hnode := hs.2.1
    cases rounds with
    | zero => cases hloop
    | succ rounds =>
      cases news with
      | nil => cases hloop
      | cons new news =>
        rw [guiHotlistDupLoop, hnode] at hloop
        cases hmalloc : memory.malloc new with
        | none =>
          rw [hmalloc] at hloop
          cases hloop
        | some element =>
          obtain ⟨hfree, rfl⟩ := Heap.malloc_eq_some.mp hmalloc
          obtain ⟨memory₁, hadd, hl₁⟩ := @addHotlist_ok _ sort number Bool _ true b element d memory ends allocated hl he hfree
            hallocated
          -- linking the copy leaves the list that is copied alone
          have hb₁ : Function.update b true (insertBefore (fun x => guiHotlistBefore sort number d x.2) (element, d) (b true))
              false = (done ++ [(a, d)]) ++ rest := by
            rw [Function.update_of_ne Bool.false_ne_true, hb, List.append_assoc]
            rfl
          have hs₁ := hl₁.linked false
          rw [hb₁, List.append_assoc, seg_append] at hs₁
          have hnode₁ := hs₁.2.1
          have hlength := (insertBefore_perm (fun x : Addr × GuiHotlist Buffer => guiHotlistBefore sort number d x.2)
            (element, d) (b true)).length_eq
          rw [List.length_cons] at hlength
          simp only [hmalloc, hadd, hnode₁] at hloop
          obtain ⟨copies, hcopies, hends, hcount⟩ := ih hl₁ hb₁ (by rw [Function.update_self])
            (by rw [Function.update_self, hlength]; exact Nat.succ_le_succ hallocated) hloop
          rw [Function.update_idem] at hcopies
          rw [Function.update_self, hlength] at hcount
          refine ⟨copies, hcopies, hends, ?_⟩
          rw [hcount, List.length_cons]
          omega

/-- Freeing the entries of a list resets `buffer->hotlist` for their buffers. -/
theorem freeAll_ok {ι : Type} [DecidableEq ι] {i : ι} {b : ι → List (Addr × GuiHotlist Buffer)}
    {state : GuiHotlists Buffer} (hl : Lists state.memory b) (he : state.ends = endsOf (b i)) {rounds : Nat}
    (hrounds : (b i).length ≤ rounds) :
    ∃ state', guiHotlistFreeAll rounds state = some state' ∧ state'.allocated = state.allocated ∧
      Lists state'.memory (Function.update b i []) ∧
      ∀ buffer, state'.hotlist buffer =
        if buffer ∈ (b i).map fun x => x.2.buffer then none else state.hotlist buffer := by
  generalize hbi : b i = rest at he hrounds
  induction rest generalizing b state rounds with
  | nil =>
    have hfirst : state.ends.first = none := congrArg ListEnds.first he
    refine ⟨state, ?_, rfl, ?_, fun buffer => (if_neg List.not_mem_nil).symm⟩
    · unfold guiHotlistFreeAll
      rw [hfirst]
    · rwa [← hbi, Function.update_eq_self]
  | cons x rest ih =>
    obtain ⟨rounds, rfl⟩ : ∃ n, rounds = n + 1 := ⟨rounds - 1, by simp only [List.length_cons] at hrounds; omega⟩
    have hfirst : state.ends.first = some x.1 := congrArg ListEnds.first he
    obtain ⟨memory, hfree, hl'⟩ := free_ok hl (he.trans (by rw [hbi])) (show b i = [] ++ (x.1, x.2) :: rest from hbi)
    rw [List.nil_append] at hfree hl'
    obtain ⟨state', hloop, hallocated, hlists, hhotlist⟩ := @ih (Function.update b i rest)
      { state with memory, ends := endsOf rest, hotlist := Function.update state.hotlist x.2.buffer none } hl' rounds
      (Function.update_self ..) rfl (by simpa using hrounds)
    rw [Function.update_idem] at hlists
    refine ⟨state', ?_, hallocated, hlists, fun buffer => ?_⟩
    · unfold guiHotlistFreeAll
      rw [hfirst]
      dsimp only
      rw [hfree, Option.bind_some, hloop]
    · rw [hhotlist, List.map_cons]
      by_cases hrest : buffer ∈ rest.map fun x => x.2.buffer
      · rw [if_pos hrest, if_pos (List.mem_cons_of_mem _ hrest)]
      · rw [if_neg hrest]
        rcases eq_or_ne buffer x.2.buffer with rfl | hne
        · rw [if_pos List.mem_cons_self]
          exact Function.update_self ..
        · rw [if_neg (List.not_mem_cons_of_ne_of_not_mem hne hrest)]
          exact Function.update_of_ne hne ..

variable {history : HotlistHistory Buffer} {entries : List (Addr × GuiHotlist Buffer)}

/-- Sorting the hotlist again leaves no buffer with its entry, and as many entries. -/
theorem resort_hotlist (hlist : HotlistListOk sort number history entries)
    (hptr : HotlistPointersOk history.state.hotlist entries) {news : List Addr} {state : GuiHotlists Buffer}
    (hresort : guiHotlistResort sort number history.state news = some state) :
    (∀ buffer, state.hotlist buffer = none) ∧ (entries ≠ [] → state.ends.first ≠ none) := by
  have hl : Lists history.state.memory fun copy : Bool => if copy then [] else entries := by
    refine ⟨fun copy => ?_, fun copy => ?_, fun copy copy' hne a ha => ?_⟩
    · cases copy
      · exact hlist.linked.linked ()
      · trivial
    · cases copy
      · exact hlist.linked.nodup ()
      · exact List.nodup_nil
    · cases copy <;> cases copy' <;> first | exact absurd rfl hne | exact List.not_mem_nil | cases ha
  have hfirst : history.state.ends.first = firstPtr entries none := congrArg ListEnds.first hlist.ends
  rw [guiHotlistResort, hfirst] at hresort
  cases hloop : guiHotlistDupLoop sort number history.state.allocated history.state.memory ⟨none, none⟩
      history.state.allocated news (firstPtr entries none) with
  | none =>
    rw [hloop] at hresort
    cases hresort
  | some copied =>
    obtain ⟨memory, newEnds, allocated⟩ := copied
    obtain ⟨copies, hcopies, rfl, hlength⟩ := dupLoop_ok hl (show _ = [] ++ entries from rfl) rfl (Nat.zero_le _) hloop
    have hentries : Function.update (fun copy : Bool => if copy then [] else entries) true copies false = entries :=
      Function.update_of_ne Bool.false_ne_true ..
    obtain ⟨state', hfree, -, -, hhotlist⟩ := @freeAll_ok _ _ _ _ false _ { history.state with memory } hcopies
      (by rw [hentries]; exact hlist.ends) history.state.allocated (by rw [hentries]; exact hlist.allocated)
    simp only [hloop, hfree, Option.some.injEq] at hresort
    subst hresort
    rw [hentries] at hhotlist
    refine ⟨fun buffer => ?_, fun hne => ?_⟩
    · dsimp only
      rw [hhotlist]
      by_cases hmem : buffer ∈ entries.map fun x => x.2.buffer
      · exact if_pos hmem
      · rw [if_neg hmem]
        exact hptr.others buffer hmem
    · cases copies with
      | nil => exact absurd (List.length_eq_zero_iff.mp (by simpa using hlength.symm)) hne
      | cons x copies => exact Option.some_ne_none x.1

theorem resort_nil (news : List Addr) (hfirst : history.state.ends = ⟨none, none⟩) :
    guiHotlistResort sort number history.state news = some history.state := by
  have hdup : guiHotlistDupLoop sort number history.state.allocated history.state.memory ⟨none, none⟩
      history.state.allocated news none = some (history.state.memory, ⟨none, none⟩, history.state.allocated) := by
    cases history.state.allocated <;> rfl
  have hfree : guiHotlistFreeAll history.state.allocated history.state = some history.state := by
    unfold guiHotlistFreeAll
    rw [hfirst]
  rw [guiHotlistResort, show history.state.ends.first = none from congrArg ListEnds.first hfirst, hdup]
  dsimp only
  rw [hfree]
  dsimp only
  rw [← hfirst]

/-! ## Every step -/

theorem hotlist_step (h : HotlistOk sort number history) (op : GuiHotlistOp Buffer) :
    ResortsEmpty history op ↔
      ∃ history', hotlistHistoryStep sort number history op = some history' ∧ HotlistOk sort number history' := by
  obtain ⟨entries, hlist, hptr⟩ := h
  have hrun : ∀ {op : GuiHotlistOp Buffer} {state}, op.run sort number history.state = some state →
      hotlistHistoryStep sort number history op = some ⟨state, fun buffer =>
        if InHotlist state buffer then history.accepted buffer ++ op.accepts buffer else []⟩ := by
    intro op state hop
    rw [hotlistHistoryStep, hop, Option.map_some]
  cases op with
  | add env buffer priority =>
    refine iff_of_true trivial ?_
    obtain ⟨state, hadd, hok⟩ := add_ok hlist hptr env buffer priority
    exact ⟨_, hrun hadd, hok⟩
  | removeBuffer env buffer forceRemoveBuffer =>
    refine iff_of_true trivial ?_
    by_cases hupgrading : env.upgrading = true
    · refine ⟨_, hrun (show guiHotlistRemoveBuffer .. = _ from if_pos hupgrading), entries, ?_, hptr⟩
      refine listOk_step _ hlist.linked hlist.ends hlist.allocated hlist.onePerBuffer hlist.sorted fun x hx => ?_
      rw [show (GuiHotlistOp.removeBuffer env buffer forceRemoveBuffer).accepts x.2.buffer = [] from rfl,
        List.append_nil]
      exact hlist.entry x hx
    · obtain ⟨state, hremove, hok⟩ := remove_ok (.removeBuffer env buffer forceRemoveBuffer) (fun _ => rfl) hlist hptr
        (guiHotlistBufferToRemove number env buffer forceRemoveBuffer)
      exact ⟨_, hrun ((if_neg hupgrading).trans hremove), hok⟩
  | clear levelMask =>
    refine iff_of_true trivial ?_
    obtain ⟨state, hremove, hok⟩ := remove_ok (.clear levelMask) (fun _ => rfl) hlist hptr _
    exact ⟨_, hrun hremove, hok⟩
  | resort news =>
    constructor
    · intro hempty
      have hnil : entries = [] := by
        rw [ResortsEmpty, hlist.ends] at hempty
        cases entries with
        | nil => rfl
        | cons x entries => cases hempty
      subst hnil
      refine ⟨_, hrun (resort_nil news hlist.ends), [], ?_, hptr⟩
      exact listOk_step _ hlist.linked hlist.ends hlist.allocated hlist.onePerBuffer hlist.sorted fun x hx => by cases hx
    · rintro ⟨history', hstep, entries', hlist', hptr'⟩
      rw [hotlistHistoryStep, Option.map_eq_some_iff] at hstep
      obtain ⟨state, hresort, rfl⟩ := hstep
      obtain ⟨hnone, hfirst⟩ := resort_hotlist hlist hptr hresort
      cases entries with
      | nil =>
        rw [ResortsEmpty, hlist.ends]
        rfl
      | cons x entries =>
        cases entries' with
        | nil => exact absurd (congrArg ListEnds.first hlist'.ends) (hfirst (List.cons_ne_nil _ _))
        | cons y entries' => exact absurd (hptr'.entry y List.mem_cons_self) (by rw [hnone]; exact Option.some_ne_none _ ∘ Eq.symm)

variable (sort number)

/-- The hotlist is right in all states of a run if and only if it is empty
whenever it is sorted again. -/
theorem hotlist_run_iff (ops : List (GuiHotlistOp Buffer)) :
    (∀ before after, ops = before ++ after → ∃ history,
        before.foldlM (hotlistHistoryStep sort number) hotlistHistoryInit = some history ∧ HotlistOk sort number history) ↔
      AlongM (hotlistHistoryStep sort number) ResortsEmpty hotlistHistoryInit ops := by
  refine alongM_states_iff (fun history op h => hotlist_step h op) ?_ ops
  have hl : Lists (@hotlistHistoryInit Buffer).state.memory fun _ : Unit => [] :=
    ⟨fun _ => trivial, fun _ => List.nodup_nil, fun _ _ hne => absurd rfl hne⟩
  refine ⟨[], ⟨hl, rfl, Nat.le_refl _, List.nodup_nil, List.Pairwise.nil, ?_, fun _ _ => rfl⟩, ?_, fun _ _ => rfl⟩
  · exact fun x hx => absurd hx List.not_mem_nil
  · exact fun x hx => absurd hx List.not_mem_nil

/-- A highlight in a buffer, then the hotlist is sorted again: it has an entry for
the buffer, but `buffer->hotlist` is NULL. -/
theorem hotlist_resort_fails :
    ∃ history : HotlistHistory Unit,
      [GuiHotlistOp.add ⟨true, false, (), fun _ => 3, fun _ _ => some (lit "1"), ⟨0, 0⟩, 1⟩ () 3, .resort [2]].foldlM
        (hotlistHistoryStep .groupTimeAsc fun _ => 1) hotlistHistoryInit = some history ∧
      ¬ HotlistOk .groupTimeAsc (fun _ => 1) history := by
  refine ⟨_, rfl, ?_⟩
  rintro ⟨entries, hlist, hptr⟩
  cases entries with
  | nil => cases congrArg ListEnds.first hlist.ends
  | cons x entries => cases hptr.entry x List.mem_cons_self

end

end

end Wirc

import WhoreIrc.Framework.Linked

/-!
# Doubly linked lists with a first and a last pointer

`ListEnds` are the two pointers that a program keeps for a list. The operations are
the usual ones in C: a node is linked first, last or before another one, and
unlinked. Each gives the new memory and the new ends; for a list of `Lists`,
they are the ends of the list with the node added or removed (`Lists.linkFirst`,
`Lists.linkLast`, `Lists.linkBefore`, `Lists.unlinkNode`).
-/

namespace Wirc.Framework

structure ListEnds where
  first : Option Addr
  last : Option Addr
  deriving DecidableEq

/-- The ends of a list. -/
def endsOf {D : Type*} (xs : List (Addr × D)) : ListEnds := ⟨firstPtr xs none, lastPtr none xs⟩

@[simp] theorem endsOf_nil {D : Type*} : endsOf ([] : List (Addr × D)) = ⟨none, none⟩ := rfl

/-- The ends depend on the addresses only. -/
theorem endsOf_congr {D : Type*} {xs ys : List (Addr × D)} (h : addrs xs = addrs ys) : endsOf xs = endsOf ys := by
  rw [endsOf, endsOf, firstPtr_none, firstPtr_none, lastPtr_none, lastPtr_none, h]

section

variable {D : Type*} (h : Heap D) (e : ListEnds)

/-- `malloc`, when it may give the address `a`: NULL if there is no memory there. -/
def Heap.malloc (a : Addr) : Option Addr := if h a = none then some a else none

/-- The first node whose data satisfies `p`, from the one at `ptr` on; NULL without
one. `none` if memory that is not in use is read, or after `rounds` nodes. -/
def Heap.find (p : D → Bool) : (rounds : Nat) → (ptr : Option Addr) → Option (Option Addr)
  | _, none => some none
  | 0, some _ => none
  | rounds + 1, some ptr =>
    match h ptr with
    | none => none
    | some node => if p node.data then some (some ptr) else Heap.find p rounds node.next

/-- A new node at the beginning. -/
def linkFirst (a : Addr) (d : D) : Heap D × ListEnds :=
  ((h.store a ⟨d, none, e.first⟩).setPrev e.first (some a),
    ⟨some a, if e.first.isSome then e.last else some a⟩)

/-- A new node at the end. -/
def linkLast (a : Addr) (d : D) : Heap D × ListEnds :=
  ((h.store a ⟨d, e.last, none⟩).setNext e.last (some a),
    ⟨if e.first.isSome then e.first else some a, some a⟩)

/-- A new node before the one at `pos`; `none` if there is none. -/
def linkBefore (pos a : Addr) (d : D) : Option (Heap D × ListEnds) :=
  (h pos).map fun node =>
    (((h.store a ⟨d, node.prev, some pos⟩).setNext node.prev (some a)).setPrev (some pos) (some a),
      ⟨if node.prev.isSome then e.first else some a, e.last⟩)

/-- The node at `a` is taken out and freed; `none` if there is none. -/
def unlinkNode (a : Addr) : Option (Heap D × ListEnds) :=
  (h a).map fun node =>
    (((h.setNext node.prev node.next).setPrev node.next node.prev).free a,
      ⟨if e.first = some a then node.next else e.first, if e.last = some a then node.prev else e.last⟩)

end

section

variable {D : Type*} {h : Heap D} {e : ListEnds} {a pos : Addr} {d d' : D} {xs ys : List (Addr × D)}

theorem Heap.malloc_eq_some {b : Addr} : h.malloc a = some b ↔ h a = none ∧ b = a := by
  rw [Heap.malloc]
  split
  · simp [*, eq_comm]
  · simp [*]

theorem Seg.find {p : D → Bool} {q : Option Addr} (hs : Seg h q xs none) {rounds : Nat} (hrounds : xs.length ≤ rounds) :
    h.find p rounds (firstPtr xs none) = some ((xs.find? fun x => p x.2).map Prod.fst) := by
  induction xs generalizing q rounds with
  | nil =>
    unfold Heap.find
    rfl
  | cons x xs ih =>
    obtain ⟨rounds, rfl⟩ : ∃ n, rounds = n + 1 := ⟨rounds - 1, by simp only [List.length_cons] at hrounds; omega⟩
    rw [firstPtr_cons, Heap.find, hs.1]
    dsimp only
    rw [List.find?_cons]
    cases hp : p x.2 with
    | true => rfl
    | false => exact ih hs.2 (by simpa using hrounds)

theorem lastPtr_cons_ne {x : Addr × D} (h0 : xs ≠ []) : lastPtr none (x :: xs) = lastPtr none xs := by
  cases xs with
  | nil => exact absurd rfl h0
  | cons y xs => rfl

/-- The last pointer is that of what comes at the end. -/
theorem lastPtr_append_of_ne (h0 : ys ≠ []) : lastPtr none (xs ++ ys) = lastPtr none ys := by
  cases ys with
  | nil => exact absurd rfl h0
  | cons y ys => exact lastPtr_append_cons none

/-- The pointers to the first and the last node are not to another one. -/
theorem ptr_ne_of_notMem (ha : a ∉ addrs xs) : firstPtr xs none ≠ some a ∧ lastPtr none xs ≠ some a :=
  ⟨fun heq => ha (by simpa using firstPtr_mem heq), fun heq => ha (by simpa using lastPtr_mem heq)⟩

theorem linkFirst_eq (he : e = endsOf xs) : linkFirst h e a d =
    (((h.store a ⟨d, lastPtr none ([] : List (Addr × D)), firstPtr xs none⟩).setPrev (firstPtr xs none) (some a)).setNext
      (lastPtr none ([] : List (Addr × D))) (some a), endsOf ((a, d) :: xs)) := by
  subst he
  cases xs with
  | nil => rfl
  | cons x xs => rfl

theorem linkLast_eq (he : e = endsOf xs) : linkLast h e a d =
    (((h.store a ⟨d, lastPtr none xs, firstPtr ([] : List (Addr × D)) none⟩).setPrev (firstPtr ([] : List (Addr × D)) none) (some a)).setNext
      (lastPtr none xs) (some a), endsOf (xs ++ [(a, d)])) := by
  subst he
  cases xs with
  | nil => rfl
  | cons x xs =>
    simp only [linkLast, endsOf, firstPtr_cons, Option.isSome_some, if_true, List.cons_append, lastPtr_cons,
      lastPtr_append]
    rfl

theorem linkBefore_eq (he : e = endsOf (xs ++ (pos, d') :: ys)) (hs : Seg h none (xs ++ (pos, d') :: ys) none) :
    linkBefore h e pos a d =
      some (((h.store a ⟨d, lastPtr none xs, firstPtr ((pos, d') :: ys) none⟩).setPrev
        (firstPtr ((pos, d') :: ys) none) (some a)).setNext (lastPtr none xs) (some a),
        endsOf (xs ++ (a, d) :: (pos, d') :: ys)) := by
  subst he
  rw [seg_append] at hs
  rw [linkBefore, hs.2.1, Option.map_some, Heap.setNext_setPrev]
  congr 2
  simp only [endsOf, lastPtr_append_of_ne (List.cons_ne_nil _ _), ListEnds.mk.injEq]
  refine ⟨?_, rfl⟩
  cases xs with
  | nil => rfl
  | cons x xs => rw [if_pos lastPtr_cons_isSome]; rfl

theorem unlinkNode_eq (he : e = endsOf (xs ++ (a, d) :: ys)) (hs : Seg h none (xs ++ (a, d) :: ys) none)
    (hn : (addrs (xs ++ (a, d) :: ys)).Nodup) :
    unlinkNode h e a =
      some (((h.setNext (lastPtr none xs) (firstPtr ys none)).setPrev (firstPtr ys none) (lastPtr none xs)).free a,
        endsOf (xs ++ ys)) := by
  subst he
  rw [addrs_append, List.nodup_append] at hn
  obtain ⟨-, hny, hne⟩ := hn
  have hay := (List.nodup_cons.mp hny).1
  rw [seg_append] at hs
  rw [unlinkNode, hs.2.1, Option.map_some]
  congr 2
  simp only [endsOf, ListEnds.mk.injEq]
  constructor
  · cases xs with
    | nil => exact if_pos rfl
    | cons x xs =>
      exact if_neg fun h0 => hne x.1 (List.mem_cons_self ..) a (List.mem_cons_self ..) (Option.some.inj h0)
  · cases ys with
    | nil =>
      rw [List.append_nil]
      exact if_pos (lastPtr_append_of_ne (List.cons_ne_nil _ _))
    | cons y ys =>
      have hlast : lastPtr none (xs ++ (a, d) :: y :: ys) = lastPtr none (y :: ys) := by
        rw [lastPtr_append_of_ne (List.cons_ne_nil _ _), lastPtr_cons_ne (List.cons_ne_nil _ _)]
      rw [lastPtr_append_of_ne (List.cons_ne_nil y ys), ← hlast]
      refine if_neg fun h0 => ?_
      rcases lastPtr_mem (hlast.symm.trans h0) with h0 | h0
      · exact hay h0
      · cases h0

end

/-! ## In one of many lists -/

namespace Lists

variable {ι D : Type*} {h : Heap D} {b : ι → List (Addr × D)} {i : ι} {e : ListEnds} {a pos : Addr} {d d' : D}
  {xs ys : List (Addr × D)}

/-- The node at an address of a list, between what is before it and what is after it. -/
theorem node (hl : Lists h b) (ha : a ∈ addrs (b i)) :
    ∃ xs d ys, b i = xs ++ (a, d) :: ys ∧ h a = some ⟨d, lastPtr none xs, firstPtr ys none⟩ := by
  obtain ⟨⟨a', d⟩, hx, rfl⟩ := List.mem_map.mp ha
  obtain ⟨xs, ys, hb⟩ := List.append_of_mem hx
  have hs := hl.linked i
  rw [hb, seg_append] at hs
  exact ⟨xs, d, ys, hb, hs.2.1⟩

variable [DecidableEq ι]

theorem linkFirst (hl : Lists h b) (he : e = endsOf (b i)) (ha : h a = none) :
    Lists (linkFirst h e a d).1 (Function.update b i ((a, d) :: b i)) ∧
      (Framework.linkFirst h e a d).2 = endsOf ((a, d) :: b i) := by
  rw [linkFirst_eq he]
  exact ⟨hl.insert (List.nil_append (b i)).symm ha d, rfl⟩

theorem linkLast (hl : Lists h b) (he : e = endsOf (b i)) (ha : h a = none) :
    Lists (linkLast h e a d).1 (Function.update b i (b i ++ [(a, d)])) ∧
      (Framework.linkLast h e a d).2 = endsOf (b i ++ [(a, d)]) := by
  rw [linkLast_eq he]
  exact ⟨hl.insert (List.append_nil (b i)).symm ha d, rfl⟩

theorem linkBefore (hl : Lists h b) (he : e = endsOf (b i)) (ha : h a = none) (hb : b i = xs ++ (pos, d') :: ys) :
    ∃ h', linkBefore h e pos a d = some (h', endsOf (xs ++ (a, d) :: (pos, d') :: ys)) ∧
      Lists h' (Function.update b i (xs ++ (a, d) :: (pos, d') :: ys)) := by
  have hs := hl.linked i
  rw [hb] at hs he
  exact ⟨_, linkBefore_eq he hs, hl.insert hb ha d⟩

theorem unlinkNode (hl : Lists h b) (he : e = endsOf (b i)) (hb : b i = xs ++ (a, d) :: ys) :
    ∃ h', unlinkNode h e a = some (h', endsOf (xs ++ ys)) ∧ Lists h' (Function.update b i (xs ++ ys)) := by
  have hs := hl.linked i
  have hn := hl.nodup i
  rw [hb] at hs hn he
  exact ⟨_, unlinkNode_eq he hs hn, hl.unlink hb⟩

/-- A node of the list becomes the first one. -/
theorem moveFirst (hl : Lists h b) (hb : b i = xs ++ (a, d) :: ys) (h0 : xs ≠ []) :
    Lists (((((h.setNext (lastPtr none xs) (firstPtr ys none)).setPrev (firstPtr ys none) (lastPtr none xs)).setPrev
      (firstPtr xs none) (some a)).setPrev (some a) none).setNext (some a) (firstPtr xs none))
      (Function.update b i ((a, d) :: (xs ++ ys))) := by
  have hs := hl.linked i
  have hn := hl.nodup i
  rw [hb] at hs hn
  have hunlink := hs.unlink hn
  have hnode := (seg_append.mp hs).2.1
  have hperm : (addrs (xs ++ (a, d) :: ys)).Perm (addrs ((a, d) :: (xs ++ ys))) := List.perm_middle.map Prod.fst
  obtain ⟨ha, hrest⟩ := List.nodup_cons.mp (hperm.nodup_iff.mp hn)
  have hfirst : firstPtr (xs ++ ys) none = firstPtr xs none := by
    cases xs with
    | nil => exact absurd rfl h0
    | cons x xs => rfl
  have haxs : a ∉ addrs xs ∧ a ∉ addrs ys := by
    rw [← not_or, ← List.mem_append, ← addrs_append]
    exact ha
  obtain ⟨hne, hlast⟩ := ptr_ne_of_notMem haxs.1
  have hnext := (ptr_ne_of_notMem haxs.2).1
  have hkept : (((h.setNext (lastPtr none xs) (firstPtr ys none)).setPrev (firstPtr ys none) (lastPtr none xs)).setPrev
      (firstPtr xs none) (some a)) a = h a := by
    rw [Heap.setPrev_of_ne hne, Heap.setPrev_of_ne hnext, Heap.setNext_of_ne hlast]
  refine hl.update ⟨?_, ?_⟩ (List.nodup_cons.mpr ⟨ha, hrest⟩) (fun c hc => .inl ?_) fun c hc _ => ?_
  · rw [hfirst]
    simp only [Heap.setNext, Heap.modify_self]
    rw [Heap.setPrev, Heap.modify_self]
    exact (congrArg (Option.map _ ∘ Option.map _) (hkept.trans hnode)).trans rfl
  · refine (hunlink.setPrev hrest (some a)).frame fun c hc => ?_
    have hca : some a ≠ some c := fun heq => ha (Option.some.inj heq ▸ hc)
    rw [Heap.setNext_of_ne hca, Heap.setPrev_of_ne hca, hfirst]
    exact Heap.setPrev_congr (Heap.free_of_ne fun heq => hca (congrArg some heq.symm)).symm
  · rw [hb]
    exact hperm.mem_iff.mpr hc
  · rw [hb, hperm.mem_iff] at hc
    obtain ⟨hca, hcrest⟩ := List.ne_and_not_mem_of_not_mem_cons hc
    rw [List.map_append, List.mem_append, not_or] at hcrest
    have hac : some a ≠ some c := fun heq => hca (Option.some.inj heq).symm
    obtain ⟨hcfirst, hclast⟩ := ptr_ne_of_notMem hcrest.1
    rw [Heap.setNext_of_ne hac, Heap.setPrev_of_ne hac, Heap.setPrev_of_ne hcfirst,
      Heap.setPrev_of_ne (ptr_ne_of_notMem hcrest.2).1, Heap.setNext_of_ne hclast]

end Lists

end Wirc.Framework

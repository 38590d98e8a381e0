import Mathlib.Data.List.Basic
import Mathlib.Logic.Function.Basic

/-!
# Doubly linked lists in a heap

A heap maps the addresses in use to nodes, which hold data and the pointers to
the previous and the next node (`none` is NULL). `Seg h q xs m`: the nodes at
the addresses of `xs` hold the data of `xs` and are linked in that order, from
a first node whose previous one is `q` to a last node whose next one is `m`.

A segment is split with `seg_append`, keeps its meaning when other addresses
change (`Seg.frame`), and each of its two ends is relinked alone
(`Seg.setPrev`, `Seg.setNext`); `Seg.insert`, `Seg.unlink`, `Seg.move` and
`Seg.setData` are put together from these.
-/

namespace Wirc.Framework

abbrev Addr := Nat

structure Node (D : Type*) where
  data : D
  prev : Option Addr
  next : Option Addr

abbrev Heap (D : Type*) := Addr → Option (Node D)

namespace Heap

variable {D : Type*}

/-- `*a = n`. -/
def store (h : Heap D) (a : Addr) (n : Node D) : Heap D := Function.update h a (some n)

/-- `free (a)`. -/
def free (h : Heap D) (a : Addr) : Heap D := Function.update h a none

/-- Changes the node at `a`, if there is one. -/
def modify (h : Heap D) (a : Addr) (f : Node D → Node D) : Heap D := Function.update h a ((h a).map f)

/-- `a->data = d`. -/
def setData (h : Heap D) (a : Addr) (d : D) : Heap D := h.modify a fun n => { n with data := d }

/-- `if (p) p->prev = v`. -/
def setPrev (h : Heap D) (p v : Option Addr) : Heap D :=
  match p with
  | some a => h.modify a fun n => { n with prev := v }
  | none => h

/-- `if (p) p->next = v`. -/
def setNext (h : Heap D) (p v : Option Addr) : Heap D :=
  match p with
  | some a => h.modify a fun n => { n with next := v }
  | none => h

theorem store_of_ne {h : Heap D} {a b : Addr} {n : Node D} (hb : b ≠ a) : h.store a n b = h b :=
  Function.update_of_ne hb ..

theorem free_of_ne {h : Heap D} {a b : Addr} (hb : b ≠ a) : h.free a b = h b :=
  Function.update_of_ne hb ..

theorem modify_of_ne {h : Heap D} {a b : Addr} {f : Node D → Node D} (hb : b ≠ a) :
    h.modify a f b = h b := Function.update_of_ne hb ..

theorem modify_self {h : Heap D} {a : Addr} {f : Node D → Node D} : h.modify a f a = (h a).map f :=
  Function.update_self ..

theorem setPrev_of_ne {h : Heap D} {p v : Option Addr} {b : Addr} (hb : p ≠ some b) :
    h.setPrev p v b = h b := by
  cases p with
  | none => rfl
  | some a => exact modify_of_ne fun hab => hb (by rw [hab])

theorem setNext_of_ne {h : Heap D} {p v : Option Addr} {b : Addr} (hb : p ≠ some b) :
    h.setNext p v b = h b := by
  cases p with
  | none => rfl
  | some a => exact modify_of_ne fun hab => hb (by rw [hab])

/-- What is changed at an address depends on what is there. -/
theorem setPrev_congr {h h' : Heap D} {p v : Option Addr} {b : Addr} (hb : h b = h' b) :
    h.setPrev p v b = h'.setPrev p v b := by
  by_cases hp : p = some b
  · subst hp
    simp only [setPrev, modify_self, hb]
  · rw [setPrev_of_ne hp, setPrev_of_ne hp, hb]

/-- Changes of different fields may be made in any order. -/
theorem setNext_setPrev {h : Heap D} {p q v w : Option Addr} :
    (h.setNext p v).setPrev q w = (h.setPrev q w).setNext p v := by
  cases p with
  | none => rfl
  | some a =>
    cases q with
    | none => rfl
    | some b =>
      funext c
      simp only [setNext, setPrev]
      rcases eq_or_ne a b with rfl | hab
      · rcases eq_or_ne c a with rfl | hca
        · simp only [modify_self, Option.map_map]
          rfl
        · simp only [modify_of_ne hca]
      · rcases eq_or_ne c a with rfl | hca
        · simp only [modify_self, modify_of_ne hab]
        · rcases eq_or_ne c b with rfl | hcb
          · simp only [modify_self, modify_of_ne hca]
          · simp only [modify_of_ne hca, modify_of_ne hcb]

theorem modify_eq_none {h : Heap D} {a b : Addr} {f : Node D → Node D} :
    h.modify a f b = none ↔ h b = none := by
  by_cases hb : b = a
  · rw [hb, modify_self, Option.map_eq_none_iff]
  · rw [modify_of_ne hb]

theorem setPrev_eq_none {h : Heap D} {p v : Option Addr} {b : Addr} :
    h.setPrev p v b = none ↔ h b = none := by
  cases p with
  | none => rfl
  | some a => exact modify_eq_none

theorem setNext_eq_none {h : Heap D} {p v : Option Addr} {b : Addr} :
    h.setNext p v b = none ↔ h b = none := by
  cases p with
  | none => rfl
  | some a => exact modify_eq_none

/-! ### Other data in the same places -/

variable {D' : Type*}

/-- The heap with the data of each node mapped. -/
def mapData (g : D → D') (h : Heap D) : Heap D' := fun a => (h a).map fun n => ⟨g n.data, n.prev, n.next⟩

variable (g : D → D') (h : Heap D)

theorem mapData_update (a : Addr) (o : Option (Node D)) :
    mapData g (Function.update h a o) =
      Function.update (mapData g h) a (o.map fun n => ⟨g n.data, n.prev, n.next⟩) := by
  funext b
  by_cases hb : b = a
  · subst hb
    simp [mapData]
  · simp [mapData, hb]

theorem mapData_store (a : Addr) (n : Node D) :
    mapData g (h.store a n) = (mapData g h).store a ⟨g n.data, n.prev, n.next⟩ := mapData_update g h a _

theorem mapData_free (a : Addr) : mapData g (h.free a) = (mapData g h).free a := mapData_update g h a none

theorem mapData_setPrev (p v : Option Addr) : mapData g (h.setPrev p v) = (mapData g h).setPrev p v := by
  cases p with
  | none => rfl
  | some a =>
    refine (mapData_update g h a _).trans ?_
    simp only [setPrev, modify, mapData, Option.map_map]
    rfl

theorem mapData_setNext (p v : Option Addr) : mapData g (h.setNext p v) = (mapData g h).setNext p v := by
  cases p with
  | none => rfl
  | some a =>
    refine (mapData_update g h a _).trans ?_
    simp only [setNext, modify, mapData, Option.map_map]
    rfl

end Heap

/-! ## Segments -/

section

variable {D : Type*} {h h' : Heap D} {q m : Option Addr} {a : Addr} {d : D}
  {xs ys : List (Addr × D)}

/-- The addresses of a segment. -/
abbrev addrs (xs : List (Addr × D)) : List Addr := xs.map Prod.fst

/-- The pointer to the first node, `m` without nodes. -/
def firstPtr (xs : List (Addr × D)) (m : Option Addr) : Option Addr :=
  match xs with
  | [] => m
  | x :: _ => some x.1

/-- The pointer to the last node, `q` without nodes. -/
def lastPtr (q : Option Addr) (xs : List (Addr × D)) : Option Addr :=
  match xs with
  | [] => q
  | x :: xs => lastPtr (some x.1) xs

/-- The linked nodes of `xs`. -/
def Seg (h : Heap D) (q : Option Addr) : List (Addr × D) → Option Addr → Prop
  | [], _ => True
  | x :: xs, m => h x.1 = some ⟨x.2, q, firstPtr xs m⟩ ∧ Seg h (some x.1) xs m

@[simp] theorem firstPtr_nil : firstPtr ([] : List (Addr × D)) m = m := rfl

@[simp] theorem firstPtr_cons {x : Addr × D} : firstPtr (x :: xs) m = some x.1 := rfl

@[simp] theorem lastPtr_nil : lastPtr q ([] : List (Addr × D)) = q := rfl

@[simp] theorem lastPtr_cons {x : Addr × D} : lastPtr q (x :: xs) = lastPtr (some x.1) xs := rfl

theorem firstPtr_append : firstPtr (xs ++ ys) m = firstPtr xs (firstPtr ys m) := by
  cases xs <;> rfl

theorem lastPtr_append : lastPtr q (xs ++ ys) = lastPtr (lastPtr q xs) ys := by
  induction xs generalizing q with
  | nil => rfl
  | cons x xs ih => exact ih

theorem firstPtr_none : firstPtr xs none = (addrs xs).head? := by
  cases xs <;> rfl

theorem lastPtr_some : lastPtr q xs = (addrs xs).getLast?.or q := by
  induction xs generalizing q with
  | nil => rfl
  | cons x xs ih =>
    rw [lastPtr_cons, ih, show addrs (x :: xs) = x.1 :: addrs xs from rfl, List.getLast?_cons]
    cases (addrs xs).getLast? <;> rfl

theorem lastPtr_none : lastPtr none xs = (addrs xs).getLast? := by
  rw [lastPtr_some, Option.or_none]

theorem lastPtr_cons_isSome {x : Addr × D} : (lastPtr q (x :: xs)).isSome = true := by
  induction xs generalizing q x with
  | nil => rfl
  | cons y xs ih => exact ih (q := some x.1)

theorem lastPtr_append_cons {x : Addr × D} (q' : Option Addr) :
    lastPtr q (xs ++ x :: ys) = lastPtr q' (x :: ys) := by
  rw [lastPtr_append]
  rfl

theorem firstPtr_mem {a : Addr} (ha : firstPtr xs m = some a) : a ∈ addrs xs ∨ m = some a := by
  cases xs with
  | nil => exact .inr ha
  | cons x xs =>
    cases ha
    exact .inl (List.mem_cons_self ..)

theorem lastPtr_mem {a : Addr} (ha : lastPtr q xs = some a) : a ∈ addrs xs ∨ q = some a := by
  induction xs generalizing q with
  | nil => exact .inr ha
  | cons x xs ih =>
    rcases ih ha with hx | hx
    · exact .inl (List.mem_cons_of_mem _ hx)
    · cases hx
      exact .inl (List.mem_cons_self ..)

theorem seg_append : Seg h q (xs ++ ys) m ↔ Seg h q xs (firstPtr ys m) ∧ Seg h (lastPtr q xs) ys m := by
  induction xs generalizing q with
  | nil => simp [Seg]
  | cons x xs ih =>
    simp only [List.cons_append, Seg, firstPtr_append, ih, lastPtr, and_assoc]

/-- A segment depends on its own addresses only. -/
theorem Seg.frame (hs : Seg h q xs m) (heq : ∀ a ∈ addrs xs, h' a = h a) : Seg h' q xs m := by
  induction xs generalizing q with
  | nil => trivial
  | cons x xs ih =>
    exact ⟨(heq _ (List.mem_cons_self ..)).trans hs.1,
      ih hs.2 fun a ha => heq a (List.mem_cons_of_mem _ ha)⟩

/-- Each node of a segment is in the heap with its data. -/
theorem Seg.mem (hs : Seg h q xs m) (hx : (a, d) ∈ xs) : ∃ n, h a = some n ∧ n.data = d := by
  induction xs generalizing q with
  | nil => cases hx
  | cons x xs ih =>
    rcases List.mem_cons.mp hx with rfl | hx
    · exact ⟨_, hs.1, rfl⟩
    · exact ih hs.2 hx

theorem Seg.allocated (hs : Seg h q xs m) (ha : a ∈ addrs xs) : h a ≠ none := by
  obtain ⟨x, hx, rfl⟩ := List.mem_map.mp ha
  obtain ⟨n, hn, -⟩ := hs.mem (a := x.1) (d := x.2) hx
  simp [hn]

/-- The next node of the last one is what follows the segment. -/
theorem Seg.last_next (hs : Seg h q xs m) (hx : xs ≠ []) :
    ∃ p n, lastPtr q xs = some p ∧ h p = some n ∧ n.next = m := by
  rcases List.eq_nil_or_concat xs with rfl | ⟨init, z, rfl⟩
  · exact absurd rfl hx
  · rw [List.concat_eq_append, seg_append] at hs
    rw [List.concat_eq_append, lastPtr_append]
    exact ⟨z.1, _, rfl, hs.2.1, rfl⟩

/-! ## Relinking -/

/-- The first node of a segment gets another previous node. -/
theorem Seg.setPrev (hs : Seg h q ys none) (hn : (addrs ys).Nodup) (q' : Option Addr) :
    Seg (h.setPrev (firstPtr ys none) q') q' ys none := by
  cases ys with
  | nil => trivial
  | cons y ys =>
    have hy := (List.nodup_cons.mp hn).1
    refine ⟨?_, hs.2.frame fun a ha => Heap.setPrev_of_ne fun h0 => ?_⟩
    · simp only [firstPtr, Heap.setPrev, Heap.modify_self, hs.1, Option.map_some]
    · cases h0
      exact hy ha

/-- The last node of a segment gets another next node. -/
theorem Seg.setNext (hs : Seg h q xs m) (hn : (addrs xs).Nodup) (m' : Option Addr) :
    Seg (h.setNext (lastPtr q xs) m') q xs m' := by
  rcases List.eq_nil_or_concat xs with rfl | ⟨init, z, rfl⟩
  · trivial
  · rw [List.concat_eq_append] at hs hn ⊢
    rw [seg_append] at hs ⊢
    rw [lastPtr_append]
    have hz : z.1 ∉ addrs init := by
      simp only [addrs, List.map_append, List.nodup_append, List.map_cons, List.map_nil] at hn
      exact fun h0 => hn.2.2 _ h0 _ (List.mem_singleton_self _) rfl
    refine ⟨hs.1.frame fun a ha => Heap.setNext_of_ne fun h0 => ?_, ?_, trivial⟩
    · cases h0
      exact hz ha
    · simp only [lastPtr, Heap.setNext, Heap.modify_self, hs.2.1, Option.map_some, firstPtr]

theorem addrs_append : addrs (xs ++ ys) = addrs xs ++ addrs ys := List.map_append ..

/-- A new node is put between `xs` and `ys`. -/
theorem Seg.insert (hs : Seg h none (xs ++ ys) none) (hn : (addrs (xs ++ ys)).Nodup)
    (ha : a ∉ addrs (xs ++ ys)) (d : D) :
    Seg (((h.store a ⟨d, lastPtr none xs, firstPtr ys none⟩).setPrev (firstPtr ys none) (some a)).setNext
      (lastPtr none xs) (some a)) none (xs ++ (a, d) :: ys) none := by
  rw [seg_append] at hs ⊢
  rw [addrs_append, List.nodup_append] at hn
  rw [addrs_append, List.mem_append, not_or] at ha
  have hlast : ∀ b, lastPtr none xs = some b → b ∈ addrs xs := fun b hb => by
    simpa using lastPtr_mem hb
  have hfirst : ∀ b, firstPtr ys none = some b → b ∈ addrs ys := fun b hb => by
    simpa using firstPtr_mem hb
  have hne : ∀ b ∈ addrs xs, ∀ c ∈ addrs ys, b ≠ c := hn.2.2
  refine ⟨?_, ?_, ?_⟩
  · have hxs : Seg ((h.store a ⟨d, lastPtr none xs, firstPtr ys none⟩).setPrev (firstPtr ys none)
        (some a)) none xs (firstPtr ys none) := hs.1.frame fun b hb => by
      rw [Heap.setPrev_of_ne fun h0 => hne b hb b (hfirst b h0) rfl,
        Heap.store_of_ne (ne_of_mem_of_not_mem hb ha.1)]
    exact hxs.setNext hn.1 _
  · rw [Heap.setNext_of_ne fun h0 => ha.1 (hlast _ h0), Heap.setPrev_of_ne fun h0 => ha.2 (hfirst _ h0)]
    exact Function.update_self ..
  · have hys : Seg (h.store a ⟨d, lastPtr none xs, firstPtr ys none⟩) (lastPtr none xs) ys none :=
      hs.2.frame fun b hb => Heap.store_of_ne (ne_of_mem_of_not_mem hb ha.2)
    exact (hys.setPrev hn.2.1 (some a)).frame fun b hb =>
      Heap.setNext_of_ne fun h0 => hne b (hlast b h0) b hb rfl

/-- The node between `xs` and `ys` is taken out. -/
theorem Seg.unlink (hs : Seg h none (xs ++ (a, d) :: ys) none)
    (hn : (addrs (xs ++ (a, d) :: ys)).Nodup) :
    Seg (((h.setNext (lastPtr none xs) (firstPtr ys none)).setPrev (firstPtr ys none)
      (lastPtr none xs)).free a) none (xs ++ ys) none := by
  rw [seg_append] at hs ⊢
  rw [addrs_append, List.nodup_append] at hn
  obtain ⟨hnx, hny, hne⟩ := hn
  obtain ⟨hay, hny⟩ := List.nodup_cons.mp hny
  have hax : a ∉ addrs xs := fun h0 => hne a h0 a (List.mem_cons_self ..) rfl
  have hne : ∀ b ∈ addrs xs, ∀ c ∈ addrs ys, b ≠ c := fun b hb c hc => hne b hb c (List.mem_cons_of_mem _ hc)
  have hlast : ∀ b, lastPtr none xs = some b → b ∈ addrs xs := fun b hb => by
    simpa using lastPtr_mem hb
  have hfirst : ∀ b, firstPtr ys none = some b → b ∈ addrs ys := fun b hb => by
    simpa using firstPtr_mem hb
  constructor
  · refine (hs.1.setNext hnx (firstPtr ys none)).frame fun b hb => ?_
    rw [Heap.free_of_ne (ne_of_mem_of_not_mem hb hax), Heap.setPrev_of_ne fun h0 => hne b hb b (hfirst b h0) rfl]
  · have hys : Seg (h.setNext (lastPtr none xs) (firstPtr ys none)) (some a) ys none :=
      hs.2.2.frame fun b hb => Heap.setNext_of_ne fun h0 => hne b (hlast b h0) b hb rfl
    exact (hys.setPrev hny (lastPtr none xs)).frame fun b hb => Heap.free_of_ne (ne_of_mem_of_not_mem hb hay)

/-- A node that keeps its data gets other pointers. -/
theorem setNext_setPrev_node {n : Node D} (ha : h a = some n) (v w : Option Addr) :
    (h.setPrev (some a) v).setNext (some a) w = (h.free a).store a ⟨n.data, v, w⟩ := by
  funext b
  rcases eq_or_ne b a with rfl | hb
  · simp only [Heap.setPrev, Heap.setNext, Heap.modify_self, ha, Option.map_some]
    rw [Heap.store, Function.update_self]
  · rw [Heap.store_of_ne hb, Heap.free_of_ne hb, Heap.setNext_of_ne fun h0 => hb (Option.some.inj h0).symm,
      Heap.setPrev_of_ne fun h0 => hb (Option.some.inj h0).symm]

/-- The node after `xs` and `ys` is put between them. -/
theorem Seg.move {zs : List (Addr × D)} (hs : Seg h none (xs ++ ys ++ (a, d) :: zs) none)
    (hn : (addrs (xs ++ ys ++ (a, d) :: zs)).Nodup) (h0 : ys ≠ []) :
    Seg ((((((h.setNext (lastPtr none (xs ++ ys)) (firstPtr zs none)).setPrev (firstPtr zs none)
      (lastPtr none (xs ++ ys))).setPrev (some a) (lastPtr none xs)).setNext (some a) (firstPtr ys none)).setNext
      (lastPtr none xs) (some a)).setPrev (firstPtr ys none) (some a)) none (xs ++ (a, d) :: (ys ++ zs)) none := by
  have hunlink := hs.unlink hn
  have hperm : (addrs (xs ++ ys ++ (a, d) :: zs)).Perm (addrs ((a, d) :: (xs ++ ys ++ zs))) :=
    List.perm_middle.map Prod.fst
  obtain ⟨ha, hrest⟩ : a ∉ addrs (xs ++ ys ++ zs) ∧ (addrs (xs ++ ys ++ zs)).Nodup :=
    List.nodup_cons.mp (hperm.nodup_iff.mp hn)
  have hfirst : firstPtr (ys ++ zs) none = firstPtr ys none := by
    cases ys with
    | nil => exact absurd rfl h0
    | cons y ys => rfl
  have hnode : ((h.setNext (lastPtr none (xs ++ ys)) (firstPtr zs none)).setPrev (firstPtr zs none)
      (lastPtr none (xs ++ ys))) a = some ⟨d, lastPtr none (xs ++ ys), firstPtr zs none⟩ := by
    have hold : h a = some ⟨d, lastPtr none (xs ++ ys), firstPtr zs none⟩ := (seg_append.mp hs).2.1
    rw [addrs_append, List.mem_append, not_or] at ha
    rw [Heap.setPrev_of_ne fun h1 => ha.2 (by simpa using firstPtr_mem h1),
      Heap.setNext_of_ne fun h1 => ha.1 (by simpa using lastPtr_mem h1), hold]
  rw [List.append_assoc] at hunlink hrest ha
  rw [setNext_setPrev_node hnode, Heap.setNext_setPrev, ← hfirst]
  exact hunlink.insert hrest ha d

/-- The data of one node is changed. -/
theorem Seg.setData {d' : D} (hs : Seg h q (xs ++ (a, d) :: ys) m)
    (hn : (addrs (xs ++ (a, d) :: ys)).Nodup) : Seg (h.setData a d') q (xs ++ (a, d') :: ys) m := by
  rw [seg_append] at hs ⊢
  rw [addrs_append, List.nodup_append] at hn
  obtain ⟨-, hny, hne⟩ := hn
  have hay := (List.nodup_cons.mp hny).1
  have hax : a ∉ addrs xs := fun h0 => hne a h0 a (List.mem_cons_self ..) rfl
  refine ⟨hs.1.frame fun b hb => Heap.modify_of_ne (ne_of_mem_of_not_mem hb hax), ?_, ?_⟩
  · simp only [Heap.setData, Heap.modify_self, hs.2.1, Option.map_some]
  · exact hs.2.2.frame fun b hb => Heap.modify_of_ne (ne_of_mem_of_not_mem hb hay)

/-! ## What the operations leave alone -/

theorem insert_of_notMem {b : Addr} {n : Node D} (hb : b ∉ addrs (xs ++ ys)) (hab : b ≠ a) (v : Option Addr) :
    ((h.store a n).setPrev (firstPtr ys none) v).setNext (lastPtr none xs) v b = h b := by
  rw [addrs_append, List.mem_append, not_or] at hb
  rw [Heap.setNext_of_ne fun h0 => hb.1 (by simpa using lastPtr_mem h0),
    Heap.setPrev_of_ne fun h0 => hb.2 (by simpa using firstPtr_mem h0), Heap.store_of_ne hab]

theorem move_of_notMem {zs : List (Addr × D)} {b : Addr} (hb : b ∉ addrs (xs ++ ys ++ (a, d) :: zs)) :
    (((((h.setNext (lastPtr none (xs ++ ys)) (firstPtr zs none)).setPrev (firstPtr zs none)
      (lastPtr none (xs ++ ys))).setPrev (some a) (lastPtr none xs)).setNext (some a) (firstPtr ys none)).setNext
      (lastPtr none xs) (some a)).setPrev (firstPtr ys none) (some a) b = h b := by
  simp only [addrs_append, List.map_cons, List.mem_append, List.mem_cons, not_or] at hb
  obtain ⟨⟨hx, hy⟩, hab, hz⟩ := hb
  have hxy : b ∉ addrs (xs ++ ys) := by
    rw [addrs_append, List.mem_append, not_or]
    exact ⟨hx, hy⟩
  have hsome : some a ≠ some b := fun h0 => hab (Option.some.inj h0).symm
  rw [Heap.setPrev_of_ne fun h0 => hy (by simpa using firstPtr_mem h0),
    Heap.setNext_of_ne fun h0 => hx (by simpa using lastPtr_mem h0), Heap.setNext_of_ne hsome,
    Heap.setPrev_of_ne hsome, Heap.setPrev_of_ne fun h0 => hz (by simpa using firstPtr_mem h0),
    Heap.setNext_of_ne fun h0 => hxy (by simpa using lastPtr_mem h0)]

theorem unlink_of_notMem {b : Addr} (hb : b ∉ addrs (xs ++ (a, d) :: ys)) :
    ((h.setNext (lastPtr none xs) (firstPtr ys none)).setPrev (firstPtr ys none)
      (lastPtr none xs)).free a b = h b := by
  rw [addrs_append, List.mem_append, not_or] at hb
  obtain ⟨hx, hy⟩ := hb
  obtain ⟨hab, hy⟩ := List.ne_and_not_mem_of_not_mem_cons hy
  rw [Heap.free_of_ne hab, Heap.setPrev_of_ne fun h0 => hy (by simpa using firstPtr_mem h0),
    Heap.setNext_of_ne fun h0 => hx (by simpa using lastPtr_mem h0)]

end

/-! ## Many lists in one heap -/

section

variable {ι D : Type*} {h : Heap D} {b : ι → List (Addr × D)}

/-- Lists with no node in common. -/
structure Lists (h : Heap D) (b : ι → List (Addr × D)) : Prop where
  linked : ∀ i, Seg h none (b i) none
  nodup : ∀ i, (addrs (b i)).Nodup
  disjoint : ∀ i j, i ≠ j → ∀ a ∈ addrs (b i), a ∉ addrs (b j)

namespace Lists

variable {i j : ι} {a : Addr} {d d' : D} {xs ys : List (Addr × D)}

/-- Nodes at one address are one node. -/
theorem data_unique (hl : Lists h b) (hi : (a, d) ∈ b i) (hj : (a, d') ∈ b j) : d = d' := by
  obtain ⟨n, hn, rfl⟩ := (hl.linked i).mem hi
  obtain ⟨n', hn', rfl⟩ := (hl.linked j).mem hj
  rw [hn] at hn'
  cases hn'
  rfl

variable [DecidableEq ι]

/-- One list is changed, by its own nodes and new ones. -/
theorem update (hl : Lists h b) {h' : Heap D} {l : List (Addr × D)} (hs : Seg h' none l none) (hn : (addrs l).Nodup)
    (hnew : ∀ a ∈ addrs l, a ∈ addrs (b i) ∨ h a = none)
    (hframe : ∀ a, a ∉ addrs (b i) → h a ≠ none → h' a = h a) : Lists h' (Function.update b i l) := by
  have hother : ∀ j, j ≠ i → ∀ a ∈ addrs (b j), a ∉ addrs l := fun j hj a ha hal => by
    rcases hnew a hal with hi | hfree
    · exact hl.disjoint j i hj a ha hi
    · exact (hl.linked j).allocated ha hfree
  refine ⟨fun j => ?_, fun j => ?_, fun j k hjk c hc => ?_⟩
  · rcases eq_or_ne j i with rfl | hj
    · rwa [Function.update_self]
    · rw [Function.update_of_ne hj]
      exact (hl.linked j).frame fun a ha => hframe a (hl.disjoint j i hj a ha) ((hl.linked j).allocated ha)
  · rcases eq_or_ne j i with rfl | hj
    · rwa [Function.update_self]
    · rw [Function.update_of_ne hj]
      exact hl.nodup j
  · rcases eq_or_ne j i with rfl | hj
    · rw [Function.update_self] at hc
      rw [Function.update_of_ne hjk.symm]
      exact fun hck => hother k hjk.symm c hck hc
    · rw [Function.update_of_ne hj] at hc
      rcases eq_or_ne k i with rfl | hk
      · rw [Function.update_self]
        exact hother j hj c hc
      · rw [Function.update_of_ne hk]
        exact hl.disjoint j k hjk c hc

theorem insert (hl : Lists h b) (hb : b i = xs ++ ys) (ha : h a = none) (d : D) :
    Lists (((h.store a ⟨d, lastPtr none xs, firstPtr ys none⟩).setPrev (firstPtr ys none) (some a)).setNext
      (lastPtr none xs) (some a)) (Function.update b i (xs ++ (a, d) :: ys)) := by
  have hs := hl.linked i
  have hn := hl.nodup i
  rw [hb] at hs hn
  have hfresh : a ∉ addrs (xs ++ ys) := fun h0 => hs.allocated h0 ha
  refine hl.update (hs.insert hn hfresh d) ?_ (fun c hc => ?_) fun c hc hcn => ?_
  · rw [addrs_append] at hn hfresh ⊢
    rw [List.nodup_append] at hn ⊢
    simp only [List.mem_append, not_or] at hfresh
    refine ⟨hn.1, List.nodup_cons.mpr ⟨hfresh.2, hn.2.1⟩, fun x hx y hy => ?_⟩
    rcases List.mem_cons.mp hy with rfl | hy
    · exact ne_of_mem_of_not_mem hx hfresh.1
    · exact hn.2.2 x hx y hy
  · rw [hb]
    simp only [addrs_append, List.mem_append, List.map_cons, List.mem_cons] at hc ⊢
    rcases hc with hc | rfl | hc
    · exact .inl (.inl hc)
    · exact .inr ha
    · exact .inl (.inr hc)
  · rw [hb] at hc
    exact insert_of_notMem hc (by rintro rfl; exact hcn ha) _

theorem unlink (hl : Lists h b) (hb : b i = xs ++ (a, d) :: ys) :
    Lists (((h.setNext (lastPtr none xs) (firstPtr ys none)).setPrev (firstPtr ys none) (lastPtr none xs)).free a)
      (Function.update b i (xs ++ ys)) := by
  have hs := hl.linked i
  have hn := hl.nodup i
  rw [hb] at hs hn
  refine hl.update (hs.unlink hn) ?_ (fun c hc => .inl ?_) fun c hc _ => ?_
  · refine hn.sublist ?_
    rw [addrs_append, addrs_append]
    exact List.Sublist.append_left (List.sublist_cons_self ..) _
  · rw [hb]
    simp only [addrs_append, List.mem_append, List.map_cons, List.mem_cons] at hc ⊢
    exact hc.imp_right .inr
  · rw [hb] at hc
    exact unlink_of_notMem hc

theorem setData (hl : Lists h b) (hb : b i = xs ++ (a, d) :: ys) :
    Lists (h.setData a d') (Function.update b i (xs ++ (a, d') :: ys)) := by
  have hs := hl.linked i
  have hn := hl.nodup i
  rw [hb] at hs hn
  have haddrs : addrs (xs ++ (a, d') :: ys) = addrs (xs ++ (a, d) :: ys) := by
    rw [addrs_append, addrs_append]
    rfl
  refine hl.update (hs.setData hn) (haddrs ▸ hn) (fun c hc => .inl ?_) fun c hc _ => Heap.modify_of_ne ?_
  · rw [hb]
    exact haddrs ▸ hc
  · rintro rfl
    refine hc ?_
    rw [hb, addrs_append]
    simp

end Lists

end

end Wirc.Framework

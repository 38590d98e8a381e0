import Mathlib.Algebra.Order.BigOperators.Group.Finset
import WhoreIrc.Framework.Run
import WhoreIrc.Spec.Hashtable

/-!
# Hashtables refine finite maps

`hashtableSearchPos_ok` says where the walk of every operation stops, and
`WellFormed.update` what is left to show when an operation changes one bucket.
-/

namespace Wirc

open Framework

section

variable {K V : Type}

variable {hashtable : Hashtable K V} {b : Nat → List (Addr × ItemData K V)}

namespace WellFormed

theorem bucket_lt (h : WellFormed hashtable b) (k : K) : hashtableBucket hashtable k < hashtable.size :=
  Nat.mod_lt _ h.size

/-- Items at one address are one item. -/
theorem data_unique (h : WellFormed hashtable b) {i j : Nat} {a : Addr} {d d' : ItemData K V}
    (hi : (a, d) ∈ b i) (hj : (a, d') ∈ b j) : d = d' := by
  obtain ⟨n, hn, rfl⟩ := (h.linked i).mem hi
  obtain ⟨n', hn', rfl⟩ := (h.linked j).mem hj
  rw [hn] at hn'
  cases hn'
  rfl

/-- An address is in one bucket only. -/
theorem disjoint (h : WellFormed hashtable b) {i j : Nat} (hij : i ≠ j) {a : Addr} (ha : a ∈ addrs (b i)) :
    a ∉ addrs (b j) := by
  intro ha'
  obtain ⟨⟨_, d⟩, hd, rfl⟩ := List.mem_map.mp ha
  obtain ⟨⟨_, d'⟩, hd', rfl⟩ := List.mem_map.mp ha'
  cases h.data_unique hd hd'
  exact hij ((h.hashed i _ hd).symm.trans (h.hashed j _ hd'))

theorem nodup (h : WellFormed hashtable b) (i : Nat) : (addrs (b i)).Nodup := by
  refine List.pairwise_map.mpr ((h.sorted i).imp_of_mem fun {x y} hx hy hlt hxy => ?_)
  obtain ⟨a, d⟩ := x
  obtain ⟨a', d'⟩ := y
  cases hxy
  cases h.data_unique hx hy
  rw [h.order.refl] at hlt
  cases hlt

/-- No bucket is longer than the count. -/
theorem length_lt_rounds (h : WellFormed hashtable b) {i : Nat} (hi : i < hashtable.size) :
    (b i).length < hashtableRounds hashtable := by
  have := Finset.single_le_sum (f := fun i => (b i).length) (fun i _ => Nat.zero_le _)
    (Finset.mem_range.mpr hi)
  rw [hashtableRounds, h.count, Int.toNat_natCast]
  exact Nat.lt_succ_of_le this

/-- One bucket is changed to `L`. -/
theorem update (h : WellFormed hashtable b) {i : Nat} (hi : i < hashtable.size)
    {L : List (Addr × ItemData K V)} {htable : Nat → Option Addr} {items : Heap (ItemData K V)}
    {itemsCount : Int} {nextAddr : Addr}
    (head : htable = Function.update hashtable.htable i (firstPtr L none))
    (linked : Seg items none L none)
    (sorted : KeysSorted hashtable.callbackKeycmp cellKey L)
    (hashed : ∀ x ∈ L, hashtableBucket hashtable (cellKey x) = i)
    (count : itemsCount + (b i).length = hashtable.itemsCount + L.length)
    (fresh : ∀ a, items a ≠ none → a < nextAddr)
    (frame : ∀ a, a ∉ addrs (b i) → hashtable.items a ≠ none → items a = hashtable.items a) :
    WellFormed { hashtable with htable, items, itemsCount, nextAddr } (Function.update b i L) := by
  have cases_update : ∀ {P : Nat → List (Addr × ItemData K V) → Prop}, P i L → (∀ j, j ≠ i → P j (b j)) →
      ∀ j, P j (Function.update b i L j) := by
    intro P hL hb j
    by_cases hj : j = i
    · subst hj
      rwa [Function.update_self]
    · rw [Function.update_of_ne hj]
      exact hb j hj
  refine ⟨h.order, h.typeKeys, h.size, ?_, ?_, ?_, ?_, ?_, fresh⟩
  · refine cases_update (P := fun j l => htable j = firstPtr l none) ?_ fun j hj => ?_
    · rw [head, Function.update_self]
    · rw [head, Function.update_of_ne hj, h.head]
  · refine cases_update (P := fun _ l => Seg items none l none) linked fun j hj => ?_
    exact (h.linked j).frame fun a ha => frame a (h.disjoint hj ha) ((h.linked j).allocated ha)
  · exact cases_update (P := fun _ l => KeysSorted hashtable.callbackKeycmp cellKey l) sorted
      fun j _ => h.sorted j
  · exact cases_update (P := fun j l => ∀ x ∈ l, hashtableBucket hashtable (cellKey x) = j) hashed
      fun j _ => h.hashed j
  · have hcount := h.count
    have hmem := Finset.mem_range.mpr hi
    have hold := Finset.add_sum_erase (Finset.range hashtable.size) (fun j => (b j).length) hmem
    have hnew := Finset.add_sum_erase (Finset.range hashtable.size)
      (fun j => (Function.update b i L j).length) hmem
    have hrest : ∑ j ∈ (Finset.range hashtable.size).erase i, (Function.update b i L j).length =
        ∑ j ∈ (Finset.range hashtable.size).erase i, (b j).length :=
      Finset.sum_congr rfl fun j hj => by rw [Function.update_of_ne (Finset.ne_of_mem_erase hj)]
    simp only [Function.update_self, hrest] at hnew
    simp only
    omega

end WellFormed

/-! ## Searching -/

/-- The walk stops at the first key that is not smaller. -/
theorem hashtableSearchPos_ok (k : K) {xs : List (Addr × ItemData K V)} {q : Option Addr} {rounds : Nat}
    (hs : Seg hashtable.items q xs none) (hr : xs.length < rounds) :
    hashtableSearchPos hashtable k rounds (firstPtr xs none) q =
      some (firstPtr (rest hashtable.callbackKeycmp cellKey k xs) none,
        lastPtr q (passed hashtable.callbackKeycmp cellKey k xs)) := by
  induction xs generalizing q rounds with
  | nil =>
    obtain ⟨rounds, rfl⟩ := Nat.exists_eq_succ_of_ne_zero (Nat.ne_of_gt (Nat.zero_lt_of_lt hr))
    rfl
  | cons x xs ih =>
    obtain ⟨rounds, rfl⟩ := Nat.exists_eq_succ_of_ne_zero (Nat.ne_of_gt (Nat.zero_lt_of_lt hr))
    simp only [firstPtr_cons, hashtableSearchPos, hs.1, rest_cons, passed_cons]
    split
    · exact ih hs.2 (Nat.lt_of_succ_lt_succ hr)
    · rfl

/-- The walk in the bucket of the key. -/
theorem WellFormed.searchPos (h : WellFormed hashtable b) (k : K) :
    hashtableSearchPos hashtable k (hashtableRounds hashtable)
        (hashtable.htable (hashtableBucket hashtable k)) none =
      some (firstPtr (rest hashtable.callbackKeycmp cellKey k (b (hashtableBucket hashtable k))) none,
        lastPtr none (passed hashtable.callbackKeycmp cellKey k (b (hashtableBucket hashtable k)))) := by
  rw [h.head]
  exact hashtableSearchPos_ok k (h.linked _) (h.length_lt_rounds (h.bucket_lt k))

/-- The items of a bucket, around the place of a key. -/
theorem WellFormed.split (h : WellFormed hashtable b) (k : K) (i : Nat) :
    Seg hashtable.items none (passed hashtable.callbackKeycmp cellKey k (b i) ++
      rest hashtable.callbackKeycmp cellKey k (b i)) none := by
  rw [passed_append_rest]
  exact h.linked i

/-- The test after the walk succeeds on the item with the key only. -/
theorem WellFormed.itemHasKey (h : WellFormed hashtable b) (k : K) (i : Nat) :
    hashtableItemHasKey hashtable k
        (firstPtr (rest hashtable.callbackKeycmp cellKey k (b i)) none) = true ↔
      ∃ a v ys, rest hashtable.callbackKeycmp cellKey k (b i) = (a, ⟨k, v⟩) :: ys := by
  have hs := (seg_append.mp (h.split k i)).2
  cases hr : rest hashtable.callbackKeycmp cellKey k (b i) with
  | nil => simp [hashtableItemHasKey]
  | cons x ys =>
    obtain ⟨a, ⟨key, v⟩⟩ := x
    rw [hr] at hs
    simp only [hashtableItemHasKey, firstPtr_cons, Option.bind_some, hs.1, decide_eq_true_eq, h.order.eq_iff]
    constructor
    · rintro rfl
      exact ⟨a, v, ys, rfl⟩
    · rintro ⟨a, v, ys, heq⟩
      cases heq
      rfl

/-- Items with the key are neither before the place where the walk stops, nor
after the item there. -/
theorem WellFormed.notMem_passed (h : WellFormed hashtable b) (k : K) (i : Nat) (a : Addr) (v : Option V) :
    (a, ⟨k, v⟩) ∉ passed hashtable.callbackKeycmp cellKey k (b i) := fun ha => by
  have := pos_of_mem_passed ha
  rw [h.order.refl] at this
  cases this

theorem WellFormed.notMem_tail (h : WellFormed hashtable b) {k : K} {i : Nat} {x : Addr × ItemData K V}
    {ys : List (Addr × ItemData K V)} (hr : rest hashtable.callbackKeycmp cellKey k (b i) = x :: ys) (a : Addr)
    (v : Option V) : (a, ⟨k, v⟩) ∉ ys := fun ha => by
  have := neg_of_mem_rest h.order.toCmpPreorder (h.sorted i) hr ha
  rw [h.order.refl] at this
  cases this

/-- An item with the key is the one where the walk stops. -/
theorem WellFormed.mem_iff (h : WellFormed hashtable b) (k : K) (v : Option V) (i : Nat) :
    (∃ a, (a, ⟨k, v⟩) ∈ b i) ↔
      ∃ a ys, rest hashtable.callbackKeycmp cellKey k (b i) = (a, ⟨k, v⟩) :: ys := by
  constructor
  · rintro ⟨a, ha⟩
    rw [← passed_append_rest hashtable.callbackKeycmp cellKey k (b i), List.mem_append] at ha
    rcases ha with ha | ha
    · exact absurd ha (h.notMem_passed k i a v)
    · cases hr : rest hashtable.callbackKeycmp cellKey k (b i) with
      | nil => rw [hr] at ha; cases ha
      | cons x ys =>
        rw [hr, List.mem_cons] at ha
        rcases ha with rfl | ha
        · exact ⟨a, ys, rfl⟩
        · exact absurd ha (h.notMem_tail hr a v)
  · rintro ⟨a, ys, hr⟩
    refine ⟨a, ?_⟩
    rw [← passed_append_rest hashtable.callbackKeycmp cellKey k (b i), hr]
    simp

/-! ## The operations on one bucket -/

/-- The item of the key, or NULL when no item has it. -/
theorem WellFormed.getItem (h : WellFormed hashtable b) (k : K) :
    (∃ a v ys, rest hashtable.callbackKeycmp cellKey k (b (hashtableBucket hashtable k)) =
        (a, ⟨k, v⟩) :: ys ∧
      hashtableGetItem hashtable k = some (some a, hashtableBucket hashtable k)) ∨
    ((∀ v a, (a, ⟨k, v⟩) ∉ b (hashtableBucket hashtable k)) ∧
      hashtableGetItem hashtable k = some (none, hashtableBucket hashtable k)) := by
  have hkey := h.itemHasKey k (hashtableBucket hashtable k)
  simp only [hashtableGetItem, h.searchPos, Option.bind_eq_bind, Option.bind_some]
  split
  · rename_i hitem
    obtain ⟨a, v, ys, hr⟩ := hkey.mp hitem
    exact .inl ⟨a, v, ys, hr, by rw [hr]; rfl⟩
  · rename_i hitem
    refine .inr ⟨fun v a ha => hitem (hkey.mpr ?_), rfl⟩
    obtain ⟨a, ys, hr⟩ := (h.mem_iff k v _).mp ⟨a, ha⟩
    exact ⟨a, v, ys, hr⟩

/-- The parts of a table that no operation changes. -/
structure SameKind (hashtable hashtable' : Hashtable K V) : Prop where
  typeValues : hashtable'.typeValues = hashtable.typeValues
  size : hashtable'.size = hashtable.size
  hashKey : hashtable'.callbackHashKey = hashtable.callbackHashKey
  keycmp : hashtable'.callbackKeycmp = hashtable.callbackKeycmp

theorem SameKind.refl (hashtable : Hashtable K V) : SameKind hashtable hashtable := ⟨rfl, rfl, rfl, rfl⟩

theorem SameKind.trans {h1 h2 h3 : Hashtable K V} (h12 : SameKind h1 h2) (h23 : SameKind h2 h3) :
    SameKind h1 h3 :=
  ⟨h23.typeValues.trans h12.typeValues, h23.size.trans h12.size, h23.hashKey.trans h12.hashKey,
    h23.keycmp.trans h12.keycmp⟩

theorem SameKind.bucket {hashtable' : Hashtable K V} (h : SameKind hashtable hashtable') :
    hashtableBucket hashtable' = hashtableBucket hashtable := by
  funext k
  rw [hashtableBucket, hashtableBucket, h.size, h.hashKey]

/-- The key of `hashtable_set` is in its bucket: the value is replaced. -/
theorem WellFormed.setValue (h : WellFormed hashtable b) {k : K} {v v' : Option V} {a : Addr}
    {xs ys : List (Addr × ItemData K V)}
    (hb : b (hashtableBucket hashtable k) = xs ++ (a, ⟨k, v⟩) :: ys) :
    WellFormed { hashtable with items := hashtable.items.modify a fun n => { n with data.value := v' } }
      (Function.update b (hashtableBucket hashtable k) (xs ++ (a, ⟨k, v'⟩) :: ys)) := by
  have hs := h.linked (hashtableBucket hashtable k)
  have hn := h.nodup (hashtableBucket hashtable k)
  have hsorted := h.sorted (hashtableBucket hashtable k)
  have hhash := h.hashed (hashtableBucket hashtable k)
  rw [hb] at hs hn hsorted hhash
  have hdata : (hashtable.items.modify a fun n => { n with data.value := v' }) =
      hashtable.items.setData a ⟨k, v'⟩ := by
    rw [Heap.setData, Heap.modify, Heap.modify, (seg_append.mp hs).2.1]
    rfl
  have hfirst : firstPtr (xs ++ (a, (⟨k, v'⟩ : ItemData K V)) :: ys) none =
      firstPtr (xs ++ (a, ⟨k, v⟩) :: ys) none := by
    cases xs <;> rfl
  refine h.update (h.bucket_lt k) ?_ ?_ ?_ ?_ ?_ ?_ ?_
  · rw [hfirst, ← hb, ← h.head, Function.update_eq_self]
  · rw [hdata]
    exact hs.setData hn
  · simp only [KeysSorted, List.pairwise_append, List.pairwise_cons, List.mem_cons, forall_eq_or_imp] at hsorted ⊢
    exact hsorted
  · simp only [List.mem_append, List.mem_cons, or_imp, forall_and, forall_eq] at hhash ⊢
    exact hhash
  · rw [hb]
    simp only [List.length_append, List.length_cons]
  · intro c hc
    rw [ne_eq, Heap.modify_eq_none] at hc
    exact h.fresh c hc
  · intro c hc _
    refine Heap.modify_of_ne fun hca => hc ?_
    rw [hb, hca, addrs_append]
    simp

/-- The key of `hashtable_set` is not in its bucket: a new item is linked. -/
theorem WellFormed.addItem (h : WellFormed hashtable b) (k : K) (v : Option V)
    (hk : ∀ v a, (a, ⟨k, v⟩) ∉ b (hashtableBucket hashtable k)) :
    ∃ hashtable', hashtableAddItem hashtable (hashtableBucket hashtable k)
        (lastPtr none (passed hashtable.callbackKeycmp cellKey k (b (hashtableBucket hashtable k)))) k v =
          some (hashtable', hashtable.nextAddr) ∧
      SameKind hashtable hashtable' ∧
      WellFormed hashtable' (Function.update b (hashtableBucket hashtable k)
        (passed hashtable.callbackKeycmp cellKey k (b (hashtableBucket hashtable k)) ++
          (hashtable.nextAddr, ⟨k, v⟩) ::
          rest hashtable.callbackKeycmp cellKey k (b (hashtableBucket hashtable k)))) := by
  have hs := h.split k (hashtableBucket hashtable k)
  have hn := h.nodup (hashtableBucket hashtable k)
  have hhash := h.hashed (hashtableBucket hashtable k)
  have hsorted := (h.sorted (hashtableBucket hashtable k)).insert h.order.toCmpPreorder
    (z := (hashtable.nextAddr, ⟨k, v⟩)) (k := k) rfl fun x ys hr hx => by
      obtain ⟨a, ⟨key, v'⟩⟩ := x
      have hkey : k = key := h.order.eq _ _ hx
      subst hkey
      obtain ⟨a, ha⟩ := (h.mem_iff k v' _).mpr ⟨a, ys, hr⟩
      exact hk v' a ha
  have hb := passed_append_rest hashtable.callbackKeycmp cellKey k (b (hashtableBucket hashtable k))
  have hhead := h.head (hashtableBucket hashtable k)
  rw [← hb] at hn hhash hhead
  generalize passed hashtable.callbackKeycmp cellKey k (b (hashtableBucket hashtable k)) = xs at *
  generalize rest hashtable.callbackKeycmp cellKey k (b (hashtableBucket hashtable k)) = ys at *
  have hnew : ∀ c ∈ addrs (xs ++ ys), c < hashtable.nextAddr := fun c hc => h.fresh c (hs.allocated hc)
  have hnew' : hashtable.nextAddr ∉ addrs (xs ++ ys) := fun hc => Nat.lt_irrefl _ (hnew _ hc)
  have hnext : hashtableNextItem hashtable (hashtableBucket hashtable k) (lastPtr none xs) =
      some (firstPtr ys none) := by
    by_cases hx : xs = []
    · subst hx
      exact congrArg some hhead
    · obtain ⟨p, n, hp, hpn, hpm⟩ := (seg_append.mp hs).1.last_next hx
      simp only [hp, hashtableNextItem, hpn, Option.map_some, hpm]
  refine ⟨{ hashtable with
      htable := if (lastPtr none xs).isSome then hashtable.htable
        else Function.update hashtable.htable (hashtableBucket hashtable k) (some hashtable.nextAddr)
      items := ((hashtable.items.store hashtable.nextAddr ⟨⟨k, v⟩, lastPtr none xs, firstPtr ys none⟩).setPrev
        (firstPtr ys none) (some hashtable.nextAddr)).setNext (lastPtr none xs) (some hashtable.nextAddr)
      itemsCount := hashtable.itemsCount + 1
      nextAddr := hashtable.nextAddr + 1 }, ?_, ⟨rfl, rfl, rfl, rfl⟩, ?_⟩
  · simp only [hashtableAddItem, hnext, Option.bind_eq_bind, Option.bind_some]
  refine h.update (h.bucket_lt k) ?_ (hs.insert hn hnew' _) hsorted ?_ ?_ ?_ ?_
  · cases xs with
    | nil => rfl
    | cons x xs =>
      obtain ⟨p, n, hp, -⟩ := (seg_append.mp hs).1.last_next (List.cons_ne_nil x xs)
      rw [hp]
      exact (Function.update_eq_self_iff.mpr hhead.symm).symm
  · simp only [List.mem_append, List.mem_cons, or_imp, forall_and, forall_eq] at hhash ⊢
    exact ⟨hhash.1, trivial, hhash.2⟩
  · rw [← hb]
    simp only [List.length_append, List.length_cons]
    omega
  · intro c hc
    rw [ne_eq, Heap.setNext_eq_none, Heap.setPrev_eq_none] at hc
    by_cases hcn : c = hashtable.nextAddr
    · rw [hcn]
      exact Nat.lt_succ_self _
    · rw [Heap.store_of_ne hcn] at hc
      exact Nat.lt_succ_of_lt (h.fresh c hc)
  · intro c hc hcn
    rw [← hb] at hc
    exact insert_of_notMem hc (Nat.ne_of_lt (h.fresh c hcn)) _

/-- An item is taken out of its bucket. -/
theorem WellFormed.removeItem (h : WellFormed hashtable b) {i : Nat} (hi : i < hashtable.size) {a : Addr}
    {d : ItemData K V} {xs ys : List (Addr × ItemData K V)} (hb : b i = xs ++ (a, d) :: ys) :
    ∃ hashtable', hashtableRemoveItem hashtable a i = some hashtable' ∧
      SameKind hashtable hashtable' ∧
      WellFormed hashtable' (Function.update b i (xs ++ ys)) := by
  have hs := h.linked i
  have hn := h.nodup i
  have hsorted := h.sorted i
  have hhash := h.hashed i
  have hhead := h.head i
  rw [hb] at hs hn hsorted hhash hhead
  have hnode := (seg_append.mp hs).2.1
  refine ⟨{ hashtable with
      htable := if hashtable.htable i = some a then Function.update hashtable.htable i (firstPtr ys none)
        else hashtable.htable
      items := ((hashtable.items.setNext (lastPtr none xs) (firstPtr ys none)).setPrev (firstPtr ys none)
        (lastPtr none xs)).free a
      itemsCount := hashtable.itemsCount - 1 }, ?_, ⟨rfl, rfl, rfl, rfl⟩, ?_⟩
  · simp only [hashtableRemoveItem, hnode, Option.bind_eq_bind, Option.bind_some]
  refine h.update hi ?_ (hs.unlink hn) ?_ ?_ ?_ ?_ ?_
  · cases xs with
    | nil =>
      exact if_pos hhead
    | cons x xs =>
      have hxa : x.1 ≠ a := by
        rw [List.cons_append] at hn
        have := (List.nodup_cons.mp hn).1
        rintro rfl
        exact this (by simp)
      rw [if_neg (by rw [hhead]; simpa using hxa)]
      exact (Function.update_eq_self_iff.mpr hhead.symm).symm
  · exact List.Pairwise.sublist (List.Sublist.append_left (List.sublist_cons_self ..) xs) hsorted
  · simp only [List.mem_append, List.mem_cons, or_imp, forall_and] at hhash ⊢
    exact ⟨hhash.1, hhash.2.2⟩
  · rw [hb]
    simp only [List.length_append, List.length_cons]
    omega
  · intro c hc
    by_cases hca : c = a
    · subst hca
      exact absurd (Function.update_self ..) hc
    · rw [Heap.free_of_ne hca, ne_eq, Heap.setPrev_eq_none, Heap.setNext_eq_none] at hc
      exact h.fresh c hc
  · intro c hc _
    rw [hb] at hc
    exact unlink_of_notMem hc

/-- All items of a bucket are removed. -/
theorem WellFormed.removeBucket {i rounds : Nat} (h : WellFormed hashtable b) (hi : i < hashtable.size)
    (hr : (b i).length < rounds) :
    ∃ hashtable', hashtableRemoveBucket i rounds hashtable = some hashtable' ∧
      SameKind hashtable hashtable' ∧ WellFormed hashtable' (Function.update b i []) := by
  induction rounds generalizing hashtable b with
  | zero => exact absurd hr (Nat.not_lt_zero _)
  | succ rounds ih =>
    have hhead := h.head i
    cases hb : b i with
    | nil =>
      rw [hb, firstPtr_nil] at hhead
      refine ⟨hashtable, by rw [hashtableRemoveBucket, hhead], .refl _, ?_⟩
      rw [← hb, Function.update_eq_self]
      exact h
    | cons x ys =>
      rw [hb, firstPtr_cons] at hhead
      have hb' : b i = [] ++ x :: ys := hb
      obtain ⟨h1, hrem, hkind, hwf⟩ := h.removeItem hi hb'
      obtain ⟨h2, hrest, hkind2, hwf2⟩ := ih hwf (by rw [hkind.size]; exact hi) (by
        rw [hb, List.length_cons] at hr
        rw [Function.update_self, List.nil_append]
        exact Nat.lt_of_succ_lt_succ hr)
      refine ⟨h2, ?_, hkind.trans hkind2, ?_⟩
      · rw [hashtableRemoveBucket, hhead]
        simp only [hrem, Option.bind_eq_bind, Option.bind_some, hrest]
      · rwa [Function.update_idem] at hwf2

theorem WellFormed.removeBuckets (l : List Nat) (h : WellFormed hashtable b)
    (hl : ∀ i ∈ l, i < hashtable.size) :
    ∃ hashtable', l.foldlM (fun hashtable i =>
        hashtableRemoveBucket i (hashtableRounds hashtable) hashtable) hashtable = some hashtable' ∧
      SameKind hashtable hashtable' ∧ ∃ b', WellFormed hashtable' b' ∧
        (∀ i ∈ l, b' i = []) ∧ ∀ i, b i = [] → b' i = [] := by
  induction l generalizing hashtable b with
  | nil => exact ⟨hashtable, rfl, .refl _, b, h, by simp, fun _ => id⟩
  | cons i l ih =>
    have hi := hl i (List.mem_cons_self ..)
    obtain ⟨h1, hrem, hkind, hwf⟩ := h.removeBucket hi (h.length_lt_rounds hi)
    obtain ⟨h2, hrest, hkind2, b', hwf2, hempty, hkeep⟩ := ih hwf fun j hj => by
      rw [hkind.size]
      exact hl j (List.mem_cons_of_mem _ hj)
    have hi' : b' i = [] := hkeep i (Function.update_self ..)
    refine ⟨h2, ?_, hkind.trans hkind2, b', hwf2, ?_, fun j hj => hkeep j ?_⟩
    · rw [List.foldlM_cons, hrem]
      exact hrest
    · rintro j (_ | ⟨_, hj⟩)
      · exact hi'
      · exact hempty j hj
    · by_cases hji : j = i
      · rw [hji, Function.update_self]
      · rw [Function.update_of_ne hji, hj]

/-! ## The finite map -/

/-- One key of the map is changed to `o`, with its bucket. -/
theorem Contents.update [DecidableEq K] {bucket : K → Nat} {m : K → Option (Option V)}
    (hm : Contents bucket b m) (k : K) {o : Option (Option V)} {L : List (Addr × ItemData K V)}
    (hself : ∀ v, o = some v ↔ ∃ a, (a, ⟨k, v⟩) ∈ L)
    (hother : ∀ a k' v, k' ≠ k → ((a, ⟨k', v⟩) ∈ L ↔ (a, ⟨k', v⟩) ∈ b (bucket k))) :
    Contents bucket (Function.update b (bucket k) L) (Function.update m k o) := by
  intro k' v
  by_cases hk : k' = k
  · subst hk
    rw [Function.update_self, Function.update_self]
    exact hself v
  · rw [Function.update_of_ne hk, hm k' v]
    by_cases hb : bucket k' = bucket k
    · rw [hb, Function.update_self]
      simp only [hother _ _ _ hk]
    · rw [Function.update_of_ne hb]

section

variable {m : K → Option (Option V)}

theorem Refines.get (h : Refines hashtable m) (k : K) : hashtableGet hashtable k = some (m k).join := by
  obtain ⟨b, hwf, hm⟩ := h
  rcases hwf.getItem k with ⟨a, v, ys, hr, hget⟩ | ⟨hnone, hget⟩
  · have hv : m k = some v := (hm k v).mpr ((hwf.mem_iff k v _).mpr ⟨a, ys, hr⟩)
    have hs := (seg_append.mp (hwf.split k (hashtableBucket hashtable k))).2
    rw [hr] at hs
    simp [hashtableGet, hget, hv, hs.1]
  · have hv : m k = none := Option.eq_none_iff_forall_not_mem.mpr fun v hv => by
      obtain ⟨a, ha⟩ := (hm k v).mp hv
      exact hnone v a ha
    simp [hashtableGet, hget, hv]

theorem Refines.hasKey (h : Refines hashtable m) (k : K) :
    hashtableHasKey hashtable k = some (m k).isSome := by
  obtain ⟨b, hwf, hm⟩ := h
  rcases hwf.getItem k with ⟨a, v, ys, hr, hget⟩ | ⟨hnone, hget⟩
  · have hv : m k = some v := (hm k v).mpr ((hwf.mem_iff k v _).mpr ⟨a, ys, hr⟩)
    simp [hashtableHasKey, hget, hv]
  · have hv : m k = none := Option.eq_none_iff_forall_not_mem.mpr fun v hv => by
      obtain ⟨a, ha⟩ := (hm k v).mp hv
      exact hnone v a ha
    simp [hashtableHasKey, hget, hv]

variable [DecidableEq K]

/-- With values of type buffer, `hashtable_set` sets nothing. -/
theorem Refines.set (h : Refines hashtable m) (k : K) (v : Option V) :
    ∃ hashtable' item, hashtableSet hashtable k v = some (hashtable', item) ∧
      SameKind hashtable hashtable' ∧
      Refines hashtable' (if hashtable.typeValues = .buffer then m else Function.update m k (some v)) := by
  obtain ⟨b, hwf, hm⟩ := h
  by_cases hbuffer : hashtable.typeValues = .buffer
  · refine ⟨hashtable, none, ?_, .refl _, ?_⟩
    · simp [hashtableSet, hashtableSetWithSize, hbuffer]
    · rw [if_pos hbuffer]
      exact ⟨b, hwf, hm⟩
  · rw [if_neg hbuffer]
    have hkey := hwf.itemHasKey k (hashtableBucket hashtable k)
    have hsplit := passed_append_rest hashtable.callbackKeycmp cellKey k (b (hashtableBucket hashtable k))
    by_cases hitem : hashtableItemHasKey hashtable k
        (firstPtr (rest hashtable.callbackKeycmp cellKey k (b (hashtableBucket hashtable k))) none) = true
    · obtain ⟨a, v0, ys, hr⟩ := hkey.mp hitem
      have hpassed := hwf.notMem_passed k (hashtableBucket hashtable k)
      have htail := hwf.notMem_tail hr
      rw [hr, firstPtr_cons] at hitem
      rw [hr] at hsplit
      refine ⟨{ hashtable with items := hashtable.items.modify a fun n => { n with data.value := v } }, some a,
        ?_, ⟨rfl, rfl, rfl, rfl⟩, _, hwf.setValue hsplit.symm, ?_⟩
      · simp only [hashtableSet, hashtableSetWithSize, hbuffer, hwf.typeKeys, false_and, or_self, if_false,
          hwf.searchPos, hr, firstPtr_cons, hitem, if_true, Option.bind_eq_bind, Option.bind_some]
      · refine hm.update k (fun v' => ?_) fun a' k' v' hk' => ?_
        · simp [hpassed, htail, eq_comm]
        · conv_rhs => rw [← hsplit]
          simp [hk']
    · have hnone : ∀ v a, (a, ⟨k, v⟩) ∉ b (hashtableBucket hashtable k) := fun v a ha => by
        obtain ⟨a, ys, hr⟩ := (hwf.mem_iff k v _).mp ⟨a, ha⟩
        exact hitem (hkey.mpr ⟨a, v, ys, hr⟩)
      obtain ⟨h1, hadd, hkind, hwf1⟩ := hwf.addItem k v hnone
      refine ⟨h1, some hashtable.nextAddr, ?_, hkind, _, hwf1, ?_⟩
      · simp only [hashtableSet, hashtableSetWithSize, hbuffer, hwf.typeKeys, false_and, or_self, if_false,
          hwf.searchPos, Option.bind_eq_bind, Option.bind_some]
        cases hf : firstPtr (rest hashtable.callbackKeycmp cellKey k (b (hashtableBucket hashtable k))) none with
        | none => simp only [hadd, Option.bind_some]
        | some item =>
          rw [hf] at hitem
          simp only [hitem, hadd, Option.bind_some, if_false, Bool.false_eq_true]
      · rw [hkind.bucket]
        refine hm.update k (fun v' => ?_) fun a' k' v' hk' => ?_
        · have hrest : ∀ a v, (a, ⟨k, v⟩) ∉
              rest hashtable.callbackKeycmp cellKey k (b (hashtableBucket hashtable k)) := fun a v ha =>
            hnone v a (hsplit ▸ List.mem_append_right _ ha)
          simp [hwf.notMem_passed, hrest, eq_comm]
        · conv_rhs => rw [← hsplit]
          simp [hk']

/-- The item of a key is taken out of its bucket, and the key out of the map. -/
theorem WellFormed.removeKey (hwf : WellFormed hashtable b) (hm : Contents (hashtableBucket hashtable) b m) {k : K}
    {v : Option V} {a : Addr} {ys : List (Addr × ItemData K V)}
    (hr : rest hashtable.callbackKeycmp cellKey k (b (hashtableBucket hashtable k)) = (a, ⟨k, v⟩) :: ys) :
    let bucket := passed hashtable.callbackKeycmp cellKey k (b (hashtableBucket hashtable k)) ++ ys
    ∃ hashtable', hashtableRemoveItem hashtable a (hashtableBucket hashtable k) = some hashtable' ∧
      SameKind hashtable hashtable' ∧ WellFormed hashtable' (Function.update b (hashtableBucket hashtable k) bucket) ∧
      Contents (hashtableBucket hashtable') (Function.update b (hashtableBucket hashtable k) bucket)
        (Function.update m k none) := by
  have hsplit := passed_append_rest hashtable.callbackKeycmp cellKey k (b (hashtableBucket hashtable k))
  rw [hr] at hsplit
  obtain ⟨hashtable', hremove, hkind, hwf'⟩ := hwf.removeItem (hwf.bucket_lt k) hsplit.symm
  refine ⟨hashtable', hremove, hkind, hwf', ?_⟩
  rw [hkind.bucket]
  refine hm.update k (fun v => ?_) fun a' k' v' hk' => ?_
  · simp [hwf.notMem_passed, hwf.notMem_tail hr]
  · conv_rhs => rw [← hsplit]
    simp [hk']

theorem Refines.remove (h : Refines hashtable m) (k : K) :
    ∃ hashtable', hashtableRemove hashtable k = some hashtable' ∧ SameKind hashtable hashtable' ∧
      Refines hashtable' (Function.update m k none) := by
  obtain ⟨b, hwf, hm⟩ := h
  rcases hwf.getItem k with ⟨a, v, ys, hr, hget⟩ | ⟨hnone, hget⟩
  · obtain ⟨h1, hrem, hkind, hwf1, hm1⟩ := hwf.removeKey hm hr
    refine ⟨h1, ?_, hkind, _, hwf1, hm1⟩
    simp only [hashtableRemove, hget, Option.bind_eq_bind, Option.bind_some, hrem]
  · refine ⟨hashtable, ?_, .refl _, b, hwf, fun k' v => ?_⟩
    · simp only [hashtableRemove, hget, Option.bind_eq_bind, Option.bind_some]
    · by_cases hk : k' = k
      · subst hk
        rw [Function.update_self]
        exact ⟨fun h0 => (nomatch h0), fun ⟨a, ha⟩ => absurd ha (hnone v a)⟩
      · rw [Function.update_of_ne hk]
        exact hm k' v

omit [DecidableEq K] in
theorem Refines.removeAll (h : Refines hashtable m) :
    ∃ hashtable', hashtableRemoveAll hashtable = some hashtable' ∧ SameKind hashtable hashtable' ∧
      Refines hashtable' fun _ => none := by
  obtain ⟨b, hwf, -⟩ := h
  obtain ⟨h1, hrem, hkind, b1, hwf1, hempty, -⟩ := hwf.removeBuckets (List.range hashtable.size) (by simp)
  refine ⟨h1, hrem, hkind, b1, hwf1, fun k v => ⟨fun h0 => (nomatch h0), fun ⟨a, ha⟩ => ?_⟩⟩
  have hi := hwf1.bucket_lt k
  rw [hkind.size] at hi
  rw [hempty _ (List.mem_range.mpr hi)] at ha
  cases ha

end

end

/-! ## All items -/

section

variable {K V : Type} {hashtable : Hashtable K V} {b : Nat → List (Addr × ItemData K V)} {m : K → Option (Option V)}

/-- A loop on `next_item` goes through the bucket. -/
theorem hashtableBucketItems_ok {xs : List (Addr × ItemData K V)} {q : Option Addr} {rounds : Nat}
    (hs : Seg hashtable.items q xs none) (hr : xs.length < rounds) :
    hashtableBucketItems hashtable rounds (firstPtr xs none) = some (xs.map Prod.snd) := by
  induction xs generalizing q rounds with
  | nil =>
    obtain ⟨rounds, rfl⟩ := Nat.exists_eq_succ_of_ne_zero (Nat.ne_of_gt (Nat.zero_lt_of_lt hr))
    rfl
  | cons x xs ih =>
    obtain ⟨rounds, rfl⟩ := Nat.exists_eq_succ_of_ne_zero (Nat.ne_of_gt (Nat.zero_lt_of_lt hr))
    rw [firstPtr_cons, Nat.succ_eq_add_one, hashtableBucketItems, hs.1]
    simp only [Option.bind_eq_bind, Option.bind_some, ih hs.2 (Nat.lt_of_succ_lt_succ hr), List.map_cons]

theorem WellFormed.walk (h : WellFormed hashtable b) :
    hashtableWalk hashtable = some ((List.range hashtable.size).map fun i => (b i).map Prod.snd).flatten := by
  have hbuckets : (List.range hashtable.size).mapM (fun i =>
      hashtableBucketItems hashtable (hashtableRounds hashtable) (hashtable.htable i)) =
      some ((List.range hashtable.size).map fun i => (b i).map Prod.snd) :=
    mapM_some fun i hi => by
      rw [h.head]
      exact hashtableBucketItems_ok (h.linked i) (h.length_lt_rounds (List.mem_range.mp hi))
  rw [hashtableWalk, hbuckets]
  rfl

/-- The loops on a table go through the items of the map, each once. -/
theorem Refines.walk (h : Refines hashtable m) :
    ∃ items, hashtableWalk hashtable = some items ∧ (∀ k v, m k = some v ↔ ⟨k, v⟩ ∈ items) ∧
      items.Pairwise (fun d d' => d.key ≠ d'.key) ∧ items.length = hashtable.itemsCount.toNat := by
  obtain ⟨b, hwf, hm⟩ := h
  refine ⟨_, hwf.walk, fun k v => ?_, ?_, ?_⟩
  · rw [hm k v, List.mem_flatten]
    constructor
    · rintro ⟨a, ha⟩
      have hi := List.mem_range.mpr (hwf.bucket_lt k)
      exact ⟨_, List.mem_map_of_mem hi, List.mem_map_of_mem (f := Prod.snd) ha⟩
    · rintro ⟨l, hl, hkv⟩
      obtain ⟨i, -, rfl⟩ := List.mem_map.mp hl
      obtain ⟨⟨a, d⟩, ha, rfl⟩ := List.mem_map.mp hkv
      have hhash := hwf.hashed i _ ha
      exact ⟨a, by rwa [← hhash] at ha⟩
  · refine List.pairwise_flatten.mpr ⟨fun l hl => ?_, ?_⟩
    · obtain ⟨i, -, rfl⟩ := List.mem_map.mp hl
      refine List.pairwise_map.mpr ((hwf.sorted i).imp fun {x y} hlt heq => ?_)
      rw [cellKey, cellKey, heq, hwf.order.refl] at hlt
      exact absurd hlt (Int.lt_irrefl 0)
    · refine List.pairwise_map.mpr (List.nodup_range.imp fun {i j} hij d hd d' hd' heq => hij ?_)
      obtain ⟨x, hx, rfl⟩ := List.mem_map.mp hd
      obtain ⟨y, hy, rfl⟩ := List.mem_map.mp hd'
      have hsame := congrArg (hashtableBucket hashtable) heq
      exact (hwf.hashed i x hx).symm.trans (hsame.trans (hwf.hashed j y hy))
  · rw [hwf.count, Int.toNat_natCast, List.length_flatten, List.map_map]
    simp only [Function.comp_def, List.length_map]
    rfl

end

/-! ## The default callbacks -/

theorem strcmp_flip (s t : Str) : strcmp t s = -strcmp s t := by
  induction s generalizing t with
  | nil => cases t <;> rfl
  | cons a s ih =>
    cases t with
    | nil => rfl
    | cons b t =>
      simp only [strcmp, ih t]
      by_cases hab : a = b
      · simp [hab]
      · have hlt : a < b ↔ ¬ b < a := by
          rw [UInt8.lt_iff_toNat_lt, UInt8.lt_iff_toNat_lt]
          have : a.toNat ≠ b.toNat := fun h => hab (UInt8.toNat_inj.mp h)
          omega
        by_cases hba : b < a
        · simp [hab, Ne.symm hab, hlt, hba]
        · simp [hab, Ne.symm hab, hlt, hba]

theorem strcmp_order : CmpOrder strcmp where
  flip s t := by
    have := strcmp_flip s t
    omega
  trans s t u := by
    induction s generalizing t u with
    | nil => cases u <;> simp [strcmp]
    | cons a s ih =>
      intro hst htu
      cases t with
      | nil => simp [strcmp] at hst
      | cons b t =>
        cases u with
        | nil => simp [strcmp] at htu
        | cons c u =>
          simp only [strcmp, UInt8.lt_iff_toNat_lt] at hst htu ⊢
          have := ih t u
          grind [UInt8.toNat_inj]
  eq s t := by
    induction s generalizing t with
    | nil => cases t <;> simp [strcmp]
    | cons a s ih =>
      intro h
      cases t with
      | nil => simp [strcmp] at h
      | cons b t =>
        simp only [strcmp] at h
        split at h
        · rename_i hab
          rw [hab, ih t h]
        · split at h <;> cases h

theorem hashtableKeycmpDefaultCb_order {typeKeys : HashtableType} (h : typeKeys ≠ .buffer) :
    CmpOrder (hashtableKeycmpDefaultCb typeKeys) := by
  cases typeKeys with
  | integer => exact .of_int Int32.toInt fun _ _ => Int32.toInt_inj.mp
  | string => exact strcmp_order
  | pointer =>
    have := CmpOrder.of_int (fun a : UInt64 => (a.toNat : Int)) fun _ _ hab =>
      UInt64.toNat_inj.mp (Int.ofNat_inj.mp hab)
    simp only [Int.ofNat_lt, gt_iff_lt] at this
    exact this
  | buffer => exact absurd rfl h
  | time => exact .of_int Int64.toInt fun _ _ => Int64.toInt_inj.mp

/-! ## Runs -/

section

variable {K V : Type}

/-- The call on the finite map. Values of type buffer are not set by
`hashtable_set`. -/
def HashtableOp.apply [DecidableEq K] (typeValues : HashtableType) (m : K → Option (Option V)) :
    HashtableOp K V → K → Option (Option V)
  | .set key value => if typeValues = .buffer then m else Function.update m key (some value)
  | .remove key => Function.update m key none
  | .removeAll => fun _ => none

variable [DecidableEq K] {hashtable : Hashtable K V} {m : K → Option (Option V)}

theorem Refines.step (h : Refines hashtable m) (op : HashtableOp K V) :
    ∃ hashtable', op.run hashtable = some hashtable' ∧ SameKind hashtable hashtable' ∧
      Refines hashtable' (op.apply hashtable.typeValues m) := by
  cases op with
  | set key value =>
    obtain ⟨h1, item, hset, hkind, href⟩ := h.set key value
    exact ⟨h1, by rw [HashtableOp.run, hset]; rfl, hkind, href⟩
  | remove key => exact h.remove key
  | removeAll => exact h.removeAll

theorem Refines.run (h : Refines hashtable m) (ops : List (HashtableOp K V)) :
    ∃ hashtable', ops.foldlM HashtableOp.run hashtable = some hashtable' ∧ SameKind hashtable hashtable' ∧
      Refines hashtable' (ops.foldl (HashtableOp.apply hashtable.typeValues) m) := by
  induction ops generalizing hashtable m with
  | nil => exact ⟨hashtable, rfl, .refl _, h⟩
  | cons op ops ih =>
    obtain ⟨h1, hrun, hkind, href⟩ := h.step op
    obtain ⟨h2, hruns, hkind2, href2⟩ := ih href
    refine ⟨h2, ?_, hkind.trans hkind2, ?_⟩
    · rw [List.foldlM_cons, hrun]
      exact hruns
    · rwa [hkind.typeValues] at href2

end

/-- A new table is empty. -/
theorem hashtableNew_refines (V : Type) {size : Int} (hsize : 0 < size) {typeKeys : HashtableType}
    (hkeys : typeKeys ≠ .buffer) (typeValues : HashtableType) :
    ∃ hashtable, hashtableNew size typeKeys typeValues V = some hashtable ∧
      hashtable.size = size ∧ hashtable.typeValues = typeValues ∧
      hashtable.callbackHashKey = hashtableHashKeyDefaultCb typeKeys ∧
      hashtable.callbackKeycmp = hashtableKeycmpDefaultCb typeKeys ∧ Refines hashtable fun _ => none := by
  refine ⟨_, by rw [hashtableNew, if_neg (by omega), if_neg hkeys], ?_, rfl, rfl, rfl, fun _ => [], ?_, ?_⟩
  · simp only
    omega
  · refine ⟨hashtableKeycmpDefaultCb_order hkeys, hkeys, ?_, fun _ => rfl, fun _ => trivial,
      fun _ => List.Pairwise.nil, fun _ _ hx => (nomatch hx), ?_, fun _ hx => absurd rfl hx⟩
    · simp only
      omega
    · simp
  · intro k v
    simp

/-- After any calls on a new table, its buckets are sorted, linked and counted,
and it answers as the finite map on which the same calls are made. -/
theorem hashtable_refines_map (typeKeys typeValues : HashtableType) (V : Type) {size : Int}
    (hsize : 0 < size) (hkeys : typeKeys ≠ .buffer) (ops : List (HashtableOp (HashtableKey typeKeys) V)) :
    ∃ hashtable0 hashtable b, hashtableNew size typeKeys typeValues V = some hashtable0 ∧
      ops.foldlM HashtableOp.run hashtable0 = some hashtable ∧
      hashtable.size = size ∧
      hashtable.callbackHashKey = hashtableHashKeyDefaultCb typeKeys ∧
      hashtable.callbackKeycmp = hashtableKeycmpDefaultCb typeKeys ∧
      WellFormed hashtable b ∧
      ∀ key,
        hashtableGet hashtable key =
          some (ops.foldl (HashtableOp.apply typeValues) (fun _ => none) key).join ∧
        hashtableHasKey hashtable key =
          some (ops.foldl (HashtableOp.apply typeValues) (fun _ => none) key).isSome := by
  obtain ⟨h0, hnew, hsize0, htype, hhash, hcmp, href⟩ := hashtableNew_refines V hsize hkeys typeValues
  obtain ⟨h1, hrun, hkind, href1⟩ := href.run ops
  rw [htype] at href1
  obtain ⟨b, hwf, -⟩ := id href1
  exact ⟨h0, h1, b, hnew, hrun, by rw [hkind.size, hsize0], hkind.hashKey.trans hhash, hkind.keycmp.trans hcmp, hwf,
    fun key => ⟨href1.get key, href1.hasKey key⟩⟩

theorem hashtable_refines_map_strings :
    ∃ hashtable0 hashtable b, hashtableNew 1 .string .integer Nat = some hashtable0 ∧
      [HashtableOp.set (lit "b") (some 1), .set (lit "a") (some 2), .set (lit "b") (some 3),
        .remove (lit "a")].foldlM HashtableOp.run hashtable0 = some hashtable ∧
      WellFormed hashtable b ∧
      hashtableGet hashtable (lit "a") = some none ∧ hashtableGet hashtable (lit "b") = some (some 3) := by
  obtain ⟨hashtable0, hashtable, b, hnew, hrun, -, -, -, hwf, hget⟩ :=
    hashtable_refines_map .string .integer Nat (by decide : (0 : Int) < 1) (by decide)
      [.set (lit "b") (some 1), .set (lit "a") (some 2), .set (lit "b") (some 3), .remove (lit "a")]
  exact ⟨hashtable0, hashtable, b, hnew, hrun, hwf, (hget _).1.trans (by decide), (hget _).1.trans (by decide)⟩

end Wirc

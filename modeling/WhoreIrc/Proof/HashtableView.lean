import WhoreIrc.Proof.Hashtable

/-!
# Hashtables: keys behind pointers

A table whose callbacks look at something else than the key itself (the string
that it points to) is seen as a table of these: `Hashtable.view` puts other data
in the items, in the same places. The view is searched and changed as the table
is (`view_getItem`, `view_addItem`, `view_removeItem`), so that the table does
what is proved of its view.

`HoldsMap` is the refinement of a finite map by a table that has no other items
than those in its buckets.
-/

namespace Wirc

open Framework

/-! ## The view -/

section View

variable {K V K' V' : Type}

/-- The table with other data in its items, and callbacks for their keys. -/
def Hashtable.view (g : ItemData K V → ItemData K' V') (hash : K' → UInt64) (cmp : K' → K' → Int)
    (hashtable : Hashtable K V) : Hashtable K' V' :=
  { size := hashtable.size
    htable := hashtable.htable
    itemsCount := hashtable.itemsCount
    typeKeys := hashtable.typeKeys
    typeValues := hashtable.typeValues
    callbackHashKey := hash
    callbackKeycmp := cmp
    items := Heap.mapData g hashtable.items
    nextAddr := hashtable.nextAddr }

/-- The callbacks of the table look at the keys through `f`, which gives the
keys of the view. -/
structure Looks (f : K → K') (g : ItemData K V → ItemData K' V') (hash : K' → UInt64) (cmp : K' → K' → Int)
    (hashtable : Hashtable K V) : Prop where
  key : ∀ d, (g d).key = f d.key
  hash : ∀ k, hashtable.callbackHashKey k = hash (f k)
  cmp : ∀ k k', hashtable.callbackKeycmp k k' = cmp (f k) (f k')

variable {f : K → K'} {g : ItemData K V → ItemData K' V'} {hash : K' → UInt64} {cmp : K' → K' → Int}
  {hashtable : Hashtable K V}

theorem view_bucket (h : Looks f g hash cmp hashtable) (k : K) :
    hashtableBucket (hashtable.view g hash cmp) (f k) = hashtableBucket hashtable k := by
  rw [hashtableBucket, hashtableBucket, h.hash]
  rfl

theorem view_searchPos (h : Looks f g hash cmp hashtable) (k : K) (rounds : Nat) (ptrItem posItem : Option Addr) :
    hashtableSearchPos (hashtable.view g hash cmp) (f k) rounds ptrItem posItem =
      hashtableSearchPos hashtable k rounds ptrItem posItem := by
  induction rounds generalizing ptrItem posItem with
  | zero => rfl
  | succ rounds ih =>
    cases ptrItem with
    | none => rfl
    | some item =>
      cases hn : hashtable.items item with
      | none => simp [hashtableSearchPos, Hashtable.view, Heap.mapData, hn]
      | some n =>
        have hview : (hashtable.view g hash cmp).items item = some ⟨g n.data, n.prev, n.next⟩ := by
          simp [Hashtable.view, Heap.mapData, hn]
        have hcmp : (hashtable.view g hash cmp).callbackKeycmp (f k) (g n.data).key =
            hashtable.callbackKeycmp k n.data.key := by
          rw [h.key, h.cmp]
          rfl
        simp only [hashtableSearchPos, hn, hview, hcmp, ih]

theorem view_itemHasKey (h : Looks f g hash cmp hashtable) (k : K) (ptrItem : Option Addr) :
    hashtableItemHasKey (hashtable.view g hash cmp) (f k) ptrItem = hashtableItemHasKey hashtable k ptrItem := by
  cases ptrItem with
  | none => rfl
  | some item =>
    cases hn : hashtable.items item with
    | none => simp [hashtableItemHasKey, Hashtable.view, Heap.mapData, hn]
    | some n => simp [hashtableItemHasKey, Hashtable.view, Heap.mapData, hn, h.key, h.cmp]

theorem view_getItem (h : Looks f g hash cmp hashtable) (k : K) :
    hashtableGetItem (hashtable.view g hash cmp) (f k) = hashtableGetItem hashtable k := by
  have hsearch := view_searchPos h k
  simp only [hashtableGetItem, view_bucket h, hashtableRounds]
  rw [show (hashtable.view g hash cmp).itemsCount = hashtable.itemsCount from rfl,
    show (hashtable.view g hash cmp).htable = hashtable.htable from rfl, hsearch]
  refine Option.bind_congr fun r _ => ?_
  rw [view_itemHasKey h]

theorem view_addItem (g : ItemData K V → ItemData K' V') (hash : K' → UInt64) (cmp : K' → K' → Int)
    (hashtable : Hashtable K V) (bucket : Nat) (posItem : Option Addr) (k : K) (v : Option V) :
    hashtableAddItem (hashtable.view g hash cmp) bucket posItem (g ⟨k, v⟩).key (g ⟨k, v⟩).value =
      (hashtableAddItem hashtable bucket posItem k v).map fun r => (r.1.view g hash cmp, r.2) := by
  have hnext : hashtableNextItem (hashtable.view g hash cmp) bucket posItem =
      hashtableNextItem hashtable bucket posItem := by
    cases posItem with
    | none => rfl
    | some pos =>
      simp only [hashtableNextItem, Hashtable.view, Heap.mapData, Option.map_map]
      rfl
  simp only [hashtableAddItem, hnext]
  cases hashtableNextItem hashtable bucket posItem with
  | none => rfl
  | some next =>
    simp only [Option.bind_eq_bind, Option.bind_some, Option.map_some, Option.some.injEq, Prod.mk.injEq]
    refine ⟨?_, rfl⟩
    simp only [Hashtable.view, Heap.mapData_setNext, Heap.mapData_setPrev, Heap.mapData_store]

theorem view_removeItem (g : ItemData K V → ItemData K' V') (hash : K' → UInt64) (cmp : K' → K' → Int)
    (hashtable : Hashtable K V) (item : Addr) (bucket : Nat) :
    hashtableRemoveItem (hashtable.view g hash cmp) item bucket =
      (hashtableRemoveItem hashtable item bucket).map fun h => h.view g hash cmp := by
  have hitem : (hashtable.view g hash cmp).items item =
      (hashtable.items item).map fun n => ⟨g n.data, n.prev, n.next⟩ := rfl
  simp only [hashtableRemoveItem, hitem]
  cases hashtable.items item with
  | none => rfl
  | some n =>
    simp only [Option.map_some, Option.bind_eq_bind, Option.bind_some, Option.some.injEq]
    simp only [Hashtable.view, Heap.mapData_setNext, Heap.mapData_setPrev, Heap.mapData_free]
    rfl

end View

/-- A key that is not in its bucket gets a new item. -/
theorem hashtableSet_absent {K V : Type} {hashtable : Hashtable K V} (hkeys : hashtable.typeKeys ≠ .buffer)
    (hvalues : hashtable.typeValues ≠ .buffer) {k : K} {ptrItem posItem : Option Addr}
    (hsearch : hashtableSearchPos hashtable k (hashtableRounds hashtable)
      (hashtable.htable (hashtableBucket hashtable k)) none = some (ptrItem, posItem))
    (habsent : hashtableItemHasKey hashtable k ptrItem = false) (v : Option V) :
    hashtableSet hashtable k v =
      (hashtableAddItem hashtable (hashtableBucket hashtable k) posItem k v).map fun r => (r.1, some r.2) := by
  simp only [hashtableSet, hashtableSetWithSize, hkeys, hvalues, false_and, or_self, if_false, hsearch,
    Option.bind_eq_bind, Option.bind_some]
  cases ptrItem with
  | none => rw [Option.map_eq_bind]; rfl
  | some item => simp only [habsent, Bool.false_eq_true, if_false, Option.map_eq_bind]; rfl

/-! ## Tables without other items -/

section Items

variable {K V : Type} {hashtable hashtable' : Hashtable K V} {i : Nat} {a : Addr}

theorem hashtableAddItem_items {posItem : Option Addr} {k : K} {v : Option V} {new : Addr}
    (h : hashtableAddItem hashtable i posItem k v = some (hashtable', new)) (ha : hashtable'.items a ≠ none) :
    a = hashtable.nextAddr ∨ hashtable.items a ≠ none := by
  simp only [hashtableAddItem, Option.bind_eq_bind, Option.bind_eq_some_iff, Option.some.injEq,
    Prod.mk.injEq] at h
  obtain ⟨next, -, rfl, -⟩ := h
  rw [ne_eq, Heap.setNext_eq_none, Heap.setPrev_eq_none] at ha
  rcases eq_or_ne a hashtable.nextAddr with rfl | hne
  · exact .inl rfl
  · rw [Heap.store_of_ne hne] at ha
    exact .inr ha

theorem hashtableAddItem_types {posItem : Option Addr} {k : K} {v : Option V} {new : Addr}
    (h : hashtableAddItem hashtable i posItem k v = some (hashtable', new)) :
    hashtable'.typeKeys = hashtable.typeKeys ∧ hashtable'.typeValues = hashtable.typeValues := by
  simp only [hashtableAddItem, Option.bind_eq_bind, Option.bind_eq_some_iff, Option.some.injEq,
    Prod.mk.injEq] at h
  obtain ⟨next, -, rfl, -⟩ := h
  exact ⟨rfl, rfl⟩

theorem hashtableRemoveItem_types {item : Addr} (h : hashtableRemoveItem hashtable item i = some hashtable') :
    hashtable'.typeKeys = hashtable.typeKeys ∧ hashtable'.typeValues = hashtable.typeValues := by
  simp only [hashtableRemoveItem, Option.bind_eq_bind, Option.bind_eq_some_iff, Option.some.injEq] at h
  obtain ⟨node, -, rfl⟩ := h
  exact ⟨rfl, rfl⟩

theorem hashtableRemoveItem_items {item : Addr} (h : hashtableRemoveItem hashtable item i = some hashtable')
    (ha : hashtable'.items a ≠ none) : a ≠ item ∧ hashtable.items a ≠ none := by
  simp only [hashtableRemoveItem, Option.bind_eq_bind, Option.bind_eq_some_iff, Option.some.injEq] at h
  obtain ⟨node, -, rfl⟩ := h
  rcases eq_or_ne a item with rfl | hne
  · exact absurd (Function.update_self ..) ha
  · simp only [Heap.free_of_ne hne, ne_eq, Heap.setPrev_eq_none, Heap.setNext_eq_none] at ha
    exact ⟨hne, ha⟩

end Items

section HoldsMap

variable {K V : Type} {hashtable : Hashtable K V} {m : K → Option (Option V)}

/-- The table stands for the map `m`, and all its items are in its buckets. -/
def HoldsMap (hashtable : Hashtable K V) (m : K → Option (Option V)) : Prop :=
  ∃ b, WellFormed hashtable b ∧ Contents (hashtableBucket hashtable) b m ∧
    ∀ a, hashtable.items a ≠ none → ∃ i, a ∈ addrs (b i)

/-- An item has a key of the map, with its value. -/
theorem HoldsMap.item (h : HoldsMap hashtable m) {a : Addr} {n : HashtableItem K V} (hn : hashtable.items a = some n) :
    m n.data.key = some n.data.value := by
  obtain ⟨b, hwf, hm, hall⟩ := h
  obtain ⟨i, hi⟩ := hall a (by rw [hn]; exact Option.some_ne_none n)
  obtain ⟨⟨_, d⟩, hd, rfl⟩ := List.mem_map.mp hi
  obtain ⟨n', hn', rfl⟩ := (hwf.linked i).mem hd
  obtain rfl : n' = n := Option.some.inj (hn'.symm.trans hn)
  rw [hm, hwf.hashed i _ hd]
  exact ⟨_, hd⟩

/-- A key of the map is found. -/
theorem HoldsMap.get (h : HoldsMap hashtable m) {k : K} {v : Option V} (hv : m k = some v) :
    ∃ a n, hashtableGetItem hashtable k = some (some a, hashtableBucket hashtable k) ∧ hashtable.items a = some n ∧
      n.data = ⟨k, v⟩ := by
  obtain ⟨b, hwf, hm, -⟩ := h
  obtain ⟨a', ha'⟩ := (hm k v).mp hv
  rcases hwf.getItem k with ⟨a, v', ys, hr, hget⟩ | ⟨hnone, -⟩
  · have hmem : (a, ⟨k, v'⟩) ∈ b (hashtableBucket hashtable k) := by
      rw [← passed_append_rest hashtable.callbackKeycmp cellKey k (b (hashtableBucket hashtable k)), hr]
      simp
    obtain ⟨n, hn, hdata⟩ := (hwf.linked _).mem hmem
    obtain rfl : v' = v := Option.some.inj (((hm k v').mpr ⟨a, hmem⟩).symm.trans hv)
    exact ⟨a, n, hget, hn, hdata⟩
  · exact absurd ha' (hnone v a')

theorem HoldsMap.get_none (h : HoldsMap hashtable m) {k : K} (hk : m k = none) :
    hashtableGetItem hashtable k = some (none, hashtableBucket hashtable k) := by
  obtain ⟨b, hwf, hm, -⟩ := h
  rcases hwf.getItem k with ⟨a, v, ys, hr, -⟩ | ⟨-, hget⟩
  · have hv := (hm k v).mpr ((hwf.mem_iff k v _).mpr ⟨a, ys, hr⟩)
    rw [hk] at hv
    cases hv
  · exact hget

variable [DecidableEq K]

/-- A key that is not in the map is added, in a new item. -/
theorem HoldsMap.add (h : HoldsMap hashtable m) {k : K} (hk : m k = none) (v : Option V) :
    ∃ ptrItem posItem hashtable', hashtableSearchPos hashtable k (hashtableRounds hashtable)
        (hashtable.htable (hashtableBucket hashtable k)) none = some (ptrItem, posItem) ∧
      hashtableItemHasKey hashtable k ptrItem = false ∧
      hashtableAddItem hashtable (hashtableBucket hashtable k) posItem k v = some (hashtable', hashtable.nextAddr) ∧
      HoldsMap hashtable' (Function.update m k (some v)) ∧
      ∃ n, hashtable'.items hashtable.nextAddr = some n ∧ n.data = ⟨k, v⟩ := by
  obtain ⟨b, hwf, hm, hall⟩ := h
  have hnone : ∀ v a, (a, ⟨k, v⟩) ∉ b (hashtableBucket hashtable k) := fun v a ha => by
    have hv := (hm k v).mpr ⟨a, ha⟩
    rw [hk] at hv
    cases hv
  obtain ⟨h1, hadd, hkind, hwf1⟩ := hwf.addItem k v hnone
  have hsplit := passed_append_rest hashtable.callbackKeycmp cellKey k (b (hashtableBucket hashtable k))
  have hnew := (hwf1.linked (hashtableBucket hashtable k)).mem (a := hashtable.nextAddr) (d := ⟨k, v⟩) (by
    rw [Function.update_self]
    simp)
  refine ⟨_, _, h1, hwf.searchPos k, ?_, hadd, ⟨_, hwf1, ?_, fun a ha => ?_⟩, hnew⟩
  · rw [Bool.eq_false_iff, ne_eq, hwf.itemHasKey]
    rintro ⟨a, v', ys, hr⟩
    obtain ⟨a, ha⟩ := (hwf.mem_iff k v' _).mpr ⟨a, ys, hr⟩
    exact hnone v' a ha
  · rw [hkind.bucket]
    refine hm.update k (fun v' => ?_) fun a' k' v' hk' => ?_
    · have hrest : ∀ a v, (a, ⟨k, v⟩) ∉ rest hashtable.callbackKeycmp cellKey k (b (hashtableBucket hashtable k)) :=
        fun a v ha => hnone v a (hsplit ▸ List.mem_append_right _ ha)
      simp [hwf.notMem_passed, hrest, eq_comm]
    · conv_rhs => rw [← hsplit]
      simp [hk']
  · rcases hashtableAddItem_items hadd ha with rfl | hold
    · refine ⟨hashtableBucket hashtable k, ?_⟩
      rw [Function.update_self, addrs_append]
      simp
    · obtain ⟨i, hi⟩ := hall a hold
      refine ⟨i, ?_⟩
      rcases eq_or_ne i (hashtableBucket hashtable k) with rfl | hne
      · rw [← hsplit, addrs_append, List.mem_append] at hi
        rw [Function.update_self, addrs_append, List.mem_append]
        exact hi.imp_right (List.mem_cons_of_mem _)
      · rwa [Function.update_of_ne hne]

/-- A key of the map is removed, with its item. -/
theorem HoldsMap.remove (h : HoldsMap hashtable m) {k : K} {v : Option V} (hv : m k = some v) :
    ∃ a n hashtable', hashtableGetItem hashtable k = some (some a, hashtableBucket hashtable k) ∧
      hashtable.items a = some n ∧ n.data = ⟨k, v⟩ ∧
      hashtableRemoveItem hashtable a (hashtableBucket hashtable k) = some hashtable' ∧
      HoldsMap hashtable' (Function.update m k none) := by
  obtain ⟨a, n, hget, hn, hdata⟩ := h.get hv
  obtain ⟨b, hwf, hm, hall⟩ := h
  rcases hwf.getItem k with ⟨a', v', ys, hr, hget'⟩ | ⟨-, hget'⟩
  swap
  · rw [hget] at hget'
    cases hget'
  obtain rfl : a' = a := by
    rw [hget] at hget'
    cases hget'
    rfl
  obtain ⟨hashtable', hremove, -, hwf', hm'⟩ := hwf.removeKey hm hr
  refine ⟨a', n, hashtable', hget, hn, hdata, hremove, _, hwf', hm', fun c hc => ?_⟩
  obtain ⟨hca, hold⟩ := hashtableRemoveItem_items hremove hc
  obtain ⟨i, hi⟩ := hall c hold
  refine ⟨i, ?_⟩
  rcases eq_or_ne i (hashtableBucket hashtable k) with rfl | hne
  · have hsplit := passed_append_rest hashtable.callbackKeycmp cellKey k (b (hashtableBucket hashtable k))
    rw [← hsplit, hr, addrs_append, List.mem_append] at hi
    rw [Function.update_self, addrs_append, List.mem_append]
    exact hi.imp_right fun hc => (List.mem_cons.mp hc).resolve_left hca
  · rwa [Function.update_of_ne hne]

end HoldsMap

end Wirc

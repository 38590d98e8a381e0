import WhoreIrc.Proof.HashtableView
import WhoreIrc.Spec.StringShared

/-!
# Shared strings are counted

The table of shared strings is seen as one from strings to the blocks that hold
them (`sharedView`), which stands for the map from the strings with references
to their pointers. `SharedInv` ties it to the ledger and to the counts in
memory; the four step lemmas are for a string that is there or not
(`SharedInv.hit`, `SharedInv.miss`), and for a reference that is the last one
or not (`SharedInv.last`, `SharedInv.more`).
-/

namespace Wirc

open Framework

/-! ## The view of the table -/

/-- An item by the text of its key, with the block as its value. -/
def textData (memory : Addr → Option SharedBlock) (d : ItemData Addr Empty) : ItemData Str Addr :=
  ⟨sharedText memory d.key, some d.key⟩

def sharedView (memory : Addr → Option SharedBlock) (hashtable : Hashtable Addr Empty) : Hashtable Str Addr :=
  hashtable.view (textData memory) hashtableHashKeyDjb2 strcmp

theorem sharedHashtable_looks (memory : Addr → Option SharedBlock) (hashtable : Hashtable Addr Empty) :
    Looks (sharedText memory) (textData memory) hashtableHashKeyDjb2 strcmp (sharedHashtable memory hashtable) :=
  ⟨fun _ => rfl, fun _ => rfl, fun _ _ => rfl⟩

/-- The view depends on the texts of the keys only. -/
theorem sharedView_congr {memory memory' : Addr → Option SharedBlock} {hashtable : Hashtable Addr Empty}
    (h : ∀ a n, hashtable.items a = some n → sharedText memory' n.data.key = sharedText memory n.data.key) :
    sharedView memory' hashtable = sharedView memory hashtable := by
  have hitems : Heap.mapData (textData memory') hashtable.items = Heap.mapData (textData memory) hashtable.items := by
    funext a
    cases hn : hashtable.items a with
    | none => simp only [Heap.mapData, hn, Option.map_none]
    | some n => simp only [Heap.mapData, hn, Option.map_some, textData, h a n hn]
  rw [sharedView, sharedView, Hashtable.view, Hashtable.view, hitems]

theorem sharedView_item {memory : Addr → Option SharedBlock} {hashtable : Hashtable Addr Empty} {a : Addr}
    {n : HashtableItem Str Addr} (hn : (sharedView memory hashtable).items a = some n) {s : Str} {p : Addr}
    (hdata : n.data = ⟨s, some p⟩) : ∃ n', hashtable.items a = some n' ∧ n'.data.key = p := by
  simp only [sharedView, Hashtable.view, Heap.mapData, Option.map_eq_some_iff] at hn
  obtain ⟨n', hn', rfl⟩ := hn
  exact ⟨n', hn', Option.some.inj (congrArg ItemData.value hdata)⟩

theorem sharedText_self (memory : Addr → Option SharedBlock) (key : Addr) (block : SharedBlock) :
    sharedText (Function.update memory key (some block)) key = block.string := by
  rw [sharedText, Function.update_self]

/-! ## The ledger -/

theorem references_cons (p : Addr) (s t : Str) (ledger : SharedLedger) :
    references ((p, s) :: ledger) t = references ledger t + if s = t then 1 else 0 := by
  simp only [references, List.countP_cons, decide_eq_true_eq]

theorem references_pos {ledger : SharedLedger} {s : Str} : 0 < references ledger s ↔ ∃ p, (p, s) ∈ ledger := by
  rw [references, List.countP_pos_iff]
  constructor
  · rintro ⟨⟨p, s'⟩, hr, hs⟩
    obtain rfl : s' = s := of_decide_eq_true hs
    exact ⟨p, hr⟩
  · rintro ⟨p, hr⟩
    exact ⟨(p, s), hr, decide_eq_true rfl⟩

/-- The reference that is given back by its pointer, out of the ledger. -/
theorem erase_reference {ledger : SharedLedger} {p : Addr} {s : Str} (hmem : (p, s) ∈ ledger)
    (htext : ∀ t, (p, t) ∈ ledger → t = s) :
    ∃ l₁ l₂, ledger = l₁ ++ (p, s) :: l₂ ∧ (ledger.eraseP fun r => r.1 = p) = l₁ ++ l₂ := by
  obtain ⟨⟨p', t⟩, l₁, l₂, -, hp, rfl, herase⟩ :=
    List.exists_of_eraseP (p := fun r : Addr × Str => r.1 = p) hmem (decide_eq_true rfl)
  obtain rfl : p' = p := of_decide_eq_true hp
  obtain rfl := htext t (by simp)
  exact ⟨l₁, l₂, rfl, herase⟩

theorem references_split (p : Addr) (s t : Str) (l₁ l₂ : SharedLedger) :
    references (l₁ ++ (p, s) :: l₂) t = references (l₁ ++ l₂) t + if s = t then 1 else 0 := by
  simp only [references, List.countP_append, List.countP_cons, decide_eq_true_eq]
  omega

/-! ## The invariant -/

/-- The table, which is created when it is needed. -/
def sharedTable (state : SharedStrings) : Hashtable Addr Empty :=
  state.hashtable.getD (stringSharedNew state.memory)

/-- `owner` gives the pointer of each string that has references. -/
structure SharedInv (state : SharedStrings) (ledger : SharedLedger) (owner : Str → Option Addr) : Prop where
  mem : ∀ p s, owner s = some p ↔ (p, s) ∈ ledger
  block : ∀ p s, owner s = some p → state.memory p = some ⟨UInt32.ofNat (references ledger s), s⟩
  few : ∀ s, references ledger s < 4294967296
  typeValues : (sharedTable state).typeValues = .pointer
  typeKeys : (sharedTable state).typeKeys = .pointer
  table : HoldsMap (sharedView state.memory (sharedTable state)) fun s => (owner s).map some

section

variable {state : SharedStrings} {ledger : SharedLedger} {owner : Str → Option Addr}

namespace SharedInv

theorem references_eq_zero (h : SharedInv state ledger owner) {s : Str} (hs : owner s = none) :
    references ledger s = 0 := by
  rcases Nat.eq_zero_or_pos (references ledger s) with h0 | hpos
  · exact h0
  · obtain ⟨p, hp⟩ := references_pos.mp hpos
    rw [(h.mem p s).mpr hp] at hs
    cases hs

/-- The text of a block with references is the string that was asked for. -/
theorem text (h : SharedInv state ledger owner) {p : Addr} {s t : Str} (hs : owner s = some p)
    (ht : owner t = some p) : s = t := by
  have hblock := (h.block p s hs).symm.trans (h.block p t ht)
  simp only [Option.some.injEq, SharedBlock.mk.injEq] at hblock
  exact hblock.2

/-- The key of an item is a block with references. -/
theorem item (h : SharedInv state ledger owner) {a : Addr} {n : HashtableItem Addr Empty}
    (hn : (sharedTable state).items a = some n) :
    owner (sharedText state.memory n.data.key) = some n.data.key := by
  have hview : (sharedView state.memory (sharedTable state)).items a =
      some ⟨textData state.memory n.data, n.prev, n.next⟩ := by
    simp only [sharedView, Hashtable.view, Heap.mapData, hn, Option.map_some]
  have hkey := h.table.item hview
  simp only [textData, Option.map_eq_some_iff, Option.some.injEq] at hkey
  obtain ⟨p, hp, rfl⟩ := hkey
  exact hp

/-- Memory that changes elsewhere, or only in counts, does not change the view. -/
theorem view_memory (h : SharedInv state ledger owner) {memory : Addr → Option SharedBlock}
    (hm : ∀ s p, owner s = some p → sharedText memory p = s) :
    sharedView memory (sharedTable state) = sharedView state.memory (sharedTable state) :=
  sharedView_congr fun _ _ hn => hm _ _ (h.item hn)

theorem text_update (h : SharedInv state ledger owner) {key : Addr} (hkey : state.memory key = none)
    (o : Option SharedBlock) : ∀ s p, owner s = some p → sharedText (Function.update state.memory key o) p = s := by
  intro s p hp
  have hblock := h.block p s hp
  have hne : p ≠ key := by
    rintro rfl
    rw [hkey] at hblock
    cases hblock
  rw [sharedText, Function.update_of_ne hne, hblock]

theorem text_count (h : SharedInv state ledger owner) {key : Addr} {t : Str} (hkey : owner t = some key)
    (count : UInt32) :
    ∀ s p, owner s = some p → sharedText (Function.update state.memory key (some ⟨count, t⟩)) p = s := by
  intro s p hp
  rcases eq_or_ne p key with rfl | hne
  · rw [sharedText, Function.update_self]
    exact h.text hkey hp
  · rw [sharedText, Function.update_of_ne hne, h.block p s hp]

/-- The search of `string_shared_get`, with the key of the string in memory. -/
theorem getItem (h : SharedInv state ledger owner) {memory : Addr → Option SharedBlock}
    (hm : ∀ s p, owner s = some p → sharedText memory p = s) (key : Addr) :
    hashtableGetItem (sharedHashtable memory (sharedTable state)) key =
      hashtableGetItem (sharedView state.memory (sharedTable state)) (sharedText memory key) := by
  rw [← view_getItem (sharedHashtable_looks memory (sharedTable state)) key, ← h.view_memory hm]
  rfl

/-- One more reference or one less, to a string that keeps its block. -/
theorem counted (h : SharedInv state ledger owner) {s : Str} {p : Addr} (hs : owner s = some p)
    {state' : SharedStrings} {ledger' : SharedLedger} (hmem : ∀ r, r ∈ ledger' ↔ r ∈ ledger)
    (hrefs : ∀ t, t ≠ s → references ledger' t = references ledger t)
    (hfew : references ledger' s < 4294967296)
    (hmemory : state'.memory = Function.update state.memory p (some ⟨UInt32.ofNat (references ledger' s), s⟩))
    (htable : ∀ m, sharedHashtable m (sharedTable state') = sharedHashtable m (sharedTable state)) :
    SharedInv state' ledger' owner := by
  have hview : sharedView state'.memory (sharedTable state') = sharedView state.memory (sharedTable state) := by
    rw [hmemory, ← h.view_memory (h.text_count hs _)]
    have hcongr := congrArg (sharedView (Function.update state.memory p
      (some ⟨UInt32.ofNat (references ledger' s), s⟩))) (htable state.memory)
    exact hcongr
  refine ⟨fun q t => (h.mem q t).trans (hmem _).symm, fun q t ht => ?_, fun t => ?_, ?_, ?_, hview ▸ h.table⟩
  · rw [hmemory]
    rcases eq_or_ne q p with rfl | hne
    · obtain rfl := h.text hs ht
      rw [Function.update_self]
    · have hts : t ≠ s := by
        rintro rfl
        exact hne (Option.some.inj (ht.symm.trans hs))
      rw [Function.update_of_ne hne, h.block q t ht, hrefs t hts]
  · rcases eq_or_ne t s with rfl | hne
    · exact hfew
    · rw [hrefs t hne]
      exact h.few t
  · exact (congrArg Hashtable.typeValues (htable state.memory)).trans h.typeValues
  · exact (congrArg Hashtable.typeKeys (htable state.memory)).trans h.typeKeys

end SharedInv

theorem sharedHashtable_getD (state : SharedStrings) (memory memory' : Addr → Option SharedBlock) :
    sharedHashtable memory (state.hashtable.getD (stringSharedNew memory')) =
      sharedHashtable memory (sharedTable state) := by
  rw [sharedTable]
  cases state.hashtable <;> rfl

/-! ## The calls -/

/-- A string with references gets the same pointer once more. -/
theorem SharedInv.hit (h : SharedInv state ledger owner) {s : Str} {p key : Addr} (hs : owner s = some p)
    (hkey : state.memory key = none) (hfew : references ledger s + 1 < 4294967296) :
    ∃ state', stringSharedGet state s key = some (state', some p) ∧
      SharedInv state' ((p, s) :: ledger) owner := by
  have hget := h.getItem (h.text_update hkey (some ⟨1, s⟩)) key
  rw [sharedText_self] at hget
  obtain ⟨a, n, hitem, hn, hdata⟩ := h.table.get (k := s) (v := some p) (by rw [hs, Option.map_some])
  obtain ⟨n', hn', rfl⟩ := sharedView_item hn hdata
  have hblock := h.block _ s hs
  have hne : n'.data.key ≠ key := by
    rintro rfl
    rw [hkey] at hblock
    cases hblock
  have hitems : (sharedHashtable (Function.update state.memory key (some ⟨1, s⟩)) (sharedTable state)).items a =
      some n' := hn'
  refine ⟨⟨Function.update (Function.update (Function.update state.memory key (some ⟨1, s⟩)) n'.data.key
      (some ⟨UInt32.ofNat (references ledger s) + 1, s⟩)) key none,
      some (sharedHashtable (Function.update state.memory key (some ⟨1, s⟩)) (sharedTable state))⟩,
    ?_, h.counted hs (fun r => ?_) (fun t ht => ?_) ?_ ?_ fun m => rfl⟩
  · simp only [stringSharedGet, sharedHashtable_getD, hget, hitem, hitems, Function.update_of_ne hne, hblock,
      Option.bind_eq_bind, Option.bind_some]
  · exact List.mem_cons.trans (or_iff_right_of_imp fun hr => hr ▸ (h.mem _ s).mp hs)
  · rw [references_cons, if_neg ht.symm, Nat.add_zero]
  · rw [references_cons, if_pos rfl]
    exact hfew
  · rw [references_cons, if_pos rfl, UInt32.ofNat_add]
    funext q
    dsimp only
    rcases eq_or_ne q key with rfl | hq
    · rw [Function.update_self, Function.update_of_ne hne.symm, hkey]
    · rw [Function.update_of_ne hq]
      rcases eq_or_ne q n'.data.key with rfl | hqp
      · rw [Function.update_self, Function.update_self]
        rfl
      · rw [Function.update_of_ne hqp, Function.update_of_ne hqp, Function.update_of_ne hq]

/-- A string without references gets a new block. -/
theorem SharedInv.miss (h : SharedInv state ledger owner) {s : Str} {key : Addr} (hs : owner s = none)
    (hkey : state.memory key = none) :
    ∃ state', stringSharedGet state s key = some (state', some key) ∧
      SharedInv state' ((key, s) :: ledger) (Function.update owner s (some key)) := by
  have hmemory := h.text_update hkey (some ⟨1, s⟩)
  have hget := h.getItem hmemory key
  rw [sharedText_self, h.table.get_none (k := s) (by rw [hs, Option.map_none])] at hget
  have hlooks := sharedHashtable_looks (Function.update state.memory key (some ⟨1, s⟩)) (sharedTable state)
  have hview : (sharedHashtable (Function.update state.memory key (some ⟨1, s⟩)) (sharedTable state)).view
      (textData (Function.update state.memory key (some ⟨1, s⟩))) hashtableHashKeyDjb2 strcmp =
        sharedView state.memory (sharedTable state) := h.view_memory hmemory
  obtain ⟨ptrItem, posItem, view', hsearch, habsent, hadd, hholds, n, hn, hdata⟩ :=
    h.table.add (k := s) (by rw [hs, Option.map_none]) (some key)
  have hbucket := view_bucket hlooks key
  rw [hview, sharedText_self] at hbucket
  have hsearch' := view_searchPos hlooks key (hashtableRounds (sharedTable state))
    ((sharedTable state).htable (hashtableBucket (sharedView state.memory (sharedTable state)) s)) none
  rw [hview, sharedText_self, hbucket] at hsearch'
  have habsent' := view_itemHasKey hlooks key ptrItem
  rw [hview, sharedText_self, habsent] at habsent'
  have hadd' := view_addItem (textData (Function.update state.memory key (some ⟨1, s⟩))) hashtableHashKeyDjb2 strcmp
    (sharedHashtable (Function.update state.memory key (some ⟨1, s⟩)) (sharedTable state))
    (hashtableBucket (sharedView state.memory (sharedTable state)) s) posItem key none
  rw [hview] at hadd'
  simp only [textData, sharedText_self, hadd] at hadd'
  obtain ⟨⟨hashtable', new⟩, hnew, heq⟩ := Option.map_eq_some_iff.mp hadd'.symm
  obtain ⟨rfl, rfl⟩ := Prod.mk.inj heq
  have hset := hashtableSet_absent (v := none) (by exact h.typeKeys ▸ nofun) (by exact h.typeValues ▸ nofun)
    (hsearch'.symm.trans (hbucket ▸ hsearch)) habsent'.symm
  rw [← hbucket, hnew, Option.map_some] at hset
  obtain ⟨n', hn', hkey'⟩ := sharedView_item hn hdata
  have h0 := h.references_eq_zero hs
  refine ⟨⟨Function.update state.memory key (some ⟨1, s⟩), some hashtable'⟩, ?_, ?_⟩
  · simp only [stringSharedGet, sharedHashtable_getD, hget, hset, Option.bind_eq_bind, Option.bind_some]
    rw [hn', Option.bind_some, hkey']
  refine ⟨fun q t => ?_, fun q t ht => ?_, fun t => ?_, ?_, ?_, ?_⟩
  · rw [List.mem_cons, ← h.mem]
    rcases eq_or_ne t s with rfl | hne
    · rw [Function.update_self, hs]
      simp [eq_comm]
    · rw [Function.update_of_ne hne]
      simp [hne]
  · rw [references_cons]
    dsimp only
    rcases eq_or_ne t s with rfl | hne
    · rw [Function.update_self, Option.some.injEq] at ht
      rw [← ht, Function.update_self, h0, if_pos rfl]
      rfl
    · rw [Function.update_of_ne hne] at ht
      have hblock := h.block q t ht
      have hq : q ≠ key := by
        rintro rfl
        rw [hkey] at hblock
        cases hblock
      rw [Function.update_of_ne hq, hblock, if_neg hne.symm, Nat.add_zero]
  · rw [references_cons]
    have hfew := h.few t
    split
    · rename_i hst
      rw [← hst, h0]
      decide
    · exact hfew
  · exact (hashtableAddItem_types hnew).2.trans h.typeValues
  · exact (hashtableAddItem_types hnew).1.trans h.typeKeys
  · have hupdate := Function.comp_update (fun o : Option Addr => o.map some) owner s (some key)
    rw [show (fun t => (Function.update owner s (some key) t).map some) =
      (fun o : Option Addr => o.map some) ∘ Function.update owner s (some key) from rfl, hupdate]
    exact hholds

/-- A reference that is not the last one is given back. -/
theorem SharedInv.more (h : SharedInv state ledger owner) {s : Str} {p : Addr} {l₁ l₂ : SharedLedger}
    (hs : owner s = some p) (hledger : ledger = l₁ ++ (p, s) :: l₂) (hmore : references (l₁ ++ l₂) s ≠ 0) :
    ∃ state', stringSharedFree state p = some state' ∧ SharedInv state' (l₁ ++ l₂) owner := by
  have hcount := references_split p s s l₁ l₂
  rw [← hledger, if_pos rfl] at hcount
  have hfew := h.few s
  have hblock := h.block p s hs
  have hsub : UInt32.ofNat (references ledger s) - 1 = UInt32.ofNat (references (l₁ ++ l₂) s) := by
    rw [hcount, UInt32.ofNat_add]
    exact UInt32.add_sub_cancel _ _
  have hne : UInt32.ofNat (references (l₁ ++ l₂) s) ≠ 0 := fun h0 => hmore (by
    have := congrArg UInt32.toNat h0
    rw [UInt32.toNat_ofNat_of_lt' (Nat.lt_of_le_of_lt (by omega) hfew)] at this
    exact this)
  refine ⟨⟨Function.update state.memory p (some ⟨UInt32.ofNat (references (l₁ ++ l₂) s), s⟩), state.hashtable⟩, ?_,
    h.counted hs (fun r => ?_) (fun t ht => ?_) (by omega) rfl fun m => sharedHashtable_getD state m _⟩
  · simp only [stringSharedFree, hblock, hsub, hne, if_false, Option.bind_eq_bind, Option.bind_some]
  · obtain ⟨q, hq⟩ := references_pos.mp (Nat.pos_of_ne_zero hmore)
    have hqp : owner s = some q := (h.mem q s).mpr (by
      rw [hledger]
      exact List.mem_append.mpr ((List.mem_append.mp hq).imp_right (List.mem_cons_of_mem _)))
    obtain rfl : q = p := Option.some.inj (hqp.symm.trans hs)
    rw [hledger]
    simp only [List.mem_append, List.mem_cons] at hq ⊢
    constructor
    · rintro (hr | hr)
      · exact .inl hr
      · exact .inr (.inr hr)
    · rintro (hr | rfl | hr)
      · exact .inl hr
      · exact hq
      · exact .inr hr
  · rw [hledger, references_split, if_neg ht.symm, Nat.add_zero]

/-- The last reference to a string is given back. -/
theorem SharedInv.last (h : SharedInv state ledger owner) {s : Str} {p : Addr} {l₁ l₂ : SharedLedger}
    (hs : owner s = some p) (hledger : ledger = l₁ ++ (p, s) :: l₂) (hlast : references (l₁ ++ l₂) s = 0) :
    ∃ state', stringSharedFree state p = some state' ∧
      SharedInv state' (l₁ ++ l₂) (Function.update owner s none) := by
  have hcount := references_split p s s l₁ l₂
  rw [← hledger, if_pos rfl, hlast, Nat.zero_add] at hcount
  have hblock := h.block p s hs
  rw [hcount] at hblock
  have hmemory := h.text_count hs 0
  have hget := h.getItem hmemory p
  obtain ⟨a, n, view', hitem, hn, hdata, hremove, hholds⟩ :=
    h.table.remove (k := s) (v := some p) (by rw [hs, Option.map_some])
  rw [sharedText_self, hitem] at hget
  obtain ⟨n', hn', hkey⟩ := sharedView_item hn hdata
  have hview : (sharedHashtable (Function.update state.memory p (some ⟨0, s⟩)) (sharedTable state)).view
      (textData (Function.update state.memory p (some ⟨0, s⟩))) hashtableHashKeyDjb2 strcmp =
        sharedView state.memory (sharedTable state) := h.view_memory hmemory
  have hremove' := view_removeItem (textData (Function.update state.memory p (some ⟨0, s⟩))) hashtableHashKeyDjb2
    strcmp (sharedHashtable (Function.update state.memory p (some ⟨0, s⟩)) (sharedTable state)) a
    (hashtableBucket (sharedView state.memory (sharedTable state)) s)
  rw [hview, hremove] at hremove'
  obtain ⟨hashtable', hnew, rfl⟩ := Option.map_eq_some_iff.mp hremove'.symm
  have hsome : state.hashtable = some (sharedTable state) := by
    cases ht : state.hashtable with
    | some t => rw [sharedTable, ht, Option.getD_some]
    | none =>
      rw [sharedTable, ht] at hn'
      cases hn'
  have hother : ∀ t q, Function.update owner s none t = some q → t ≠ s ∧ owner t = some q ∧ q ≠ p := by
    intro t q ht
    rcases eq_or_ne t s with rfl | hne
    · rw [Function.update_self] at ht
      cases ht
    · rw [Function.update_of_ne hne] at ht
      refine ⟨hne, ht, ?_⟩
      rintro rfl
      exact hne (h.text ht hs)
  have hcomp := Function.comp_update (fun o : Option Addr => o.map some) owner s none
  have hholds' : HoldsMap (sharedView (Function.update state.memory p (some ⟨0, s⟩)) hashtable')
      ((fun o : Option Addr => o.map some) ∘ Function.update owner s none) := by
    rw [hcomp]
    exact hholds
  refine ⟨⟨Function.update (Function.update state.memory p (some ⟨0, s⟩)) p none, some hashtable'⟩, ?_, ?_⟩
  · have hcount0 : (UInt32.ofNat 1 - 1 : UInt32) = 0 := rfl
    simp only [stringSharedFree, hblock, hcount0, if_true, hsome, stringSharedRemove, hget, Option.bind_eq_bind,
      Option.bind_some]
    rw [show (sharedHashtable (Function.update state.memory p (some ⟨0, s⟩)) (sharedTable state)).items a =
      some n' from hn', Option.bind_some, hnew, Option.bind_some, hkey]
  refine ⟨fun q t => ?_, fun q t ht => ?_, fun t => ?_, ?_, ?_, ?_⟩
  · have hmem := h.mem q t
    rw [hledger, List.mem_append, List.mem_cons] at hmem
    rw [List.mem_append]
    rcases eq_or_ne t s with rfl | hne
    · have hnone : ¬ ∃ q, (q, t) ∈ l₁ ++ l₂ := fun hq => Nat.ne_of_gt (references_pos.mpr hq) hlast
      rw [Function.update_self]
      exact ⟨nofun, fun hq => absurd ⟨q, List.mem_append.mpr hq⟩ hnone⟩
    · rw [Function.update_of_ne hne, hmem]
      simp [hne]
  · obtain ⟨hne, hown, hqp⟩ := hother t q ht
    have hrefs := references_split p s t l₁ l₂
    rw [← hledger, if_neg hne.symm, Nat.add_zero] at hrefs
    dsimp only
    rw [Function.update_of_ne hqp, Function.update_of_ne hqp, h.block q t hown, hrefs]
  · have hrefs := references_split p s t l₁ l₂
    rw [← hledger] at hrefs
    exact Nat.lt_of_le_of_lt (by omega) (h.few t)
  · exact (hashtableRemoveItem_types hnew).2.trans h.typeValues
  · exact (hashtableRemoveItem_types hnew).1.trans h.typeKeys
  · have hcongr : sharedView (Function.update (Function.update state.memory p (some ⟨0, s⟩)) p none) hashtable' =
        sharedView (Function.update state.memory p (some ⟨0, s⟩)) hashtable' := by
      refine sharedView_congr fun a n hn => ?_
      have hview' : (sharedView (Function.update state.memory p (some ⟨0, s⟩)) hashtable').items a =
          some ⟨textData (Function.update state.memory p (some ⟨0, s⟩)) n.data, n.prev, n.next⟩ := by
        simp only [sharedView, Hashtable.view, Heap.mapData, hn, Option.map_some]
      obtain ⟨q, hq, hqn⟩ := Option.map_eq_some_iff.mp (hholds'.item hview')
      obtain rfl : q = n.data.key := Option.some.inj hqn
      obtain ⟨-, -, hqp⟩ := hother _ _ hq
      rw [sharedText, sharedText, Function.update_of_ne hqp]
    exact hcongr ▸ hholds'

/-! ## All runs -/

theorem SharedInv.start : SharedInv ⟨fun _ => none, none⟩ [] fun _ => none := by
  have hwf : WellFormed (sharedView (fun _ => none) (sharedTable ⟨fun _ => none, none⟩)) fun _ => [] := by
    refine ⟨strcmp_order, fun h0 => ?_, by decide, fun _ => rfl, fun _ => trivial, fun _ => List.Pairwise.nil,
      fun _ _ hx => ?_, ?_, fun _ ha => absurd rfl ha⟩
    · cases h0
    · cases hx
    · simp [sharedView, Hashtable.view, sharedTable, stringSharedNew]
  refine ⟨fun _ _ => ?_, fun _ _ h0 => ?_, fun _ => Nat.zero_lt_succ _, rfl, rfl, fun _ => [], hwf, fun _ _ => ?_,
    fun _ ha => absurd rfl ha⟩
  · simp
  · cases h0
  · simp

/-- A call that may be made is made, and keeps the invariant. -/
theorem SharedInv.step (h : SharedInv state ledger owner) {op : SharedOp} (hop : op.Legal state ledger) :
    ∃ state' ledger' owner', op.run state ledger = some (state', ledger') ∧ SharedInv state' ledger' owner' := by
  cases op with
  | get string key =>
    obtain ⟨hkey, hfew⟩ := hop
    cases hs : owner string with
    | some p =>
      obtain ⟨state', hget, hinv⟩ := h.hit hs hkey hfew
      exact ⟨state', _, owner, by rw [SharedOp.run, hget, Option.map_some], hinv⟩
    | none =>
      obtain ⟨state', hget, hinv⟩ := h.miss hs hkey
      exact ⟨state', _, _, by rw [SharedOp.run, hget, Option.map_some], hinv⟩
  | free string =>
    obtain ⟨text, htext⟩ := hop
    have hs := (h.mem string text).mpr htext
    obtain ⟨l₁, l₂, hledger, herase⟩ := erase_reference htext fun t ht => h.text ((h.mem string t).mpr ht) hs
    rcases eq_or_ne (references (l₁ ++ l₂) text) 0 with h0 | hne
    · obtain ⟨state', hfree, hinv⟩ := h.last hs hledger h0
      exact ⟨state', _, _, by rw [SharedOp.run, hfree, Option.map_some], herase ▸ hinv⟩
    · obtain ⟨state', hfree, hinv⟩ := h.more hs hledger hne
      exact ⟨state', _, _, by rw [SharedOp.run, hfree, Option.map_some], herase ▸ hinv⟩

theorem SharedRun.inv (h : SharedRun state ledger) : ∃ owner, SharedInv state ledger owner := by
  induction h with
  | start => exact ⟨_, SharedInv.start⟩
  | step op _ hop hrun ih =>
    obtain ⟨owner, hinv⟩ := ih
    obtain ⟨state', ledger', owner', hrun', hinv'⟩ := hinv.step hop
    obtain ⟨rfl, rfl⟩ := Prod.mk.inj (Option.some.inj (hrun'.symm.trans hrun))
    exact ⟨owner', hinv'⟩

/-- The search for a string in the table. -/
theorem SharedInv.hasKey (h : SharedInv state ledger owner) {key : Addr} (hkey : state.memory key = none) (s : Str) :
    sharedHasKey state s key = some (owner s).isSome := by
  have hget := h.getItem (h.text_update hkey (some ⟨1, s⟩)) key
  rw [sharedText_self] at hget
  cases ht : state.hashtable with
  | some hashtable =>
    have htable : sharedTable state = hashtable := by rw [sharedTable, ht, Option.getD_some]
    simp only [sharedHasKey, ht, hashtableHasKey, ← htable, hget]
    cases hs : owner s with
    | some p =>
      obtain ⟨a, n, hitem, -⟩ := h.table.get (k := s) (v := some p) (by rw [hs, Option.map_some])
      rw [hitem]
      rfl
    | none =>
      rw [h.table.get_none (k := s) (by rw [hs, Option.map_none])]
      rfl
  | none =>
    rw [sharedHasKey, ht]
    cases hs : owner s with
    | some p =>
      obtain ⟨a, n, -, hn, hdata⟩ := h.table.get (k := s) (v := some p) (by rw [hs, Option.map_some])
      obtain ⟨n', hn', -⟩ := sharedView_item hn hdata
      rw [sharedTable, ht] at hn'
      cases hn'
    | none => rfl

/-- Shared strings in all runs where pointers are given back only by those who
have them, and with fewer than 2³² references to each string: no call fails,
references to equal strings are equal pointers, the block of each has the
number of references to it and the string, and the strings with references are
those in the table. -/
theorem sharedStrings_counted {state : SharedStrings} {ledger : SharedLedger} (h : SharedRun state ledger) :
    (∀ string key, (SharedOp.get string key).Legal state ledger →
      ∃ state' ptr, stringSharedGet state string key = some (state', some ptr) ∧
        ∀ p, (p, string) ∈ ledger → p = ptr) ∧
    (∀ string, (SharedOp.free string).Legal state ledger → ∃ state', stringSharedFree state string = some state') ∧
    (∀ r ∈ ledger, ∀ r' ∈ ledger, r.2 = r'.2 ↔ r.1 = r'.1) ∧
    (∀ r ∈ ledger, ∃ block, state.memory r.1 = some block ∧ block.string = r.2 ∧
      block.count.toNat = references ledger r.2) ∧
    ∀ string key, state.memory key = none →
      sharedHasKey state string key = some (decide (0 < references ledger string)) := by
  obtain ⟨owner, hinv⟩ := h.inv
  refine ⟨fun string key hop => ?_, fun string hop => ?_, fun r hr r' hr' => ?_, fun r hr => ?_,
    fun string key hkey => ?_⟩
  · obtain ⟨hkey, hfew⟩ := hop
    cases hs : owner string with
    | some p =>
      obtain ⟨state', hget, -⟩ := hinv.hit hs hkey hfew
      exact ⟨state', p, hget, fun q hq => Option.some.inj (((hinv.mem q string).mpr hq).symm.trans hs)⟩
    | none =>
      obtain ⟨state', hget, -⟩ := hinv.miss hs hkey
      refine ⟨state', key, hget, fun q hq => ?_⟩
      rw [(hinv.mem q string).mpr hq] at hs
      cases hs
  · obtain ⟨state', ledger', owner', hrun, -⟩ := hinv.step hop
    obtain ⟨state', hfree, -⟩ := Option.map_eq_some_iff.mp hrun
    exact ⟨state', hfree⟩
  · have hs := (hinv.mem r.1 r.2).mpr hr
    have hs' := (hinv.mem r'.1 r'.2).mpr hr'
    constructor
    · intro heq
      rw [← heq] at hs'
      exact Option.some.inj (hs.symm.trans hs')
    · intro heq
      rw [← heq] at hs'
      exact hinv.text hs hs'
  · refine ⟨_, hinv.block r.1 r.2 ((hinv.mem r.1 r.2).mpr hr), rfl, ?_⟩
    exact UInt32.toNat_ofNat_of_lt' (hinv.few r.2)
  · rw [hinv.hasKey hkey]
    cases hs : owner string with
    | some p => rw [decide_eq_true (references_pos.mpr ⟨p, (hinv.mem p string).mp hs⟩), Option.isSome_some]
    | none => rw [hinv.references_eq_zero hs, decide_eq_false (Nat.lt_irrefl 0), Option.isSome_none]

/-- One reference to a string. -/
theorem sharedStrings_counted_one : ∃ state, SharedRun state [(7, lit "nick")] ∧
    ∃ block, state.memory 7 = some block ∧ block.string = lit "nick" ∧ block.count.toNat = 1 := by
  obtain ⟨state, hget, -⟩ := SharedInv.start.miss (s := lit "nick") rfl
    (show (fun _ : Addr => (none : Option SharedBlock)) 7 = none from rfl)
  have hrun : SharedRun state [(7, lit "nick")] :=
    .step (.get (lit "nick") 7) .start ⟨rfl, by decide⟩ (by rw [SharedOp.run, hget, Option.map_some])
  exact ⟨state, hrun, (sharedStrings_counted hrun).2.2.2.1 _ (List.mem_singleton_self _)⟩

end

end Wirc

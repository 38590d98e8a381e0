import WhoreIrc.Framework.Run
import WhoreIrc.Proof.Arraylist

/-!
# Array lists when memory is short

`ArraylistOk` is what each call keeps, whatever allocations fail, but in two
cases: an insertion in place of the only element, whose array was freed
(`LosesElement`), and a clear that has freed an array it cannot replace
(`LosesArray`). A run goes well if and only if none of its calls is such a case
(`arraylist_alloc_iff`).
-/

namespace Wirc

open Framework

section

variable {α : Type} {arraylist : Arraylist α} {pointer : α}

theorem arraylistAlloc_eq (arraylist : Arraylist α) :
    arraylistAlloc arraylist = (arraylist.allocs.head?.getD true, { arraylist with allocs := arraylist.allocs.tail }) := by
  obtain ⟨_, _, _, _, _, _, _, _, allocs⟩ := arraylist
  cases allocs with
  | nil => rfl
  | cons ok allocs => rfl

/-- The next allocation fails. -/
def AllocFails (arraylist : Arraylist α) : Prop := arraylist.allocs.head?.getD true = false

/-- The array has room for the elements. -/
structure ArraylistOk (arraylist : Arraylist α) : Prop where
  size : arraylist.size = (arraylistElements arraylist).length
  alloc : arraylist.size ≤ arraylist.sizeAlloc
  null : arraylist.data = none ↔ arraylist.sizeAlloc = 0
  allocMin : 0 ≤ arraylist.sizeAllocMin

namespace ArraylistOk

theorem data_some (h : ArraylistOk arraylist) (hpos : arraylist.size > 0) :
    arraylist.data = some (arraylistElements arraylist) := by
  have halloc := h.alloc
  cases hdata : arraylist.data with
  | none =>
    have := h.null.mp hdata
    omega
  | some data => rw [arraylistElements, hdata, Option.getD_some]

theorem data_get (h : ArraylistOk arraylist) {i : Int} (h0 : 0 ≤ i) (hi : i < arraylist.size) :
    ∃ element, arraylistData arraylist i = some element ∧ (arraylistElements arraylist)[i.toNat]? = some element := by
  have hsize := h.size
  have hlt : i.toNat < (arraylistElements arraylist).length := by omega
  rw [arraylistData, if_neg (by omega), h.data_some (by omega)]
  exact ⟨_, List.getElem?_eq_getElem hlt, List.getElem?_eq_getElem hlt⟩

theorem get (h : ArraylistOk arraylist) {i : Int} (h0 : 0 ≤ i) (hi : i < arraylist.size) :
    (arraylistGet arraylist i).isSome := by
  obtain ⟨element, helement, -⟩ := h.data_get h0 hi
  rw [arraylistGet, if_neg (by omega), helement]
  rfl

/-! ## Searching -/

theorem cmpAt (h : ArraylistOk arraylist) (pointer : α) {i : Int} (h0 : 0 ≤ i) (hi : i < arraylist.size) :
    ∃ rc, arraylistCmpAt arraylist pointer i = some rc := by
  obtain ⟨element, helement, -⟩ := h.data_get h0 hi
  exact ⟨_, by rw [arraylistCmpAt, helement, Option.map_some]⟩

/-- An index of an element, or −1. -/
def IsIndex (arraylist : Arraylist α) (index : Int) : Prop := index = -1 ∨ 0 ≤ index ∧ index < arraylist.size

theorem binaryLoop (h : ArraylistOk arraylist) (pointer : α) {start stop : Int} {ret : Int × Int} (h0 : 0 ≤ start)
    (hstop : stop < arraylist.size) (hret : IsIndex arraylist ret.1) :
    ∃ ret', arraylistBinaryLoop arraylist pointer start stop ret = some ret' ∧ IsIndex arraylist ret'.1 := by
  rw [arraylistBinaryLoop]
  split
  · rename_i hle
    obtain ⟨rc, hrc⟩ := h.cmpAt pointer (i := (start + stop) / 2) (by omega) (by omega)
    simp only [hrc]
    split
    · exact ⟨_, rfl, .inr ⟨by omega, by omega⟩⟩
    · split
      · refine binaryLoop h pointer h0 (by omega) ?_
        split
        · exact .inl rfl
        · exact hret
      · refine binaryLoop h pointer (by omega) hstop ?_
        split
        · exact .inl rfl
        · exact hret
  · exact ⟨ret, rfl, hret⟩
termination_by (stop + 1 - start).toNat

theorem findIndex (h : ArraylistOk arraylist) (pointer : α) (hpos : 0 < arraylist.size) :
    ∃ ret, arraylistFindIndex arraylist pointer = some ret ∧ IsIndex arraylist ret.1 := by
  obtain ⟨rc, hrc⟩ := h.cmpAt pointer (i := arraylist.size - 1) (by omega) (by omega)
  obtain ⟨rc2, hrc2⟩ := h.cmpAt pointer (i := 0) (by omega) (by omega)
  simp only [arraylistFindIndex, hrc, hrc2, Option.bind_eq_bind, Option.bind_some]
  repeat' split
  all_goals first
    | exact ⟨_, rfl, .inl rfl⟩
    | exact ⟨_, rfl, .inr ⟨by omega, by omega⟩⟩
    | exact h.binaryLoop pointer (by omega) (by omega) (.inl rfl)

theorem firstEqual (h : ArraylistOk arraylist) (pointer : α) {n : Nat} (hn : n ≤ arraylist.size) :
    ∃ start, arraylistFirstEqual arraylist pointer n = some start ∧ 0 ≤ start ∧ start ≤ n := by
  induction n with
  | zero => exact ⟨0, rfl, Int.le_refl 0, Int.le_refl 0⟩
  | succ n ih =>
    obtain ⟨rc, hrc⟩ := h.cmpAt pointer (i := n) (by omega) (by omega)
    rw [arraylistFirstEqual, hrc]
    dsimp only
    split
    · exact ⟨_, rfl, by omega, by omega⟩
    · obtain ⟨start, hstart, h0, hle⟩ := ih (by omega)
      exact ⟨start, hstart, h0, by omega⟩

theorem lastEqual (h : ArraylistOk arraylist) (pointer : α) (stop : Int) (h0 : 0 ≤ stop) :
    ∃ last, arraylistLastEqual arraylist pointer stop = some last := by
  rw [arraylistLastEqual]
  split
  · rename_i hlt
    obtain ⟨rc, hrc⟩ := h.cmpAt pointer h0 hlt
    rw [hrc]
    dsimp only
    split
    · exact ⟨_, rfl⟩
    · exact lastEqual h pointer (stop + 1) (by omega)
  · exact ⟨_, rfl⟩
termination_by (arraylist.size - stop).toNat

theorem found (h : ArraylistOk arraylist) {index : Int} (hindex : IsIndex arraylist index) (indexInsert : Int) :
    ∃ found, arraylistFound arraylist index indexInsert = some (found, index, indexInsert) := by
  rw [arraylistFound]
  split
  · exact ⟨none, rfl⟩
  · obtain ⟨element, helement, -⟩ := h.data_get (i := index) (by omega) (by rcases hindex with hindex | hindex <;> omega)
    exact ⟨some element, by rw [helement, Option.map_some]⟩

theorem standardSearch (h : ArraylistOk arraylist) (pointer : α) {i : Int} (h0 : 0 ≤ i) :
    ∃ found index indexInsert, arraylistStandardSearch arraylist pointer i = some (found, index, indexInsert) := by
  rw [arraylistStandardSearch]
  split
  · rename_i hlt
    obtain ⟨element, helement, -⟩ := h.data_get h0 hlt
    rw [helement]
    dsimp only
    split
    · exact ⟨_, _, _, rfl⟩
    · exact standardSearch h pointer (by omega)
  · exact ⟨_, _, _, rfl⟩
termination_by (arraylist.size - i).toNat

/-- The search reads the elements only. -/
theorem search (h : ArraylistOk arraylist) (pointer : α) :
    ∃ found index indexInsert, arraylistSearch arraylist pointer = some (found, index, indexInsert) ∧
      (arraylist.sorted = true → IsIndex arraylist index) := by
  have hsize := h.size
  rw [arraylistSearch]
  split
  · exact ⟨_, _, _, rfl, fun _ => .inl rfl⟩
  split
  · obtain ⟨ret, hret, hindex⟩ := h.findIndex pointer (by omega)
    rw [arraylistBinarySearch, hret, Option.bind_eq_bind, Option.bind_some]
    dsimp only
    split
    · rename_i hdup
      have hlt : ret.1 < arraylist.size := by rcases hindex with hindex | hindex <;> omega
      obtain ⟨start, hstart, h0, hle⟩ := h.firstEqual pointer (n := ret.1.toNat) (by omega)
      obtain ⟨last, hlast⟩ := h.lastEqual pointer (ret.1 + 1) (by omega)
      have hfirst : IsIndex arraylist start := .inr ⟨h0, by omega⟩
      obtain ⟨found, hfound⟩ := h.found hfirst last
      rw [hstart, hlast, Option.bind_eq_bind, Option.bind_some, Option.bind_some, hfound]
      exact ⟨_, _, _, rfl, fun _ => hfirst⟩
    · obtain ⟨found, hfound⟩ := h.found hindex ret.2
      exact ⟨_, _, _, hfound, fun _ => hindex⟩
  · rename_i hsorted
    obtain ⟨found, index, indexInsert, heq⟩ := h.standardSearch pointer (Int.le_refl 0)
    exact ⟨_, _, _, heq, fun h => absurd h hsorted⟩

/-! ## Changing the array -/

/-- An element is removed, and there is room for another one, unless the only element was in an array of size 1
that is freed. -/
theorem remove (h : ArraylistOk arraylist) {i : Int} (h0 : 0 ≤ i) (hi : i < arraylist.size) :
    ∃ arraylist', arraylistRemove arraylist i = some (arraylist', i) ∧ ArraylistOk arraylist' ∧
      SameList arraylist arraylist' ∧ arraylist'.size = arraylist.size - 1 ∧
      (¬ (arraylist.sizeAlloc = 1 ∧ arraylist.sizeAllocMin = 0) ∧ arraylist'.size + 1 ≤ arraylist'.sizeAlloc ∨
        (arraylist.sizeAlloc = 1 ∧ arraylist.sizeAllocMin = 0) ∧ arraylist'.sizeAlloc = 0 ∧
          arraylist'.allocs = arraylist.allocs) := by
  have hsize := h.size
  have halloc := h.alloc
  have hmin := h.allocMin
  have hlt : i.toNat < (arraylistElements arraylist).length := by omega
  have hlength := List.length_eraseIdx_of_lt hlt
  obtain ⟨element, helement, -⟩ := h.data_get h0 hi
  have hdata := h.data_some (by omega)
  have hnot : ¬ (i < 0 ∨ i ≥ arraylist.size) := by omega
  simp only [arraylistRemove, hnot, if_false, helement, hdata, Option.bind_eq_bind, Option.bind_some, arraylistShrink]
  split
  · refine ⟨_, rfl, ⟨?_, ?_, ?_, hmin⟩, ⟨rfl, rfl, rfl⟩, rfl, .inl ⟨by omega, ?_⟩⟩
    · simp only [arraylistElements, Option.getD_some] at hlength hsize ⊢
      omega
    · simp only; omega
    · simp only [reduceCtorEq, false_iff]; omega
    · simp only; omega
  split
  · refine ⟨_, rfl, ⟨?_, ?_, ?_, hmin⟩, ⟨rfl, rfl, rfl⟩, rfl, .inr ⟨⟨by omega, by omega⟩, rfl, rfl⟩⟩
    · simp only [arraylistElements, Option.getD_none, List.length_nil]
      omega
    · simp only; omega
    · simp only
  split
  · refine ⟨_, rfl, ⟨?_, ?_, ?_, hmin⟩, ⟨rfl, rfl, rfl⟩, rfl, .inl ⟨by omega, ?_⟩⟩
    · simp only [arraylistElements, Option.getD_some] at hlength hsize ⊢
      omega
    · simp only; omega
    · simp only [reduceCtorEq, false_iff]; omega
    · simp only; omega
  · rw [arraylistAlloc_eq]
    cases arraylist.allocs.head?.getD true with
    | false =>
      refine ⟨_, rfl, ⟨?_, ?_, ?_, hmin⟩, ⟨rfl, rfl, rfl⟩, rfl, .inl ⟨by omega, ?_⟩⟩
      · simp only [arraylistElements, Option.getD_some] at hlength hsize ⊢
        omega
      · simp only; omega
      · simp only [reduceCtorEq, false_iff]; omega
      · simp only; omega
    | true =>
      refine ⟨_, rfl, ⟨?_, ?_, ?_, hmin⟩, ⟨rfl, rfl, rfl⟩, rfl, .inl ⟨by omega, ?_⟩⟩
      · simp only [arraylistElements, Option.getD_some, List.length_take] at hlength hsize ⊢
        omega
      · simp only; omega
      · simp only [reduceCtorEq, false_iff]; omega
      · simp only; omega

/-- There is room for one more element, unless there was none and the allocation fails. -/
theorem grow (h : ArraylistOk arraylist) :
    ∃ ok arraylist', arraylistGrow arraylist = (ok, arraylist') ∧ ArraylistOk arraylist' ∧
      arraylistElements arraylist' = arraylistElements arraylist ∧ arraylist'.size = arraylist.size ∧
      ((arraylist.size + 1 ≤ arraylist.sizeAlloc ∨ ¬ AllocFails arraylist) ∧
        ok = true ∧ arraylist'.data = some (arraylistElements arraylist) ∧ arraylist'.size + 1 ≤ arraylist'.sizeAlloc ∨
      (arraylist.size = arraylist.sizeAlloc ∧ AllocFails arraylist) ∧ ok = false) := by
  have hsize := h.size
  have halloc := h.alloc
  by_cases hroom : arraylist.size + 1 ≤ arraylist.sizeAlloc
  · have hdata : arraylist.data = some (arraylistElements arraylist) := by
      cases hdata : arraylist.data with
      | none =>
        have := h.null.mp hdata
        omega
      | some data => rw [arraylistElements, hdata, Option.getD_some]
    exact ⟨true, arraylist, if_pos hroom, h, rfl, rfl, .inl ⟨.inl hroom, rfl, hdata, hroom⟩⟩
  · rw [arraylistGrow, if_neg hroom, arraylistAlloc_eq]
    by_cases hfails : AllocFails arraylist
    · rw [show arraylist.allocs.head?.getD true = false from hfails]
      exact ⟨false, _, rfl, ⟨hsize, halloc, h.null, h.allocMin⟩, rfl, rfl, .inr ⟨⟨by omega, hfails⟩, rfl⟩⟩
    · rw [Bool.of_not_eq_false hfails]
      refine ⟨true, _, rfl, ⟨hsize, ?_, ?_, h.allocMin⟩, rfl, rfl, .inl ⟨.inr hfails, rfl, rfl, ?_⟩⟩
      · simp only
        split <;> omega
      · simp only [reduceCtorEq, false_iff]
        split <;> omega
      · simp only
        split <;> omega

/-- An element is put in the array, or there is no room for it and the elements stay. -/
theorem put (h : ArraylistOk arraylist) (index : Int) (pointer : α) :
    ∃ arraylist' ret, arraylistPut arraylist index pointer = some (arraylist', ret) ∧ ArraylistOk arraylist' ∧
      ((arraylist.size + 1 ≤ arraylist.sizeAlloc ∨ ¬ AllocFails arraylist) ∧ ret ≠ -1 ∨
        (arraylist.size = arraylist.sizeAlloc ∧ AllocFails arraylist) ∧ ret = -1 ∧
          arraylistElements arraylist' = arraylistElements arraylist) := by
  have hsize := h.size
  -- the index in the array
  obtain ⟨i, hi, hle⟩ : ∃ i : Nat, (if index < 0 ∨ index > arraylist.size then arraylist.size else index) = i ∧
      i ≤ (arraylistElements arraylist).length := by
    split
    · exact ⟨_, hsize, le_rfl⟩
    · exact ⟨index.toNat, by omega, by omega⟩
  have hlength := List.length_insertIdx_of_le_length hle pointer
  obtain ⟨ok, l, hgrow, hl, helements, hsize', hok⟩ := h.grow
  simp only [arraylistPut, hi, hgrow]
  rcases hok with ⟨hroom, rfl, hdata, hfits⟩ | ⟨hroom, rfl⟩
  · simp only [hdata, Option.bind_eq_bind, Option.bind_some, Int.toNat_natCast]
    refine ⟨_, _, rfl, ⟨?_, hfits, ?_, hl.allocMin⟩, .inl ⟨hroom, by omega⟩⟩
    · simp only [arraylistElements, Option.getD_some] at hlength hsize hsize' ⊢
      omega
    · have := hl.null
      rw [hdata] at this
      simpa using this
  · exact ⟨_, _, rfl, hl, .inr ⟨hroom, rfl, helements⟩⟩

end ArraylistOk

/-! ## Removing equal elements -/

/-- The only element is equal, and the array of size 1 is freed with it. -/
structure FreesArray (arraylist : Arraylist α) (pointer : α) : Prop where
  sizeAlloc : arraylist.sizeAlloc = 1
  sizeAllocMin : arraylist.sizeAllocMin = 0
  element : ∃ x, arraylistElements arraylist = [x] ∧ arraylist.callbackCmp x pointer = 0

/-- What removing equal elements gives: the same list, or room for one more element, or an array that is freed. -/
def Removed (arraylist : Arraylist α) (pointer : α) (arraylist' : Arraylist α) : Prop :=
  arraylist' = arraylist ∨ arraylist'.size + 1 ≤ arraylist'.sizeAlloc ∨ FreesArray arraylist pointer

namespace ArraylistOk

theorem removed_of_remove (h : ArraylistOk arraylist) {i : Int} (h0 : 0 ≤ i) (hi : i < arraylist.size) {element : α}
    (helement : arraylistData arraylist i = some element) (hequal : arraylist.callbackCmp element pointer = 0) :
    ∃ l, arraylistRemove arraylist i = some (l, i) ∧ ArraylistOk l ∧ SameList arraylist l ∧
      l.size = arraylist.size - 1 ∧ ∀ l', Removed l pointer l' → Removed arraylist pointer l' := by
  have hsize := h.size
  have halloc := h.alloc
  obtain ⟨l, hremove, hl, hsame, hlsize, hroom⟩ := h.remove h0 hi
  refine ⟨l, hremove, hl, hsame, hlsize, fun l' hl' => ?_⟩
  rcases hroom with ⟨-, hroom⟩ | ⟨⟨hone, hmin⟩, hzero, -⟩
  · rcases hl' with rfl | hl' | hl'
    · exact .inr (.inl hroom)
    · exact .inr (.inl hl')
    · have := hl'.sizeAlloc
      obtain ⟨x, hx, -⟩ := hl'.element
      have := hl.size
      rw [hx, List.length_singleton] at this
      omega
  · refine .inr (.inr ⟨hone, hmin, element, ?_, hequal⟩)
    obtain ⟨x, hx⟩ := List.length_eq_one_iff.mp (show (arraylistElements arraylist).length = 1 by omega)
    obtain ⟨element', helement', hget⟩ := h.data_get h0 hi
    rw [helement] at helement'
    cases helement'
    rw [hx, show i.toNat = 0 by omega] at hget
    rw [hx, ← Option.some.inj hget]

theorem removeEqual (h : ArraylistOk arraylist) (pointer : α) {index : Int} (h0 : 0 ≤ index) (rounds : Nat)
    (hrounds : arraylist.size < rounds) :
    ∃ l, arraylistRemoveEqual pointer index rounds arraylist = some l ∧ ArraylistOk l ∧ SameList arraylist l ∧
      Removed arraylist pointer l := by
  induction rounds generalizing arraylist with
  | zero =>
    have := h.size
    omega
  | succ rounds ih =>
    rw [arraylistRemoveEqual]
    split
    · rename_i hi
      obtain ⟨element, helement, -⟩ := h.data_get h0 hi
      rw [helement, Option.bind_eq_bind, Option.bind_some]
      split
      · rename_i hequal
        obtain ⟨l, hremove, hl, hsame, hsize, hremoved⟩ := h.removed_of_remove h0 hi helement hequal
        obtain ⟨l', hl', hok, hsame', hremoved'⟩ := ih hl (by omega)
        rw [hremove, Option.bind_eq_bind, Option.bind_some]
        exact ⟨l', hl', hok, hsame.trans hsame', hremoved l' hremoved'⟩
      · exact ⟨arraylist, rfl, h, ⟨rfl, rfl, rfl⟩, .inl rfl⟩
    · exact ⟨arraylist, rfl, h, ⟨rfl, rfl, rfl⟩, .inl rfl⟩

theorem removeAllEqual (h : ArraylistOk arraylist) (pointer : α) {i : Int} (h0 : 0 ≤ i) (hi : i ≤ arraylist.size)
    (rounds : Nat) (hrounds : arraylist.size < i + rounds) :
    ∃ l, arraylistRemoveAllEqual pointer rounds i arraylist = some l ∧ ArraylistOk l ∧ SameList arraylist l ∧
      Removed arraylist pointer l := by
  induction rounds generalizing arraylist i with
  | zero => omega
  | succ rounds ih =>
    rw [arraylistRemoveAllEqual]
    split
    · rename_i hlt
      obtain ⟨element, helement, -⟩ := h.data_get h0 hlt
      rw [helement, Option.bind_eq_bind, Option.bind_some]
      split
      · rename_i hequal
        obtain ⟨l, hremove, hl, hsame, hsize, hremoved⟩ := h.removed_of_remove h0 hlt helement hequal
        obtain ⟨l', hl', hok, hsame', hremoved'⟩ := ih hl h0 (by omega) (by omega)
        rw [hremove, Option.bind_eq_bind, Option.bind_some]
        exact ⟨l', hl', hok, hsame.trans hsame', hremoved l' hremoved'⟩
      · exact ih h (by omega) (by omega) (by omega)
    · exact ⟨arraylist, rfl, h, ⟨rfl, rfl, rfl⟩, .inl rfl⟩

/-- The only element is removed, and the array is freed. -/
theorem remove_frees (h : ArraylistOk arraylist) (hfrees : FreesArray arraylist pointer) :
    ∃ element l, arraylist.size = 1 ∧ arraylistData arraylist 0 = some element ∧
      arraylist.callbackCmp element pointer = 0 ∧ arraylistRemove arraylist 0 = some (l, 0) ∧ ArraylistOk l ∧
      l.size = 0 ∧ l.sizeAlloc = 0 ∧ l.allocs = arraylist.allocs := by
  obtain ⟨x, hx, hcmp⟩ := hfrees.element
  have hsize : arraylist.size = 1 := by rw [h.size, hx]; rfl
  obtain ⟨element, helement, hget⟩ := h.data_get (Int.le_refl 0) (by omega)
  rw [hx] at hget
  obtain rfl : x = element := Option.some.inj hget
  obtain ⟨l, hremove, hl, -, hlsize, hroom⟩ := h.remove (Int.le_refl 0) (by omega)
  obtain ⟨-, hzero, hallocs⟩ := hroom.resolve_left fun hroom => hroom.1 ⟨hfrees.sizeAlloc, hfrees.sizeAllocMin⟩
  exact ⟨x, l, hsize, helement, hcmp, hremove, hl, by omega, hzero, hallocs⟩

/-! ## Insertion -/

/-- The search in a list of one element. -/
theorem search_singleton {x : α} (h : ArraylistOk arraylist) (hx : arraylistElements arraylist = [x])
    (hsorted : arraylist.sorted = true) (hdup : arraylist.allowDuplicates = false) (pointer : α) :
    ∃ found index indexInsert, arraylistSearch arraylist pointer = some (found, index, indexInsert) ∧
      (index ≥ 0 → arraylist.callbackCmp pointer x = 0) ∧ (arraylist.callbackCmp pointer x = 0 → index = 0) := by
  have hsize : arraylist.size = 1 := by rw [h.size, hx]; rfl
  obtain ⟨element, helement, hget⟩ := h.data_get (Int.le_refl 0) (by omega)
  rw [hx] at hget
  obtain rfl : x = element := Option.some.inj hget
  have hcmp : arraylistCmpAt arraylist pointer (1 - 1) = some (arraylist.callbackCmp pointer x) :=
    congrArg (Option.map _) helement
  rw [arraylistSearch, if_neg (by omega), if_pos hsorted, arraylistBinarySearch, arraylistFindIndex, hsize]
  simp only [hcmp, Option.bind_eq_bind, Option.bind_some, if_true]
  by_cases hzero : arraylist.callbackCmp pointer x = 0
  · refine ⟨some x, 0, 1, ?_, fun _ => hzero, fun _ => rfl⟩
    rw [if_pos hzero, Option.bind_some]
    dsimp only
    rw [if_neg (by rw [hdup]; exact fun h => Bool.noConfusion h.2), arraylistFound, if_neg (by omega)]
    exact congrArg (Option.map _) helement
  · rw [if_neg hzero]
    split
    · exact ⟨none, -1, -1, rfl, fun h => absurd h (by decide), fun h => absurd h hzero⟩
    · exact ⟨none, -1, 0, rfl, fun h => absurd h (by decide), fun h => absurd h hzero⟩

end ArraylistOk

/-- The pointer replaces the only element of a list without duplicates, whose array is freed. -/
structure ReplacesArray (arraylist : Arraylist α) (pointer : α) : Prop where
  allowDuplicates : arraylist.allowDuplicates = false
  frees : FreesArray arraylist pointer
  found : arraylist.sorted = true → ∀ x ∈ arraylistElements arraylist, arraylist.callbackCmp pointer x = 0

/-- There is no memory for the new array. -/
def LosesElement (arraylist : Arraylist α) (pointer : α) : Prop := ReplacesArray arraylist pointer ∧ AllocFails arraylist

namespace ArraylistOk

/-- The insertion in place of the only element. -/
theorem insert_replaces (h : ArraylistOk arraylist) (hreplaces : ReplacesArray arraylist pointer) (index : Int) :
    ∃ l index', ArraylistOk l ∧ l.size = 0 ∧ l.sizeAlloc = 0 ∧ l.allocs = arraylist.allocs ∧
      arraylistInsert arraylist index pointer = arraylistPut l index' pointer := by
  obtain ⟨element, l, hsize, helement, hcmp, hremove, hl, hlsize, hlalloc, hallocs⟩ := h.remove_frees hreplaces.frees
  have hdup : ¬ arraylist.allowDuplicates = true := by
    rw [hreplaces.allowDuplicates]
    exact Bool.false_ne_true
  obtain ⟨x, hx, -⟩ := hreplaces.frees.element
  rw [arraylistInsert, hsize, if_pos hdup]
  split
  · rename_i hsorted
    obtain ⟨found, i, indexInsert, hsearch, -, hzero⟩ := h.search_singleton hx hsorted hreplaces.allowDuplicates pointer
    obtain rfl := hzero (hreplaces.found hsorted x (by rw [hx]; exact List.mem_singleton_self x))
    have hloop : arraylistRemoveEqual pointer 0 (0 + 1 + 1) arraylist = some l := by
      rw [arraylistRemoveEqual, if_pos (by omega), helement, Option.bind_eq_bind, Option.bind_some, if_pos hcmp, hremove,
        Option.bind_eq_bind, Option.bind_some]
      dsimp only
      rw [arraylistRemoveEqual, if_neg (by omega)]
    refine ⟨l, 0, hl, hlsize, hlalloc, hallocs, ?_⟩
    rw [hsearch, Option.bind_eq_bind, Option.bind_some]
    dsimp only
    rw [if_pos ⟨Int.le_refl 0, hdup⟩]
    exact congrArg (Option.bind · _) hloop
  · have hloop : arraylistRemoveAllEqual pointer (0 + 1 + 1) 0 arraylist = some l := by
      rw [arraylistRemoveAllEqual, if_pos (by omega), helement, Option.bind_eq_bind, Option.bind_some, if_pos hcmp,
        hremove, Option.bind_eq_bind, Option.bind_some]
      dsimp only
      rw [arraylistRemoveAllEqual, if_neg (by omega)]
    exact ⟨l, index, hl, hlsize, hlalloc, hallocs, congrArg (Option.bind · _) hloop⟩

/-- The insertion that does not free the array. -/
theorem insert_keeps (h : ArraylistOk arraylist) (hkeeps : ¬ ReplacesArray arraylist pointer) (index : Int) :
    ∃ l index', ArraylistOk l ∧ (l = arraylist ∨ l.size + 1 ≤ l.sizeAlloc) ∧
      arraylistInsert arraylist index pointer = arraylistPut l index' pointer := by
  have hsize := h.size
  rw [arraylistInsert]
  split
  · rename_i hsorted
    obtain ⟨found, i, indexInsert, hsearch, -⟩ := h.search pointer
    rw [hsearch, Option.bind_eq_bind, Option.bind_some]
    dsimp only
    split
    · rename_i hequal
      have hdup : arraylist.allowDuplicates = false := Bool.of_not_eq_true hequal.2
      obtain ⟨l, hloop, hl, -, hremoved⟩ := h.removeEqual pointer hequal.1 (arraylist.size.toNat + 1) (by omega)
      refine ⟨l, i, hl, ?_, congrArg (Option.bind · _) hloop⟩
      rcases hremoved with hremoved | hremoved | hfrees
      · exact .inl hremoved
      · exact .inr hremoved
      · obtain ⟨x, hx, -⟩ := hfrees.element
        obtain ⟨found', i', indexInsert', hsearch', hzero, -⟩ := h.search_singleton hx hsorted hdup pointer
        rw [hsearch] at hsearch'
        cases hsearch'
        refine absurd ⟨hdup, hfrees, fun _ y hy => ?_⟩ hkeeps
        rw [hx, List.mem_singleton] at hy
        rw [hy]
        exact hzero hequal.1
    · exact ⟨arraylist, indexInsert, h, .inl rfl, rfl⟩
  · rename_i hsorted
    split
    · rename_i hequal
      have hdup : arraylist.allowDuplicates = false := Bool.of_not_eq_true hequal
      obtain ⟨l, hloop, hl, -, hremoved⟩ :=
        h.removeAllEqual pointer (Int.le_refl 0) (by omega) (arraylist.size.toNat + 1) (by omega)
      refine ⟨l, index, hl, ?_, congrArg (Option.bind · _) hloop⟩
      rcases hremoved with hremoved | hremoved | hfrees
      · exact .inl hremoved
      · exact .inr hremoved
      · exact absurd ⟨hdup, hfrees, fun h => absurd h hsorted⟩ hkeeps
    · exact ⟨arraylist, index, h, .inl rfl, rfl⟩

/-- An insertion that fails leaves the elements, unless it has freed the array. -/
theorem insert (h : ArraylistOk arraylist) (index : Int) (pointer : α) :
    ∃ l ret, arraylistInsert arraylist index pointer = some (l, ret) ∧ ArraylistOk l ∧
      ((ret = -1 → arraylistElements l = arraylistElements arraylist) ↔ ¬ LosesElement arraylist pointer) := by
  by_cases hreplaces : ReplacesArray arraylist pointer
  · obtain ⟨l, index', hl, hlsize, hlalloc, hallocs, hinsert⟩ := h.insert_replaces hreplaces index
    obtain ⟨l', ret, hput, hl', hret⟩ := hl.put index' pointer
    refine ⟨l', ret, hinsert.trans hput, hl', ?_⟩
    have hfails : AllocFails l ↔ AllocFails arraylist := by rw [AllocFails, AllocFails, hallocs]
    rw [LosesElement, and_iff_right hreplaces, ← hfails]
    rcases hret with ⟨hroom, hret⟩ | ⟨⟨-, hfails⟩, rfl, helements⟩
    · exact iff_of_true (fun h => absurd h hret) (hroom.resolve_left (by omega))
    · refine iff_of_false (fun hsame => ?_) (not_not.mpr hfails)
      have hsame := hsame rfl
      obtain ⟨x, hx, -⟩ := hreplaces.frees.element
      have hempty := hl.size
      rw [← helements, hsame, hx, List.length_singleton] at hempty
      omega
  · obtain ⟨l, index', hl, hkept, hinsert⟩ := h.insert_keeps hreplaces index
    obtain ⟨l', ret, hput, hl', hret⟩ := hl.put index' pointer
    refine ⟨l', ret, hinsert.trans hput, hl', iff_of_true (fun hfails => ?_) fun h => hreplaces h.1⟩
    rcases hret with ⟨-, hret⟩ | ⟨⟨hfull, -⟩, -, helements⟩
    · exact absurd hfails hret
    · rcases hkept with rfl | hroom
      · exact helements
      · omega

/-! ## Clearing -/

end ArraylistOk

/-- The array is freed, and there is no memory for the smallest one. -/
def LosesArray (arraylist : Arraylist α) : Prop :=
  arraylist.size > 0 ∧ arraylist.sizeAlloc ≠ arraylist.sizeAllocMin ∧ arraylist.sizeAllocMin > 0 ∧ AllocFails arraylist

namespace ArraylistOk

theorem clear (h : ArraylistOk arraylist) :
    (¬ LosesArray arraylist ∧ ArraylistOk (arraylistClear arraylist).1) ∨
      LosesArray arraylist ∧ (arraylistClear arraylist).1.sizeAlloc < (arraylistClear arraylist).1.size := by
  have hsize := h.size
  have halloc := h.alloc
  have hmin := h.allocMin
  have hnull := h.null
  rw [arraylistClear]
  dsimp only
  cases hdata : arraylist.data with
  | none =>
    rw [hdata] at hnull
    have hzero := hnull.mp rfl
    refine .inl ⟨fun hloses => ?_, ⟨?_, ?_, ?_, hmin⟩⟩
    · have := hloses.1
      omega
    · simp only [arraylistElements]
      rfl
    · simp only
      omega
    · simp only [hzero]
  | some data =>
    rw [hdata] at hnull
    have hne : arraylist.sizeAlloc ≠ 0 := fun h0 => Option.some_ne_none _ (hnull.mpr h0)
    dsimp only
    split
    · rename_i hresize
      split
      · rename_i hpos
        rw [arraylistAlloc_eq]
        by_cases hfails : AllocFails arraylist
        · rw [show arraylist.allocs.head?.getD true = false from hfails]
          by_cases hempty : arraylist.size > 0
          · exact .inr ⟨⟨hempty, hresize, hpos, hfails⟩, hempty⟩
          · refine .inl ⟨fun hloses => hempty hloses.1, ⟨?_, ?_, ?_, hmin⟩⟩
            · simp only [arraylistElements, Option.getD_none, List.length_nil]
              omega
            · simp only
              omega
            · simp only
        · rw [Bool.of_not_eq_false hfails]
          refine .inl ⟨fun hloses => hfails hloses.2.2.2, ⟨rfl, hmin, ?_, hmin⟩⟩
          simp only [reduceCtorEq, false_iff]
          omega
      · rename_i hpos
        exact .inl ⟨fun hloses => hpos hloses.2.2.1, ⟨rfl, Int.le_refl 0, by simp only, hmin⟩⟩
    · rename_i hresize
      refine .inl ⟨fun hloses => hresize hloses.2.1, ⟨rfl, by simp only; omega, ?_, hmin⟩⟩
      simp only [reduceCtorEq, false_iff]
      exact hne

end ArraylistOk

/-! ## Runs -/

/-- A call with what it returns. -/
def ArraylistOp.call (arraylist : Arraylist α) : ArraylistOp α → Option (Arraylist α × Int)
  | .add pointer => arraylistAdd arraylist pointer
  | .insert index pointer => arraylistInsert arraylist index pointer
  | .remove index => arraylistRemove arraylist index
  | .clear => some ((arraylistClear arraylist).1, if (arraylistClear arraylist).2 then 1 else 0)

def ArraylistOp.inserts : ArraylistOp α → Bool
  | .add _ => true
  | .insert _ _ => true
  | .remove _ => false
  | .clear => false

theorem ArraylistOp.run_eq (arraylist : Arraylist α) (op : ArraylistOp α) :
    op.run arraylist = (op.call arraylist).map Prod.fst := by
  cases op <;> rfl

/-- After the call, the sizes are right, no element that can be read is missing, and an insertion that returns -1
has changed nothing. -/
def CallSurvives (arraylist : Arraylist α) (op : ArraylistOp α) : Prop :=
  ∃ arraylist' ret, op.call arraylist = some (arraylist', ret) ∧
    (0 ≤ arraylist'.size ∧ arraylist'.size ≤ arraylist'.sizeAlloc) ∧
    (arraylist'.data = none ↔ arraylist'.sizeAlloc = 0) ∧
    (∀ i, 0 ≤ i → i < arraylist'.size → (arraylistGet arraylist' i).isSome) ∧
    (∀ pointer, (arraylistSearch arraylist' pointer).isSome) ∧
    (op.inserts = true → ret = -1 → arraylistElements arraylist' = arraylistElements arraylist)

/-- No memory is missing for an array that was freed. -/
def CallSafe (arraylist : Arraylist α) : ArraylistOp α → Prop
  | .add pointer => ¬ LosesElement arraylist pointer
  | .insert _ pointer => ¬ LosesElement arraylist pointer
  | .remove _ => True
  | .clear => ¬ LosesArray arraylist

namespace ArraylistOk

theorem survives (h : ArraylistOk arraylist) :
    (0 ≤ arraylist.size ∧ arraylist.size ≤ arraylist.sizeAlloc) ∧
      (arraylist.data = none ↔ arraylist.sizeAlloc = 0) ∧
      (∀ i, 0 ≤ i → i < arraylist.size → (arraylistGet arraylist i).isSome) ∧
      ∀ pointer, (arraylistSearch arraylist pointer).isSome := by
  have hsize := h.size
  refine ⟨⟨by omega, h.alloc⟩, h.null, fun i h0 hi => h.get h0 hi, fun pointer => ?_⟩
  obtain ⟨found, index, indexInsert, hsearch, -⟩ := h.search pointer
  rw [hsearch]
  rfl

theorem insert_survives (h : ArraylistOk arraylist) (index : Int) (pointer : α) :
    CallSafe arraylist (.insert index pointer) ↔ CallSurvives arraylist (.insert index pointer) := by
  obtain ⟨l, ret, hinsert, hl, hkept⟩ := h.insert index pointer
  refine hkept.symm.trans ⟨fun hkept => ?_, ?_⟩
  · obtain ⟨hsize, hnull, hget, hsearch⟩ := hl.survives
    exact ⟨l, ret, hinsert, hsize, hnull, hget, hsearch, fun _ => hkept⟩
  · rintro ⟨l', ret', hinsert', -, -, -, -, hkept⟩
    obtain ⟨rfl, rfl⟩ := Prod.mk.inj (Option.some.inj (hinsert.symm.trans hinsert'))
    exact hkept rfl

/-- A call survives if and only if it is safe. -/
theorem safe_iff (h : ArraylistOk arraylist) (op : ArraylistOp α) : CallSafe arraylist op ↔ CallSurvives arraylist op := by
  cases op with
  | add pointer => exact h.insert_survives (-1) pointer
  | insert index pointer => exact h.insert_survives index pointer
  | remove index =>
    refine iff_of_true trivial ?_
    by_cases hout : index < 0 ∨ index ≥ arraylist.size
    · obtain ⟨hsize, hnull, hget, hsearch⟩ := h.survives
      exact ⟨arraylist, -1, if_pos hout, hsize, hnull, hget, hsearch, fun h => Bool.noConfusion h⟩
    · obtain ⟨l, hremove, hl, -⟩ := h.remove (i := index) (by omega) (by omega)
      obtain ⟨hsize, hnull, hget, hsearch⟩ := hl.survives
      exact ⟨l, index, hremove, hsize, hnull, hget, hsearch, fun h => Bool.noConfusion h⟩
  | clear =>
    rcases h.clear with ⟨hsafe, hl⟩ | ⟨hloses, hsize⟩
    · obtain ⟨hsize, hnull, hget, hsearch⟩ := hl.survives
      exact iff_of_true hsafe ⟨_, _, rfl, hsize, hnull, hget, hsearch, fun h => Bool.noConfusion h⟩
    · refine iff_of_false (not_not.mpr hloses) ?_
      rintro ⟨l, ret, hclear, ⟨-, hle⟩, -⟩
      obtain ⟨rfl, -⟩ := Prod.mk.inj (Option.some.inj hclear)
      omega

/-- A safe call keeps the invariant. -/
theorem step (h : ArraylistOk arraylist) {op : ArraylistOp α} (hsafe : CallSafe arraylist op)
    {arraylist' : Arraylist α} (hrun : op.run arraylist = some arraylist') : ArraylistOk arraylist' := by
  rw [ArraylistOp.run_eq] at hrun
  obtain ⟨⟨l, ret⟩, hcall, rfl⟩ := Option.map_eq_some_iff.mp hrun
  cases op with
  | add pointer =>
    obtain ⟨l', ret', hinsert, hl, -⟩ := h.insert (-1) pointer
    cases hinsert.symm.trans hcall
    exact hl
  | insert index pointer =>
    obtain ⟨l', ret', hinsert, hl, -⟩ := h.insert index pointer
    cases hinsert.symm.trans hcall
    exact hl
  | remove index =>
    by_cases hout : index < 0 ∨ index ≥ arraylist.size
    · have hremove : arraylistRemove arraylist index = some (arraylist, -1) := if_pos hout
      cases hremove.symm.trans hcall
      exact h
    · obtain ⟨l', hremove, hl, -⟩ := h.remove (i := index) (by omega) (by omega)
      cases hremove.symm.trans hcall
      exact hl
  | clear =>
    cases hcall
    exact (h.clear.resolve_right fun hloses => hsafe hloses.1).2

end ArraylistOk

theorem arraylistNew_ok {initialSize : Int} {sorted allowDuplicates : Bool} {callbackCmp : α → α → Int}
    {allocs : List Bool} (h : arraylistNew initialSize sorted allowDuplicates callbackCmp allocs = some arraylist) :
    ArraylistOk arraylist := by
  rw [arraylistNew] at h
  split at h
  · cases h
  · rename_i hsize
    cases h
    refine ⟨?_, by simp only; omega, ?_, by simp only; omega⟩
    · simp only [arraylistElements]
      split <;> rfl
    · simp only
      split
      · simp only [reduceCtorEq, false_iff]
        omega
      · simp only [true_iff]
        omega

/-- All calls of a run survive, whatever allocations fail, if and only if all are safe. -/
theorem arraylist_alloc_iff {initialSize : Int} {sorted allowDuplicates : Bool} {callbackCmp : α → α → Int}
    {allocs : List Bool} (hnew : arraylistNew initialSize sorted allowDuplicates callbackCmp allocs = some arraylist)
    (ops : List (ArraylistOp α)) :
    (∀ before op after arraylist', ops = before ++ op :: after →
      before.foldlM ArraylistOp.run arraylist = some arraylist' → CallSurvives arraylist' op) ↔
    ∀ before op after arraylist', ops = before ++ op :: after →
      before.foldlM ArraylistOp.run arraylist = some arraylist' → CallSafe arraylist' op := by
  rw [← alongM_iff, ← alongM_iff]
  exact (alongM_congr (fun l op l' h hsafe hrun => ArraylistOk.step h hsafe hrun) (fun l op h => h.safe_iff op)
    (arraylistNew_ok hnew) ops).symm

end

/-- The first element does not come in. -/
theorem arraylist_alloc_iff_empty :
    CallSurvives (α := Int) ⟨0, 0, 0, true, false, none, fun a b => a - b, [], [false]⟩ (.add 5) := by
  refine (@arraylist_alloc_iff Int ⟨0, 0, 0, true, false, none, fun a b => a - b, [], [false]⟩ 0 true false
    (fun a b => a - b) [false] rfl [.add 5]).mpr ?_ [] (.add 5) [] _ rfl rfl
  intro before op after arraylist' heq hrun
  cases before with
  | nil =>
    obtain ⟨rfl, -⟩ := List.cons.inj heq
    cases hrun
    exact fun h => absurd h.1.frees.sizeAlloc (by decide)
  | cons op' before => exact absurd (List.cons.inj heq).2.symm (by simp)

/-- The only element is lost, and a list is cleared but for its size. -/
theorem arraylist_alloc_fails :
    (∃ arraylist arraylist' : Arraylist Int,
      (arraylistNew 0 true false (fun a b => a - b) [true, true, false]).bind
        ([ArraylistOp.add 5, .remove 0, .add 5].foldlM ArraylistOp.run) = some arraylist ∧
      arraylistElements arraylist = [5] ∧ arraylistAdd arraylist 5 = some (arraylist', -1) ∧
      arraylistElements arraylist' = []) ∧
    ∃ arraylist : Arraylist Int,
      (arraylistNew 1 false true (fun a b => a - b) [true, false]).bind
        ([ArraylistOp.add 7, .add 8, .clear].foldlM ArraylistOp.run) = some arraylist ∧
      arraylist.size = 2 ∧ arraylist.sizeAlloc = 0 ∧ arraylistGet arraylist 0 = none := by
  refine ⟨⟨_, _, rfl, rfl, rfl, rfl⟩, ⟨_, rfl, rfl, rfl, rfl⟩⟩

end Wirc

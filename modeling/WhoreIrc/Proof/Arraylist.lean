import Mathlib.Data.List.InsertIdx
import WhoreIrc.Framework.StableSort
import WhoreIrc.Impl.Arraylist

/-!
# Sorted array lists

`Holds arraylist xs`: the array holds the elements `xs`, and memory is not
short. `Parts` says where the comparisons of one element change their sign, and
is all that the loops of the search need (`arraylistBinaryLoop_ok`,
`arraylistFirstEqual_ok`, `arraylistLastEqual_ok`). A sorted list is the stable
sort of the elements that are still in it (`Sorts`), which each call keeps
(`Sorts.insert`, `Sorts.remove`, `Sorts.clear`).
-/

namespace Wirc

open Framework

section

variable {α : Type} {arraylist : Arraylist α}

/-- The elements of the list. -/
def arraylistElements (arraylist : Arraylist α) : List α := arraylist.data.getD []

/-- The array holds the elements `xs`, and the next allocations succeed. -/
structure Holds (arraylist : Arraylist α) (xs : List α) : Prop where
  data : arraylistElements arraylist = xs
  size : arraylist.size = xs.length
  null : arraylist.data = none ↔ arraylist.sizeAlloc = 0
  alloc : arraylist.size ≤ arraylist.sizeAlloc
  allocMin : 0 ≤ arraylist.sizeAllocMin
  allocs : arraylist.allocs = []

variable {xs : List α}

theorem Holds.data_some (h : Holds arraylist xs) (hx : xs ≠ []) : arraylist.data = some xs := by
  have hd := h.data
  rw [arraylistElements] at hd
  cases hdata : arraylist.data with
  | none =>
    rw [hdata] at hd
    exact absurd hd.symm hx
  | some data =>
    rw [hdata] at hd
    exact congrArg some hd

theorem Holds.arraylistData (h : Holds arraylist xs) {i : Nat} (hi : i < xs.length) :
    arraylistData arraylist i = some xs[i] := by
  have hx : xs ≠ [] := List.ne_nil_of_length_pos (Nat.zero_lt_of_lt hi)
  rw [Wirc.arraylistData, if_neg (by omega), h.data_some hx]
  exact List.getElem?_eq_getElem hi

/-! ## Searching -/

/-- Compared with the elements of the array, `pointer` is larger than those
before `lo`, and smaller than those from `hi` on. -/
def Parts (arraylist : Arraylist α) (pointer : α) (lo hi : Int) : Prop :=
  ∀ i, 0 ≤ i → i < arraylist.size →
    ∃ rc, arraylistCmpAt arraylist pointer i = some rc ∧ (0 < rc ↔ i < lo) ∧ (0 ≤ rc ↔ i < hi)

variable {pointer : α} {lo hi : Int}

/-- An index found, or −1 and where the element would be. -/
def FoundAt (lo hi : Int) (ret : Int × Int) : Prop :=
  (lo ≤ ret.1 ∧ ret.1 < hi ∧ ret.2 = ret.1 + 1) ∨ (lo = hi ∧ ret.1 = -1 ∧ ret.2 = lo)

/-- While the loop runs, the place of the element is between `start` and
`stop + 1`. -/
theorem arraylistBinaryLoop_ok (hp : Parts arraylist pointer lo hi) {start stop : Int} {ret : Int × Int}
    (h0 : 0 ≤ start) (hstop : stop < arraylist.size) (hlo : start ≤ lo) (hle : lo ≤ hi) (hhi : hi ≤ stop + 1)
    (hret : stop < start → ret = (-1, lo)) :
    ∃ ret', arraylistBinaryLoop arraylist pointer start stop ret = some ret' ∧ FoundAt lo hi ret' := by
  rw [arraylistBinaryLoop]
  split
  · rename_i hss
    obtain ⟨rc, hrc, hpos, hnonneg⟩ := hp ((start + stop) / 2) (by omega) (by omega)
    simp only [hrc]
    split
    · exact ⟨_, rfl, .inl ⟨by omega, by omega, rfl⟩⟩
    · split
      · refine arraylistBinaryLoop_ok hp h0 (by omega) hlo hle (by omega) fun hend => ?_
        rw [if_pos (by omega)]
        exact congrArg (Prod.mk _) (by omega)
      · refine arraylistBinaryLoop_ok hp (by omega) hstop (by omega) hle hhi fun hend => ?_
        rw [if_pos (by omega)]
        exact congrArg (Prod.mk _) (by omega)
  · rename_i hss
    refine ⟨ret, rfl, .inr ?_⟩
    rw [hret (by omega)]
    exact ⟨by omega, rfl, rfl⟩
termination_by (stop + 1 - start).toNat

/-- Before the label `end`: when the element is larger than all, −1 stands for
the end of the list. -/
theorem arraylistFindIndex_ok (hp : Parts arraylist pointer lo hi) (hsize : 0 < arraylist.size) (h0 : 0 ≤ lo)
    (hle : lo ≤ hi) (hhi : hi ≤ arraylist.size) :
    ∃ ret, arraylistFindIndex arraylist pointer = some ret ∧
      (FoundAt lo hi ret ∨ lo = hi ∧ hi = arraylist.size ∧ ret = (-1, -1)) := by
  obtain ⟨rc, hrc, hpos, hnonneg⟩ := hp (arraylist.size - 1) (by omega) (by omega)
  obtain ⟨rc0, hrc0, hpos0, hnonneg0⟩ := hp 0 (by omega) (by omega)
  simp only [arraylistFindIndex, hrc, hrc0, Option.bind_eq_bind, Option.bind_some]
  split
  · exact ⟨_, rfl, .inl (.inl ⟨by omega, by omega, rfl⟩)⟩
  split
  · exact ⟨_, rfl, .inr ⟨by omega, by omega, rfl⟩⟩
  split
  · exact ⟨_, rfl, .inl (.inr ⟨by omega, rfl, by simp only; omega⟩)⟩
  split
  · exact ⟨_, rfl, .inl (.inl ⟨by omega, by omega, rfl⟩)⟩
  split
  · exact ⟨_, rfl, .inl (.inr ⟨by omega, rfl, by simp only; omega⟩)⟩
  split
  · exact ⟨_, rfl, .inl (.inr ⟨by omega, rfl, by simp only; omega⟩)⟩
  · obtain ⟨ret, hret, hfound⟩ : ∃ ret, arraylistBinaryLoop arraylist pointer (0 + 1) (arraylist.size - 1 - 1)
        (-1, -1) = some ret ∧ FoundAt lo hi ret :=
      arraylistBinaryLoop_ok hp (by omega) (by omega) (by omega) hle (by omega) (fun h => by omega)
    exact ⟨ret, hret, .inl hfound⟩

theorem arraylistFirstEqual_ok (hp : Parts arraylist pointer lo hi) {n : Nat} (h0 : 0 ≤ lo) (hlo : lo ≤ n)
    (hn : n ≤ hi) (hhi : hi ≤ arraylist.size) : arraylistFirstEqual arraylist pointer n = some lo := by
  induction n with
  | zero => exact congrArg some (by omega)
  | succ n ih =>
    obtain ⟨rc, hrc, hpos, hnonneg⟩ := hp n (by omega) (by omega)
    simp only [arraylistFirstEqual, hrc]
    split
    · exact congrArg some (by omega)
    · exact ih (by omega) (by omega)

theorem arraylistLastEqual_ok (hp : Parts arraylist pointer lo hi) {stop : Int} (h0 : 0 ≤ stop) (hlo : lo ≤ stop)
    (hstop : stop ≤ hi) (hhi : hi ≤ arraylist.size) : arraylistLastEqual arraylist pointer stop = some hi := by
  rw [arraylistLastEqual]
  split
  · rename_i hlt
    obtain ⟨rc, hrc, hpos, hnonneg⟩ := hp stop h0 hlt
    simp only [hrc]
    split
    · exact congrArg some (by omega)
    · exact arraylistLastEqual_ok hp (by omega) (by omega) (by omega) hhi
  · exact congrArg some (by omega)
termination_by (arraylist.size - stop).toNat

/-! ## Changing the array -/

/-- What no call changes. -/
structure SameList (arraylist arraylist' : Arraylist α) : Prop where
  sorted : arraylist'.sorted = arraylist.sorted
  allowDuplicates : arraylist'.allowDuplicates = arraylist.allowDuplicates
  callbackCmp : arraylist'.callbackCmp = arraylist.callbackCmp

theorem SameList.trans {l1 l2 l3 : Arraylist α} (h : SameList l1 l2) (h' : SameList l2 l3) : SameList l1 l3 :=
  ⟨h'.sorted.trans h.sorted, h'.allowDuplicates.trans h.allowDuplicates, h'.callbackCmp.trans h.callbackCmp⟩

theorem Holds.grow (h : Holds arraylist xs) :
    ∃ arraylist', arraylistGrow arraylist = (true, arraylist') ∧ Holds arraylist' xs ∧
      arraylist'.data = some xs ∧ arraylist'.size + 1 ≤ arraylist'.sizeAlloc ∧ SameList arraylist arraylist' := by
  have hsize := h.size
  have halloc := h.alloc
  have hdata : arraylist.data.getD [] = xs := h.data
  simp only [arraylistGrow, arraylistAlloc, h.allocs]
  split
  · rename_i hfit
    refine ⟨arraylist, rfl, h, ?_, hfit, ⟨rfl, rfl, rfl⟩⟩
    have hd := h.data
    rw [arraylistElements] at hd
    cases hdata : arraylist.data with
    | none =>
      have := h.null.mp hdata
      omega
    | some data => rw [hdata] at hd; exact congrArg some hd
  · refine ⟨_, rfl, ⟨?_, hsize, ?_, ?_, h.allocMin, rfl⟩, ?_, ?_, ⟨rfl, rfl, rfl⟩⟩
    · simp only [arraylistElements, hdata, Option.getD_some]
    · simp only [reduceCtorEq, false_iff]
      split <;> omega
    · simp only
      split <;> omega
    · simp only [hdata]
    · simp only
      split <;> omega

/-- An element is put at index `k`, where an index that is out of the array
stands for its end. -/
theorem Holds.put (h : Holds arraylist xs) (index : Int) {k : Nat} (hk : k ≤ xs.length)
    (hindex : index = k ∨ k = xs.length ∧ index = -1) (p : α) :
    ∃ arraylist', arraylistPut arraylist index p = some (arraylist', (k : Int)) ∧
      Holds arraylist' (xs.insertIdx k p) ∧ SameList arraylist arraylist' := by
  have hsize := h.size
  obtain ⟨l1, hgrow, h1, hdata, hroom, hsame⟩ := h.grow
  have hidx : (if index < 0 ∨ index > arraylist.size then arraylist.size else index) = k := by
    split <;> omega
  simp only [arraylistPut, hidx, hgrow, hdata, Option.bind_eq_bind, Option.bind_some, Int.toNat_natCast]
  refine ⟨_, rfl, ⟨rfl, ?_, ?_, ?_, h1.allocMin, h1.allocs⟩,
    ⟨hsame.sorted, hsame.allowDuplicates, hsame.callbackCmp⟩⟩
  · simp only [h1.size, List.length_insertIdx_of_le_length hk]
    omega
  · simp only [reduceCtorEq, false_iff]
    have := h1.size
    omega
  · exact hroom

theorem Holds.remove (h : Holds arraylist xs) {k : Nat} (hk : k < xs.length) :
    ∃ arraylist', arraylistRemove arraylist k = some (arraylist', (k : Int)) ∧
      Holds arraylist' (xs.eraseIdx k) ∧ SameList arraylist arraylist' := by
  have hsize := h.size
  have halloc := h.alloc
  have hmin := h.allocMin
  have hlen := List.length_eraseIdx_of_lt hk
  have hdata := h.data_some (List.ne_nil_of_length_pos (Nat.zero_lt_of_lt hk))
  have hin : ¬ ((k : Int) < 0 ∨ (k : Int) ≥ arraylist.size) := by omega
  simp only [arraylistRemove, hin, if_false, h.arraylistData hk, hdata, Option.bind_eq_bind, Option.bind_some,
    Int.toNat_natCast, arraylistShrink, arraylistAlloc, h.allocs]
  split
  · refine ⟨_, rfl, ⟨rfl, ?_, ?_, ?_, hmin, rfl⟩, ⟨rfl, rfl, rfl⟩⟩
    · simp only; omega
    · simp only [reduceCtorEq, false_iff]; omega
    · simp only; omega
  split
  · refine ⟨_, rfl, ⟨?_, ?_, ?_, ?_, hmin, rfl⟩, ⟨rfl, rfl, rfl⟩⟩
    · exact (List.length_eq_zero_iff.mp (by omega)).symm
    · simp only; omega
    · simp only
    · simp only; omega
  split
  · refine ⟨_, rfl, ⟨rfl, ?_, ?_, ?_, hmin, rfl⟩, ⟨rfl, rfl, rfl⟩⟩
    · simp only; omega
    · simp only [reduceCtorEq, false_iff]; omega
    · simp only; omega
  · refine ⟨_, rfl, ⟨?_, ?_, ?_, ?_, hmin, rfl⟩, ⟨rfl, rfl, rfl⟩⟩
    · simp only [arraylistElements, Option.getD_some]
      exact List.take_of_length_le (by omega)
    · simp only; omega
    · simp only [reduceCtorEq, false_iff]; omega
    · simp only; omega

theorem Holds.clear (h : Holds arraylist xs) :
    Holds (arraylistClear arraylist).1 [] ∧ SameList arraylist (arraylistClear arraylist).1 ∧
      (arraylistClear arraylist).2 = true := by
  have hmin := h.allocMin
  have hsize := h.size
  have halloc := h.alloc
  cases hdata : arraylist.data with
  | none =>
    have hnull := h.null.mp hdata
    simp only [arraylistClear, hdata]
    exact ⟨⟨rfl, rfl, by simp [hnull], by simp only; omega, hmin, h.allocs⟩, ⟨rfl, rfl, rfl⟩, trivial⟩
  | some data =>
    have hnull : arraylist.sizeAlloc ≠ 0 := fun h0 => by
      rw [h.null.mpr h0] at hdata
      cases hdata
    simp only [arraylistClear, hdata, arraylistAlloc, h.allocs]
    split
    · split
      · rename_i hpos
        exact ⟨⟨rfl, rfl, by simp; omega, by simp only; omega, hmin, rfl⟩, ⟨rfl, rfl, rfl⟩, rfl⟩
      · exact ⟨⟨rfl, rfl, by simp, by simp, hmin, rfl⟩, ⟨rfl, rfl, rfl⟩, rfl⟩
    · exact ⟨⟨rfl, rfl, by simp; omega, by simp only; omega, hmin, rfl⟩, ⟨rfl, rfl, rfl⟩, rfl⟩

/-! ## Sorted lists -/

/-- The array holds the stable sort of the elements `live`, which are numbered
below `next`. -/
structure Sorts (arraylist : Arraylist α) (live : List (Nat × α)) (next : Nat) : Prop where
  holds : Holds arraylist ((stableSort arraylist.callbackCmp live).map Prod.snd)
  sorted : arraylist.sorted = true
  order : CmpPreorder arraylist.callbackCmp
  arrived : Arrived live
  bound : ∀ x ∈ live, x.1 < next
  unique : arraylist.allowDuplicates = false → live.Pairwise fun x y => arraylist.callbackCmp x.2 y.2 ≠ 0

/-- The numbers of elements smaller than `p`, and equal to it. -/
abbrev lower (arraylist : Arraylist α) (live : List (Nat × α)) (p : α) : Nat :=
  (below arraylist.callbackCmp Prod.snd p (stableSort arraylist.callbackCmp live)).length

abbrev equalCount (arraylist : Arraylist α) (live : List (Nat × α)) (p : α) : Nat :=
  (equals arraylist.callbackCmp Prod.snd p (stableSort arraylist.callbackCmp live)).length

namespace Sorts

variable {live : List (Nat × α)} {next : Nat} (h : Sorts arraylist live next) (p : α)
include h

theorem length_parts :
    (stableSort arraylist.callbackCmp live).length = lower arraylist live p + equalCount arraylist live p +
      (above arraylist.callbackCmp Prod.snd p (stableSort arraylist.callbackCmp live)).length := by
  conv_lhs => rw [← three_parts (k := p) h.order (stableSort_sorted h.order live)]
  rw [List.length_append, List.length_append, Nat.add_assoc]

/-- The part in which the element at index `n` is. -/
theorem parts_get {n : Nat} {x : α}
    (hx : ((stableSort arraylist.callbackCmp live).map Prod.snd)[n]? = some x) :
    (0 < arraylist.callbackCmp p x ↔ n < lower arraylist live p) ∧
      (0 ≤ arraylist.callbackCmp p x ↔ n < lower arraylist live p + equalCount arraylist live p) := by
  obtain ⟨hn, rfl⟩ := List.getElem?_eq_some_iff.mp hx
  rw [List.getElem_map]
  rw [List.length_map] at hn
  exact parts_getElem h.order (stableSort_sorted h.order live) hn

theorem parts :
    Parts arraylist p (lower arraylist live p) (lower arraylist live p + equalCount arraylist live p : Nat) := by
  intro i h0 hi
  obtain ⟨n, rfl⟩ := Int.eq_ofNat_of_zero_le h0
  rw [h.holds.size] at hi
  have hn : n < ((stableSort arraylist.callbackCmp live).map Prod.snd).length := by omega
  obtain ⟨hpos, hnonneg⟩ := h.parts_get p (List.getElem?_eq_getElem hn)
  refine ⟨_, ?_, by rw [hpos]; omega, by rw [hnonneg]; omega⟩
  rw [arraylistCmpAt, h.holds.arraylistData hn, Option.map_some]

/-- Without duplicates, at most one element is equal. -/
theorem equalCount_le (hd : arraylist.allowDuplicates = false) : equalCount arraylist live p ≤ 1 := by
  have hsort : (stableSort arraylist.callbackCmp live).Pairwise fun x y => arraylist.callbackCmp x.2 y.2 ≠ 0 :=
    ((stableSort_perm live).symm.pairwise_iff fun {x y} hxy hyx => hxy (h.order.symm hyx)).mp (h.unique hd)
  have hequal : (equals arraylist.callbackCmp Prod.snd p (stableSort arraylist.callbackCmp live)).Pairwise
      fun x y => arraylist.callbackCmp x.2 y.2 ≠ 0 := hsort.filter _
  have hzero : ∀ x ∈ equals arraylist.callbackCmp Prod.snd p (stableSort arraylist.callbackCmp live),
      arraylist.callbackCmp p x.2 = 0 := fun x hx => zero_of_mem_equals hx
  rw [equalCount]
  generalize equals arraylist.callbackCmp Prod.snd p (stableSort arraylist.callbackCmp live) = E at *
  match E with
  | [] => exact Nat.zero_le _
  | [_] => exact Nat.le_refl _
  | x :: y :: E =>
    have hne : arraylist.callbackCmp x.2 y.2 ≠ 0 := (List.pairwise_cons.mp hequal).1 y (List.mem_cons_self ..)
    have hx := hzero x (List.mem_cons_self ..)
    have hy := hzero y (List.mem_cons_of_mem _ (List.mem_cons_self ..))
    have h1 := h.order.trans x.2 p y.2
    have h2 := h.order.trans y.2 p x.2
    have h3 := h.order.symm hx
    have h4 := h.order.symm hy
    have h5 := h.order.flip y.2 x.2
    omega

/-- The first equal element with its index and the index for insert, or the
place where an equal element would be. -/
theorem search :
    (0 < equalCount arraylist live p ∧
      arraylistSearch arraylist p =
        some (((stableSort arraylist.callbackCmp live).map Prod.snd)[lower arraylist live p]?,
          (lower arraylist live p : Int),
            ((lower arraylist live p + equalCount arraylist live p : Nat) : Int))) ∨
    (equalCount arraylist live p = 0 ∧ ∃ j, arraylistSearch arraylist p = some (none, -1, j) ∧
      (j = lower arraylist live p ∨ (lower arraylist live p : Int) = arraylist.size ∧ j = -1)) := by
  have hlen := h.length_parts p
  have hsize := h.holds.size
  rw [List.length_map] at hsize
  by_cases h0 : arraylist.size = 0
  · refine .inr ⟨by omega, -1, ?_, .inr ⟨by omega, rfl⟩⟩
    rw [arraylistSearch, if_pos h0]
  · obtain ⟨ret, hret, hfound⟩ := arraylistFindIndex_ok (h.parts p) (by omega) (by omega) (by omega) (by omega)
    rw [arraylistSearch, if_neg h0, if_pos h.sorted, arraylistBinarySearch, hret]
    simp only [Option.bind_eq_bind, Option.bind_some]
    have found : 0 < equalCount arraylist live p → arraylistFound arraylist (lower arraylist live p)
        ((lower arraylist live p + equalCount arraylist live p : Nat) : Int) =
        some (((stableSort arraylist.callbackCmp live).map Prod.snd)[lower arraylist live p]?,
          (lower arraylist live p : Int),
          ((lower arraylist live p + equalCount arraylist live p : Nat) : Int)) := fun hpos => by
      have hlt : lower arraylist live p < ((stableSort arraylist.callbackCmp live).map Prod.snd).length := by
        rw [List.length_map]
        omega
      rw [arraylistFound, if_neg (by omega), h.holds.arraylistData hlt, List.getElem?_eq_getElem hlt]
      rfl
    rcases hfound with (⟨hlo, hhi, hins⟩ | ⟨heq, hidx, hins⟩) | ⟨heq, hend, rfl⟩
    · obtain ⟨n, hn⟩ := Int.eq_ofNat_of_zero_le (a := ret.1) (by omega)
      refine .inl ⟨by omega, ?_⟩
      by_cases hdup : arraylist.allowDuplicates = true
      · rw [if_pos ⟨by omega, hdup⟩, hn, Int.toNat_natCast,
          arraylistFirstEqual_ok (h.parts p) (by omega) (by omega) (by omega) (by omega), Option.bind_some,
          arraylistLastEqual_ok (h.parts p) (by omega) (by omega) (by omega) (by omega), Option.bind_some]
        exact found (by omega)
      · have hone := h.equalCount_le p (by simpa using hdup)
        rw [if_neg (fun hc => hdup hc.2), show ret.1 = (lower arraylist live p : Int) by omega,
          show ret.2 = ((lower arraylist live p + equalCount arraylist live p : Nat) : Int) by omega]
        exact found (by omega)
    · refine .inr ⟨by omega, ret.2, ?_, .inl hins⟩
      rw [if_neg (by omega), arraylistFound, if_pos (by omega), hidx]
    · refine .inr ⟨by omega, -1, ?_, .inr ⟨by omega, rfl⟩⟩
      rw [if_neg (by simp), arraylistFound, if_pos (by simp)]

end Sorts

theorem insertIdx_append (A B : List α) (x : α) : (A ++ B).insertIdx A.length x = A ++ x :: B := by
  induction A with
  | nil => rfl
  | cons a A ih => simp [ih]

/-- In a list with distinct numbers, an index is erased with its number. -/
theorem eraseIdx_eq_filter {L : List (Nat × α)} (hL : (L.map Prod.fst).Nodup) {n : Nat} (hn : n < L.length) :
    L.eraseIdx n = L.filter fun y => y.1 ≠ L[n].1 := by
  induction L generalizing n with
  | nil => cases hn
  | cons x L ih =>
    obtain ⟨hx, hL⟩ := List.nodup_cons.mp hL
    cases n with
    | zero =>
      have hne : ∀ y ∈ L, y.1 ≠ x.1 := fun y hy hyx => hx (hyx ▸ List.mem_map_of_mem hy)
      have : L.filter (fun y => y.1 ≠ x.1) = L := List.filter_eq_self.mpr fun y hy => by
        simpa using hne y hy
      simpa using this.symm
    | succ n =>
      have hn' : n < L.length := Nat.lt_of_succ_lt_succ hn
      have hxn : x.1 ≠ L[n].1 := fun heq => hx (heq ▸ List.mem_map_of_mem (List.getElem_mem _))
      simp [ih hL hn', hxn]

/-- The elements after a call that inserts `p`: without duplicates, those that
are equal to it are replaced. -/
def arrive (cmp : α → α → Int) (allowDuplicates : Bool) (live : List (Nat × α)) (next : Nat) (p : α) :
    List (Nat × α) :=
  (if allowDuplicates then live else live.filter fun x => cmp p x.2 ≠ 0) ++ [(next, p)]

/-- The elements after a call that removes index `i`. -/
def leave (cmp : α → α → Int) (live : List (Nat × α)) (i : Int) : List (Nat × α) :=
  match if i < 0 then none else (stableSort cmp live)[i.toNat]? with
  | some x => live.filter fun y => y.1 ≠ x.1
  | none => live

namespace Sorts

variable {live : List (Nat × α)} {next : Nat} (h : Sorts arraylist live next)
include h

/-- Where the new element is in the stable sort. -/
theorem stableSort_arrive (p : α) :
    stableSort arraylist.callbackCmp (arrive arraylist.callbackCmp arraylist.allowDuplicates live next p) =
      (if arraylist.allowDuplicates then
        below arraylist.callbackCmp Prod.snd p (stableSort arraylist.callbackCmp live) ++
          equals arraylist.callbackCmp Prod.snd p (stableSort arraylist.callbackCmp live)
        else below arraylist.callbackCmp Prod.snd p (stableSort arraylist.callbackCmp live)) ++
      (next, p) :: above arraylist.callbackCmp Prod.snd p (stableSort arraylist.callbackCmp live) := by
  have hsorted := stableSort_sorted h.order live
  rw [arrive]
  split
  · refine stableSort_insert h.order h.arrived h.bound ?_ (fun x hx => ?_) fun x hx => neg_of_mem_above hx
    · rw [List.append_assoc, three_parts h.order hsorted]
    · rcases List.mem_append.mp hx with hx | hx
      · exact Int.le_of_lt (pos_of_mem_below hx)
      · exact Int.le_of_eq (zero_of_mem_equals hx).symm
  · refine stableSort_insert h.order (h.arrived.filter _) (fun x hx => h.bound x (List.mem_filter.mp hx).1) ?_
      (fun x hx => Int.le_of_lt (pos_of_mem_below hx)) fun x hx => neg_of_mem_above hx
    rw [← stableSort_filter_of h.order h.arrived, below_append_above h.order hsorted]

theorem arrived_arrive (p : α) :
    Arrived (arrive arraylist.callbackCmp arraylist.allowDuplicates live next p) ∧
    (∀ x ∈ arrive arraylist.callbackCmp arraylist.allowDuplicates live next p, x.1 < next + 1) ∧
    (arraylist.allowDuplicates = false →
      (arrive arraylist.callbackCmp arraylist.allowDuplicates live next p).Pairwise
        fun x y => arraylist.callbackCmp x.2 y.2 ≠ 0) := by
  have hsub : (if arraylist.allowDuplicates then live
      else live.filter fun x => arraylist.callbackCmp p x.2 ≠ 0).Sublist live := by
    split
    · exact List.Sublist.refl _
    · exact List.filter_sublist
  refine ⟨?_, fun x hx => ?_, fun hd => ?_⟩
  · refine List.pairwise_append.mpr ⟨h.arrived.sublist hsub, List.pairwise_singleton .., fun x hx y hy => ?_⟩
    rw [List.mem_singleton.mp hy]
    exact h.bound x (hsub.subset hx)
  · rcases List.mem_append.mp hx with hx | hx
    · exact Nat.lt_succ_of_lt (h.bound x (hsub.subset hx))
    · rw [List.mem_singleton.mp hx]
      exact Nat.lt_succ_self _
  · refine List.pairwise_append.mpr ⟨(h.unique hd).sublist hsub, List.pairwise_singleton .., fun x hx y hy => ?_⟩
    rw [hd, if_neg Bool.false_ne_true, List.mem_filter] at hx
    rw [List.mem_singleton.mp hy]
    exact fun hxp => (by simpa using hx.2 : arraylist.callbackCmp p x.2 ≠ 0) (h.order.symm hxp)

/-- A list that holds the elements of the stable sort after the call. -/
theorem of_holds {arraylist' : Arraylist α} (p : α) (hsame : SameList arraylist arraylist')
    (hh : Holds arraylist' ((stableSort arraylist.callbackCmp
      (arrive arraylist.callbackCmp arraylist.allowDuplicates live next p)).map Prod.snd)) :
    Sorts arraylist' (arrive arraylist.callbackCmp arraylist.allowDuplicates live next p) (next + 1) := by
  obtain ⟨harr, hbound, huniq⟩ := h.arrived_arrive p
  refine ⟨?_, hsame.sorted.trans h.sorted, ?_, harr, hbound, ?_⟩
  · rwa [hsame.callbackCmp]
  · rw [hsame.callbackCmp]
    exact h.order
  · rw [hsame.callbackCmp, hsame.allowDuplicates]
    exact huniq

/-- The loop on the equal elements removes the only one. -/
theorem removeEqual (p : α) (hd : arraylist.allowDuplicates = false) (hpos : 0 < equalCount arraylist live p) :
    ∃ arraylist', arraylistRemoveEqual p (lower arraylist live p) (arraylist.size.toNat + 1) arraylist =
        some arraylist' ∧
      Holds arraylist' ((below arraylist.callbackCmp Prod.snd p (stableSort arraylist.callbackCmp live) ++
        above arraylist.callbackCmp Prod.snd p (stableSort arraylist.callbackCmp live)).map Prod.snd) ∧
      SameList arraylist arraylist' := by
  have hone := h.equalCount_le p hd
  have hlen := h.length_parts p
  have hparts := three_parts (k := p) h.order (stableSort_sorted h.order live)
  have hholds := h.holds
  have hequal : ∀ x ∈ equals arraylist.callbackCmp Prod.snd p (stableSort arraylist.callbackCmp live),
      arraylist.callbackCmp p x.2 = 0 := fun x hx => zero_of_mem_equals hx
  have habove : ∀ x ∈ above arraylist.callbackCmp Prod.snd p (stableSort arraylist.callbackCmp live),
      arraylist.callbackCmp p x.2 < 0 := fun x hx => neg_of_mem_above hx
  simp only [lower, equalCount] at *
  generalize below arraylist.callbackCmp Prod.snd p (stableSort arraylist.callbackCmp live) = A at *
  generalize equals arraylist.callbackCmp Prod.snd p (stableSort arraylist.callbackCmp live) = E at *
  generalize above arraylist.callbackCmp Prod.snd p (stableSort arraylist.callbackCmp live) = B at *
  obtain ⟨e, rfl⟩ := List.length_eq_one_iff.mp (Nat.le_antisymm hone hpos)
  rw [← hparts] at hholds
  have hsize := hholds.size
  simp only [List.length_map, List.length_append, List.length_singleton] at hsize
  have hlt : A.length < ((A ++ ([e] ++ B)).map Prod.snd).length := by
    simp only [List.length_map, List.length_append, List.length_singleton]
    omega
  have hget : ((A ++ ([e] ++ B)).map Prod.snd)[A.length] = e.2 := by simp
  have herase : ((A ++ ([e] ++ B)).map Prod.snd).eraseIdx A.length = (A ++ B).map Prod.snd := by
    rw [List.eraseIdx_map, List.eraseIdx_append_of_length_le (Nat.le_refl _), Nat.sub_self]
    rfl
  obtain ⟨l1, hremove, h1, hsame⟩ := hholds.remove hlt
  rw [herase] at h1
  refine ⟨l1, ?_, h1, hsame⟩
  obtain ⟨rounds, hrounds⟩ : ∃ rounds, arraylist.size.toNat + 1 = rounds + 2 :=
    ⟨arraylist.size.toNat - 1, by omega⟩
  have he : arraylist.callbackCmp e.2 p = 0 := h.order.symm (hequal e (List.mem_singleton_self _))
  rw [hrounds, arraylistRemoveEqual, if_pos (by omega), hholds.arraylistData hlt, hget]
  simp only [Option.bind_eq_bind, Option.bind_some, he, if_true, hremove]
  rw [arraylistRemoveEqual]
  split
  · rename_i hin
    have hsize1 := h1.size
    have hlt1 : A.length < ((A ++ B).map Prod.snd).length := by omega
    have hB : ((A ++ B).map Prod.snd)[A.length] ∈ B.map Prod.snd := by
      simp only [List.map_append, List.length_map, List.length_append] at hlt1 ⊢
      rw [List.getElem_append_right (by simp)]
      exact List.getElem_mem _
    obtain ⟨x, hx, hxe⟩ := List.mem_map.mp hB
    have hne : arraylist.callbackCmp x.2 p ≠ 0 := by
      have := habove x hx
      have := h.order.flip x.2 p
      omega
    rw [h1.arraylistData hlt1, ← hxe]
    simp only [Option.bind_eq_bind, Option.bind_some, hsame.callbackCmp, hne, if_false]
  · rfl

/-- Where all elements stay, the new one is put after the equal ones. -/
theorem put (p : α) {j : Int} (hstay : arraylist.allowDuplicates = true ∨ equalCount arraylist live p = 0)
    (hj : j = (lower arraylist live p + equalCount arraylist live p : Nat) ∨
      ((lower arraylist live p + equalCount arraylist live p : Nat) : Int) = arraylist.size ∧ j = -1) :
    ∃ arraylist', arraylistPut arraylist j p =
        some (arraylist', ((lower arraylist live p + equalCount arraylist live p : Nat) : Int)) ∧
      Sorts arraylist' (arrive arraylist.callbackCmp arraylist.allowDuplicates live next p) (next + 1) ∧
      SameList arraylist arraylist' := by
  have hsize := h.holds.size
  have hlen := h.length_parts p
  have harrive := h.stableSort_arrive p
  have hparts := three_parts (k := p) h.order (stableSort_sorted h.order live)
  rw [List.length_map] at hsize
  obtain ⟨l1, hput, h1, hsame⟩ := h.holds.put j
    (k := lower arraylist live p + equalCount arraylist live p) (by rw [List.length_map]; omega)
    (by rw [List.length_map]; omega) p
  refine ⟨l1, hput, h.of_holds p hsame ?_, hsame⟩
  rw [harrive]
  simp only [lower, equalCount] at *
  generalize below arraylist.callbackCmp Prod.snd p (stableSort arraylist.callbackCmp live) = A at *
  generalize equals arraylist.callbackCmp Prod.snd p (stableSort arraylist.callbackCmp live) = E at *
  generalize above arraylist.callbackCmp Prod.snd p (stableSort arraylist.callbackCmp live) = B at *
  have hinsert : ((stableSort arraylist.callbackCmp live).map Prod.snd).insertIdx (A.length + E.length) p =
      ((A ++ E) ++ (next, p) :: B).map Prod.snd := by
    rw [← insertIdx_append, List.map_insertIdx, List.length_append, List.append_assoc, hparts]
  rw [hinsert] at h1
  split
  · exact h1
  · rename_i hd
    obtain rfl : E = [] := List.length_eq_zero_iff.mp (hstay.resolve_left hd)
    rwa [List.append_nil] at h1

/-- The element is put after the equal ones, or in their place. -/
theorem insert (index : Int) (p : α) :
    ∃ arraylist', arraylistInsert arraylist index p =
        some (arraylist', ((if arraylist.allowDuplicates then lower arraylist live p + equalCount arraylist live p
          else lower arraylist live p : Nat) : Int)) ∧
      Sorts arraylist' (arrive arraylist.callbackCmp arraylist.allowDuplicates live next p) (next + 1) ∧
      SameList arraylist arraylist' := by
  rw [arraylistInsert, if_pos h.sorted]
  rcases h.search p with ⟨hpos, hsearch⟩ | ⟨hzero, j, hsearch, hj⟩
  · simp only [hsearch, Option.bind_eq_bind, Option.bind_some]
    by_cases hd : arraylist.allowDuplicates = true
    · rw [if_neg (fun hc => hc.2 hd), if_pos hd]
      exact h.put p (.inl hd) (.inl rfl)
    · obtain ⟨l1, hremove, h1, hsame⟩ := h.removeEqual p (by simpa using hd) hpos
      have hk : lower arraylist live p ≤ ((below arraylist.callbackCmp Prod.snd p
          (stableSort arraylist.callbackCmp live) ++ above arraylist.callbackCmp Prod.snd p
          (stableSort arraylist.callbackCmp live)).map Prod.snd).length := by
        rw [List.length_map, List.length_append]
        exact Nat.le_add_right ..
      obtain ⟨l2, hput, h2, hsame2⟩ := h1.put _ hk (.inl rfl) p
      rw [if_pos ⟨by omega, hd⟩, if_neg hd, hremove, Option.bind_some]
      refine ⟨l2, hput, h.of_holds p (hsame.trans hsame2) ?_, hsame.trans hsame2⟩
      rw [h.stableSort_arrive p, if_neg hd]
      have hinsert := List.map_insertIdx (Prod.snd : Nat × α → α)
        (below arraylist.callbackCmp Prod.snd p (stableSort arraylist.callbackCmp live) ++
          above arraylist.callbackCmp Prod.snd p (stableSort arraylist.callbackCmp live))
        (lower arraylist live p) (next, p)
      rw [← hinsert, insertIdx_append] at h2
      exact h2
  · simp only [hsearch, Option.bind_eq_bind, Option.bind_some]
    rw [if_neg (fun hc => by omega)]
    have hput := h.put p (j := j) (.inr hzero) (by rw [hzero, Nat.add_zero]; exact hj)
    rw [hzero, Nat.add_zero] at hput
    rw [hzero, Nat.add_zero, ite_self]
    exact hput

theorem remove (i : Int) :
    ∃ arraylist' k, arraylistRemove arraylist i = some (arraylist', k) ∧
      Sorts arraylist' (leave arraylist.callbackCmp live i) next ∧ SameList arraylist arraylist' := by
  have hsize := h.holds.size
  rw [List.length_map] at hsize
  by_cases hi : i < 0 ∨ i ≥ arraylist.size
  · refine ⟨arraylist, -1, by rw [arraylistRemove, if_pos hi], ?_, ⟨rfl, rfl, rfl⟩⟩
    have hleave : leave arraylist.callbackCmp live i = live := by
      rw [leave]
      split
      · rename_i x hx
        split at hx
        · cases hx
        · obtain ⟨hlt, -⟩ := List.getElem?_eq_some_iff.mp hx
          omega
      · rfl
    rw [hleave]
    exact h
  · obtain ⟨n, rfl⟩ := Int.eq_ofNat_of_zero_le (a := i) (by omega)
    have hn : n < (stableSort arraylist.callbackCmp live).length := by omega
    have hids : ((stableSort arraylist.callbackCmp live).map Prod.fst).Nodup :=
      (((stableSort_perm live).map Prod.fst).nodup_iff).mpr
        (List.pairwise_map.mpr (h.arrived.imp fun hxy => Nat.ne_of_lt hxy))
    obtain ⟨l1, hremove, h1, hsame⟩ := h.holds.remove (k := n) (by rwa [List.length_map])
    refine ⟨l1, n, hremove, ?_, hsame⟩
    have hleave : leave arraylist.callbackCmp live n =
        live.filter fun y => y.1 ≠ ((stableSort arraylist.callbackCmp live)[n]).1 := by
      rw [leave, if_neg (by omega), Int.toNat_natCast, List.getElem?_eq_getElem hn]
    rw [hleave]
    refine ⟨?_, hsame.sorted.trans h.sorted, ?_, h.arrived.filter _,
      fun x hx => h.bound x (List.mem_filter.mp hx).1, fun hd => ?_⟩
    · rw [hsame.callbackCmp, ← stableSort_filter_of h.order h.arrived, ← eraseIdx_eq_filter hids hn,
        ← List.eraseIdx_map]
      exact h1
    · rw [hsame.callbackCmp]
      exact h.order
    · rw [hsame.allowDuplicates] at hd
      rw [hsame.callbackCmp]
      exact (h.unique hd).filter _

theorem clear : Sorts (arraylistClear arraylist).1 [] next ∧ SameList arraylist (arraylistClear arraylist).1 := by
  obtain ⟨h1, hsame, -⟩ := h.holds.clear
  refine ⟨⟨?_, hsame.sorted.trans h.sorted, ?_, List.Pairwise.nil, fun x hx => (nomatch hx),
    fun _ => List.Pairwise.nil⟩, hsame⟩
  · rw [stableSort_nil]
    exact h1
  · rw [hsame.callbackCmp]
    exact h.order

end Sorts

end

/-! ## Runs -/

/-- A call on a list. -/
inductive ArraylistOp (α : Type)
  | add (pointer : α)
  | insert (index : Int) (pointer : α)
  | remove (index : Int)
  | clear

section

variable {α : Type}

/-- The call on the list of the code. -/
def ArraylistOp.run (arraylist : Arraylist α) : ArraylistOp α → Option (Arraylist α)
  | .add pointer => (arraylistAdd arraylist pointer).map Prod.fst
  | .insert index pointer => (arraylistInsert arraylist index pointer).map Prod.fst
  | .remove index => (arraylistRemove arraylist index).map Prod.fst
  | .clear => some (arraylistClear arraylist).1

/-- The call on the elements that were inserted and not removed, in the order
of their arrival, and the number of the next one. -/
def ArraylistOp.apply (cmp : α → α → Int) (allowDuplicates : Bool) (s : List (Nat × α) × Nat) :
    ArraylistOp α → List (Nat × α) × Nat
  | .add pointer => (arrive cmp allowDuplicates s.1 s.2 pointer, s.2 + 1)
  | .insert _ pointer => (arrive cmp allowDuplicates s.1 s.2 pointer, s.2 + 1)
  | .remove index => (leave cmp s.1 index, s.2)
  | .clear => ([], s.2)

/-- The elements that are in a list after some calls, sorted. -/
def sortedElements (cmp : α → α → Int) (allowDuplicates : Bool) (ops : List (ArraylistOp α)) : List α :=
  (stableSort cmp (ops.foldl (ArraylistOp.apply cmp allowDuplicates) ([], 0)).1).map Prod.snd

variable {arraylist : Arraylist α} {s : List (Nat × α) × Nat}

theorem Sorts.step (h : Sorts arraylist s.1 s.2) (op : ArraylistOp α) :
    ∃ arraylist', op.run arraylist = some arraylist' ∧ SameList arraylist arraylist' ∧
      Sorts arraylist' (op.apply arraylist.callbackCmp arraylist.allowDuplicates s).1
        (op.apply arraylist.callbackCmp arraylist.allowDuplicates s).2 := by
  cases op with
  | add pointer =>
    obtain ⟨l1, hinsert, h1, hsame⟩ := h.insert (-1) pointer
    exact ⟨l1, by rw [ArraylistOp.run, arraylistAdd, hinsert]; rfl, hsame, h1⟩
  | insert index pointer =>
    obtain ⟨l1, hinsert, h1, hsame⟩ := h.insert index pointer
    exact ⟨l1, by rw [ArraylistOp.run, hinsert]; rfl, hsame, h1⟩
  | remove index =>
    obtain ⟨l1, k, hremove, h1, hsame⟩ := h.remove index
    exact ⟨l1, by rw [ArraylistOp.run, hremove]; rfl, hsame, h1⟩
  | clear => exact ⟨_, rfl, h.clear.2, h.clear.1⟩

theorem Sorts.run (h : Sorts arraylist s.1 s.2) (ops : List (ArraylistOp α)) :
    ∃ arraylist', ops.foldlM ArraylistOp.run arraylist = some arraylist' ∧ SameList arraylist arraylist' ∧
      Sorts arraylist'
        (ops.foldl (ArraylistOp.apply arraylist.callbackCmp arraylist.allowDuplicates) s).1
        (ops.foldl (ArraylistOp.apply arraylist.callbackCmp arraylist.allowDuplicates) s).2 := by
  induction ops generalizing arraylist s with
  | nil => exact ⟨arraylist, rfl, ⟨rfl, rfl, rfl⟩, h⟩
  | cons op ops ih =>
    obtain ⟨l1, hrun, hsame, h1⟩ := h.step op
    obtain ⟨l2, hruns, hsame2, h2⟩ := ih h1
    rw [hsame.callbackCmp, hsame.allowDuplicates] at h2
    refine ⟨l2, ?_, hsame.trans hsame2, h2⟩
    rw [List.foldlM_cons, hrun]
    exact hruns

/-- `found` is the first element of `xs` that is equal to `p`, at `index`, or
there is none. -/
def FindsFirst (cmp : α → α → Int) (xs : List α) (p : α) (found : Option α) (index : Int) : Prop :=
  (found = none ∧ index = -1 ∧ ∀ x ∈ xs, cmp p x ≠ 0) ∨
    ∃ n x, index = (n : Nat) ∧ found = some x ∧ xs[n]? = some x ∧ cmp p x = 0 ∧
      ∀ m < n, ∀ y, xs[m]? = some y → cmp p y ≠ 0

/-- The index that `arraylist_insert` uses, from what the search returns: the
element found is replaced in a list without duplicates, and −1 stands for the
end. -/
def insertPlace (arraylist : Arraylist α) (index indexInsert : Int) : Int :=
  if index ≥ 0 ∧ ¬ arraylist.allowDuplicates then index
  else if indexInsert = -1 then arraylist.size
  else indexInsert

theorem Sorts.findsFirst {live : List (Nat × α)} {next : Nat} (h : Sorts arraylist live next) (p : α) :
    ∃ found index indexInsert, arraylistSearch arraylist p = some (found, index, indexInsert) ∧
      FindsFirst arraylist.callbackCmp ((stableSort arraylist.callbackCmp live).map Prod.snd) p found index ∧
      insertPlace arraylist index indexInsert =
        ((if arraylist.allowDuplicates then lower arraylist live p + equalCount arraylist live p
          else lower arraylist live p : Nat) : Int) := by
  have hlen := h.length_parts p
  rcases h.search p with ⟨hpos, hsearch⟩ | ⟨hzero, j, hsearch, hj⟩
  · refine ⟨_, _, _, hsearch, .inr ?_, ?_⟩
    · have hlt : lower arraylist live p < ((stableSort arraylist.callbackCmp live).map Prod.snd).length := by
        rw [List.length_map]
        omega
      have hget := List.getElem?_eq_getElem hlt
      obtain ⟨h1, h2⟩ := h.parts_get p hget
      refine ⟨_, _, rfl, hget, hget, by omega, fun m hm y hy => ?_⟩
      have := (h.parts_get p hy).1
      omega
    · rw [insertPlace]
      by_cases hd : arraylist.allowDuplicates = true
      · rw [if_neg (fun hc => hc.2 hd), if_neg (by omega), if_pos hd]
      · rw [if_pos ⟨by omega, hd⟩, if_neg hd]
  · refine ⟨_, _, _, hsearch, .inl ⟨rfl, rfl, fun x hx => ?_⟩, ?_⟩
    · obtain ⟨n, hn⟩ := List.getElem?_of_mem hx
      obtain ⟨h1, h2⟩ := h.parts_get p hn
      omega
    · rw [insertPlace, if_neg (fun hc => by omega), hzero, Nat.add_zero, ite_self]
      split <;> omega

/-- After any calls on a new sorted list, the list is the stable sort of the
elements that were inserted and not removed (without duplicates, equal ones are
replaced). An insertion returns the index of the new element, which follows
from what a search for it returns. -/
theorem arraylist_sorted_run {cmp : α → α → Int} (hcmp : CmpPreorder cmp) (allowDuplicates : Bool)
    {initialSize : Int} (hsize : 0 ≤ initialSize) (ops : List (ArraylistOp α)) :
    ∃ arraylist0 arraylist, arraylistNew initialSize true allowDuplicates cmp [] = some arraylist0 ∧
      ops.foldlM ArraylistOp.run arraylist0 = some arraylist ∧
      arraylistElements arraylist = sortedElements cmp allowDuplicates ops ∧
      arraylist.size = (sortedElements cmp allowDuplicates ops).length ∧
      (sortedElements cmp allowDuplicates ops).Pairwise (fun x y => cmp x y ≤ 0) ∧
      (allowDuplicates = false → (sortedElements cmp allowDuplicates ops).Pairwise fun x y => cmp x y ≠ 0) ∧
      ∀ i p, ∃ found index indexInsert arraylist', ∃ k : Nat,
        arraylistSearch arraylist p = some (found, index, indexInsert) ∧
        FindsFirst cmp (sortedElements cmp allowDuplicates ops) p found index ∧
        arraylistInsert arraylist i p = some (arraylist', (k : Int)) ∧
        insertPlace arraylist index indexInsert = k ∧ (arraylistElements arraylist')[k]? = some p := by
  have hnew : ∃ arraylist0, arraylistNew initialSize true allowDuplicates cmp [] = some arraylist0 ∧
      arraylist0.callbackCmp = cmp ∧ arraylist0.allowDuplicates = allowDuplicates ∧
      Sorts arraylist0 [] 0 := by
    refine ⟨_, by rw [arraylistNew, if_neg (by omega)], rfl, rfl, ⟨?_, rfl, hcmp, List.Pairwise.nil,
      fun x hx => (nomatch hx), fun _ => List.Pairwise.nil⟩⟩
    rw [stableSort_nil]
    refine ⟨?_, rfl, ?_, hsize, hsize, rfl⟩
    · simp only [arraylistElements]
      split <;> rfl
    · simp only
      split <;> simp <;> omega
  obtain ⟨arraylist0, hnew, rfl, rfl, h0⟩ := hnew
  obtain ⟨arraylist, hrun, hsame, h⟩ := Sorts.run (s := ([], 0)) h0 ops
  have helements : arraylistElements arraylist =
      sortedElements arraylist0.callbackCmp arraylist0.allowDuplicates ops := by
    rw [h.holds.data, hsame.callbackCmp]
    rfl
  refine ⟨arraylist0, arraylist, hnew, hrun, helements, ?_, ?_, ?_, fun i p => ?_⟩
  · rw [← helements, h.holds.data, h.holds.size]
  · exact List.pairwise_map.mpr (stableSort_sorted hcmp _)
  · intro hd
    have hd' : arraylist.allowDuplicates = false := hsame.allowDuplicates.trans hd
    have huniq := h.unique hd'
    rw [hsame.callbackCmp] at huniq
    refine List.pairwise_map.mpr (((stableSort_perm _).symm.pairwise_iff fun {x y} hxy hyx => ?_).mp huniq)
    exact hxy (hcmp.symm hyx)
  · obtain ⟨found, index, indexInsert, hsearch, hfinds, hplace⟩ := h.findsFirst p
    obtain ⟨l1, hinsert, h1, hsame1⟩ := h.insert i p
    rw [hsame.callbackCmp] at hfinds
    refine ⟨found, index, indexInsert, l1, _, hsearch, hfinds, hinsert, hplace, ?_⟩
    rw [h1.holds.data, hsame1.callbackCmp, h.stableSort_arrive p]
    by_cases hd : arraylist.allowDuplicates = true
    · simp [hd]
    · simp [hd]

end

theorem sub_preorder : CmpPreorder fun a b : Int => a - b :=
  ⟨fun a b => by omega, fun a b c => by omega⟩

theorem arraylist_sorted_run_numbers :
    ∃ arraylist0 arraylist, arraylistNew 2 true true (fun a b : Int => a - b) [] = some arraylist0 ∧
      [ArraylistOp.add 7, .insert 0 3, .add 7, .remove 0].foldlM ArraylistOp.run arraylist0 = some arraylist ∧
      (arraylistElements arraylist).Pairwise (fun a b => a - b ≤ 0) := by
  obtain ⟨arraylist0, arraylist, hnew, hrun, helements, -, hsorted, -⟩ :=
    arraylist_sorted_run sub_preorder true (by decide : (0 : Int) ≤ 2)
      [ArraylistOp.add 7, .insert 0 3, .add 7, .remove 0]
  exact ⟨arraylist0, arraylist, hnew, hrun, helements ▸ hsorted⟩

/-- Without duplicates, the index for insert that the search returns with an
element is not the index that the insertion uses. -/
theorem arraylistSearch_index_fails :
    ¬ ∀ (cmp : Int → Int → Int) (allowDuplicates : Bool) (ops : List (ArraylistOp Int))
        (arraylist : Arraylist Int) (p : Int), CmpPreorder cmp →
      (arraylistNew 0 true allowDuplicates cmp []).bind (ops.foldlM ArraylistOp.run) = some arraylist →
      ∃ found index k, arraylistSearch arraylist p = some (found, index, k) ∧
        (arraylistInsert arraylist (-1) p).map Prod.snd = some k := by
  intro h
  obtain ⟨found, index, k, hsearch, hinsert⟩ := h (fun a b => a - b) false [.add 5]
    ⟨1, 2, 0, true, false, some [5], fun a b => a - b, [], []⟩ 5 sub_preorder rfl
  have hsearch' : (some 5, 0, 1) = (found, index, k) := Option.some.inj hsearch
  have hinsert' : (0 : Int) = k := Option.some.inj hinsert
  cases hsearch'
  cases hinsert'

end Wirc

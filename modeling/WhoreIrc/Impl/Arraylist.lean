import Mathlib.Data.List.Basic

/-!
# Array lists (`core/wee-arraylist.c`)

`data` is the array of the elements, without the entries at `size` and after,
which are never read; `none` is a NULL array. The functions return `none` where
the code would read or move entries that are not there, or never stop.
`allocs` holds the outcomes of the next allocations; after them, all succeed.
-/

namespace Wirc

structure Arraylist (α : Type) where
  size : Int
  sizeAlloc : Int
  sizeAllocMin : Int
  sorted : Bool
  allowDuplicates : Bool
  data : Option (List α)
  callbackCmp : α → α → Int
  /-- The elements given to `callback_free`, the last one first. -/
  freed : List α
  allocs : List Bool

section

variable {α : Type}

/-- Takes the outcome of an allocation. -/
def arraylistAlloc (arraylist : Arraylist α) : Bool × Arraylist α :=
  match arraylist.allocs with
  | [] => (true, arraylist)
  | ok :: allocs => (ok, { arraylist with allocs })

/-- `arraylist_new`, where the allocations of the list itself succeed. -/
def arraylistNew (initialSize : Int) (sorted allowDuplicates : Bool) (callbackCmp : α → α → Int)
    (allocs : List Bool) : Option (Arraylist α) :=
  if initialSize < 0 then none
  else some
    { size := 0
      sizeAlloc := initialSize
      sizeAllocMin := initialSize
      sorted, allowDuplicates
      data := if initialSize > 0 then some [] else none
      callbackCmp
      freed := []
      allocs }

/-- `arraylist->data[index]`. -/
def arraylistData (arraylist : Arraylist α) (index : Int) : Option α :=
  if index < 0 then none else arraylist.data.bind fun data => data[index.toNat]?

/-- `arraylist_get`. -/
def arraylistGet (arraylist : Arraylist α) (index : Int) : Option α :=
  if index < 0 ∨ index ≥ arraylist.size then none else arraylistData arraylist index

/-- `arraylist_grow`. -/
def arraylistGrow (arraylist : Arraylist α) : Bool × Arraylist α :=
  if arraylist.size + 1 ≤ arraylist.sizeAlloc then (true, arraylist)
  else
    let newSizeAlloc := if arraylist.sizeAlloc < 2 then 2
      else arraylist.sizeAlloc + arraylist.sizeAlloc / 2
    match arraylistAlloc arraylist with
    | (false, arraylist) => (false, arraylist)
    | (true, arraylist) =>
      (true, { arraylist with data := some (arraylist.data.getD []), sizeAlloc := newSizeAlloc })

/-- `arraylist_shrink`. -/
def arraylistShrink (arraylist : Arraylist α) : Bool × Arraylist α :=
  if arraylist.sizeAlloc = 0 ∨ arraylist.sizeAlloc ≤ arraylist.sizeAllocMin then (true, arraylist)
  -- clear the arraylist if current allocated size is 1
  else if arraylist.sizeAlloc = 1 then (true, { arraylist with data := none, sizeAlloc := 0 })
  else
    let newSizeAlloc := arraylist.sizeAlloc - arraylist.sizeAlloc / 2
    if arraylist.size - 1 ≥ newSizeAlloc then (true, arraylist)
    else
      match arraylistAlloc arraylist with
      | (false, arraylist) => (false, arraylist)
      | (true, arraylist) =>
        (true, { arraylist with data := some ((arraylist.data.getD []).take newSizeAlloc.toNat)
                                sizeAlloc := newSizeAlloc })

/-- The comparison of `pointer` with the element at `index`. -/
def arraylistCmpAt (arraylist : Arraylist α) (pointer : α) (index : Int) : Option Int :=
  (arraylistData arraylist index).map (arraylist.callbackCmp pointer)

/-- `while (start <= end)` in `arraylist_binary_search`: the index found (or −1)
and the index for insert. -/
def arraylistBinaryLoop (arraylist : Arraylist α) (pointer : α) (start stop : Int) (ret : Int × Int) :
    Option (Int × Int) :=
  if start ≤ stop then
    let middle := (start + stop) / 2
    match arraylistCmpAt arraylist pointer middle with
    | none => none
    | some rc =>
      if rc = 0 then some (middle, middle + 1)
      else if rc < 0 then
        arraylistBinaryLoop arraylist pointer start (middle - 1)
          (if start > middle - 1 then (-1, middle) else ret)
      else
        arraylistBinaryLoop arraylist pointer (middle + 1) stop
          (if middle + 1 > stop then (-1, middle + 1) else ret)
  else some ret
termination_by (stop + 1 - start).toNat

/-- The part of `arraylist_binary_search` before the label `end`. -/
def arraylistFindIndex (arraylist : Arraylist α) (pointer : α) : Option (Int × Int) := do
  let start := 0
  let stop := arraylist.size - 1
  let rc ← arraylistCmpAt arraylist pointer stop
  -- by convention, add an element with same value after the last one
  if rc = 0 then some (stop, stop + 1)
  else if rc > 0 then some (-1, -1)
  else if arraylist.size = 1 then some (-1, 0)
  else
    let rc ← arraylistCmpAt arraylist pointer start
    if rc = 0 then some (start, start + 1)
    else if rc < 0 then some (-1, start)
    else if arraylist.size = 2 then some (-1, stop)
    else arraylistBinaryLoop arraylist pointer (start + 1) (stop - 1) (-1, -1)

/-- `while (start >= 0)` after the label `end`, for `start = n - 1`: the first
index from which the elements are equal. -/
def arraylistFirstEqual (arraylist : Arraylist α) (pointer : α) : (n : Nat) → Option Int
  | 0 => some 0
  | n + 1 =>
    match arraylistCmpAt arraylist pointer n with
    | none => none
    | some rc => if rc ≠ 0 then some (n + 1) else arraylistFirstEqual arraylist pointer n

/-- `while (end < arraylist->size)` after the label `end`: the index after the
last element that is equal. -/
def arraylistLastEqual (arraylist : Arraylist α) (pointer : α) (stop : Int) : Option Int :=
  if stop < arraylist.size then
    match arraylistCmpAt arraylist pointer stop with
    | none => none
    | some rc => if rc ≠ 0 then some stop else arraylistLastEqual arraylist pointer (stop + 1)
  else some stop
termination_by (arraylist.size - stop).toNat

/-- The element found: `arraylist->data[ret_index]`, NULL if there is none. -/
def arraylistFound (arraylist : Arraylist α) (retIndex retIndexInsert : Int) :
    Option (Option α × Int × Int) :=
  if retIndex < 0 then some (none, retIndex, retIndexInsert)
  else (arraylistData arraylist retIndex).map fun pointer => (some pointer, retIndex, retIndexInsert)

/-- `arraylist_binary_search`: the element found, its index, and the index for
insert. -/
def arraylistBinarySearch (arraylist : Arraylist α) (pointer : α) : Option (Option α × Int × Int) := do
  let (retIndex, retIndexInsert) ← arraylistFindIndex arraylist pointer
  if retIndex ≥ 0 ∧ arraylist.allowDuplicates then
    let start ← arraylistFirstEqual arraylist pointer retIndex.toNat
    let stop ← arraylistLastEqual arraylist pointer (retIndex + 1)
    arraylistFound arraylist start stop
  else arraylistFound arraylist retIndex retIndexInsert

/-- `arraylist_standard_search`, from index `i`. -/
def arraylistStandardSearch (arraylist : Arraylist α) (pointer : α) (i : Int) :
    Option (Option α × Int × Int) :=
  if i < arraylist.size then
    match arraylistData arraylist i with
    | none => none
    | some element =>
      if arraylist.callbackCmp element pointer = 0 then some (some element, i, -1)
      else arraylistStandardSearch arraylist pointer (i + 1)
  else some (none, -1, -1)
termination_by (arraylist.size - i).toNat

/-- `arraylist_search`. -/
def arraylistSearch (arraylist : Arraylist α) (pointer : α) : Option (Option α × Int × Int) :=
  if arraylist.size = 0 then some (none, -1, -1)
  else if arraylist.sorted then arraylistBinarySearch arraylist pointer
  else arraylistStandardSearch arraylist pointer 0

/-- `arraylist_remove`: the list, and the index removed or −1. -/
def arraylistRemove (arraylist : Arraylist α) (index : Int) : Option (Arraylist α × Int) :=
  if index < 0 ∨ index ≥ arraylist.size then some (arraylist, -1)
  else do
    let element ← arraylistData arraylist index
    let data ← arraylist.data
    let (_, arraylist) := arraylistShrink
      { arraylist with data := some (data.eraseIdx index.toNat), freed := element :: arraylist.freed }
    some ({ arraylist with size := arraylist.size - 1 }, index)

/-- The loop of `arraylist_insert` in a sorted list without duplicates: the
elements at `index` that are equal are removed. -/
def arraylistRemoveEqual (pointer : α) (index : Int) : (rounds : Nat) → Arraylist α → Option (Arraylist α)
  | 0, _ => none
  | rounds + 1, arraylist =>
    if index < arraylist.size then do
      let element ← arraylistData arraylist index
      if arraylist.callbackCmp element pointer = 0 then
        let (arraylist, _) ← arraylistRemove arraylist index
        arraylistRemoveEqual pointer index rounds arraylist
      else some arraylist
    else some arraylist

/-- The loop of `arraylist_insert` in a list that is not sorted, without
duplicates: all elements from `i` on that are equal are removed. -/
def arraylistRemoveAllEqual (pointer : α) : (rounds : Nat) → (i : Int) → Arraylist α → Option (Arraylist α)
  | 0, _, _ => none
  | rounds + 1, i, arraylist =>
    if i < arraylist.size then do
      let element ← arraylistData arraylist i
      if arraylist.callbackCmp element pointer = 0 then
        let (arraylist, _) ← arraylistRemove arraylist i
        arraylistRemoveAllEqual pointer rounds i arraylist
      else arraylistRemoveAllEqual pointer rounds (i + 1) arraylist
    else some arraylist

/-- The part of `arraylist_insert` that puts the element in the array. -/
def arraylistPut (arraylist : Arraylist α) (index : Int) (pointer : α) : Option (Arraylist α × Int) :=
  -- if index is negative or too big, add at the end
  let index := if index < 0 ∨ index > arraylist.size then arraylist.size else index
  match arraylistGrow arraylist with
  | (false, arraylist) => some (arraylist, -1)
  | (true, arraylist) => do
    let data ← arraylist.data
    some ({ arraylist with data := some (data.insertIdx index.toNat pointer)
                           size := arraylist.size + 1 }, index)

/-- `arraylist_insert`: the list, and the index of the element or −1. -/
def arraylistInsert (arraylist : Arraylist α) (index : Int) (pointer : α) : Option (Arraylist α × Int) :=
  if arraylist.sorted then do
    let (_, index, indexInsert) ← arraylistSearch arraylist pointer
    if index ≥ 0 ∧ ¬ arraylist.allowDuplicates then
      let arraylist ← arraylistRemoveEqual pointer index (arraylist.size.toNat + 1) arraylist
      arraylistPut arraylist index pointer
    else arraylistPut arraylist indexInsert pointer
  else if ¬ arraylist.allowDuplicates then do
    let arraylist ← arraylistRemoveAllEqual pointer (arraylist.size.toNat + 1) 0 arraylist
    arraylistPut arraylist index pointer
  else arraylistPut arraylist index pointer

/-- `arraylist_add`. -/
def arraylistAdd (arraylist : Arraylist α) (pointer : α) : Option (Arraylist α × Int) :=
  arraylistInsert arraylist (-1) pointer

/-- `arraylist_clear`: the list, and whether it succeeds. -/
def arraylistClear (arraylist : Arraylist α) : Arraylist α × Bool :=
  let arraylist := { arraylist with freed := (arraylist.data.getD []).reverse ++ arraylist.freed }
  match arraylist.data with
  | none => ({ arraylist with size := 0 }, true)
  | some _ =>
    if arraylist.sizeAlloc ≠ arraylist.sizeAllocMin then
      let arraylist := { arraylist with data := none, sizeAlloc := 0 }
      if arraylist.sizeAllocMin > 0 then
        match arraylistAlloc arraylist with
        | (false, arraylist) => (arraylist, false)
        | (true, arraylist) =>
          ({ arraylist with data := some [], sizeAlloc := arraylist.sizeAllocMin, size := 0 }, true)
      else ({ arraylist with size := 0 }, true)
    else ({ arraylist with data := some [], size := 0 }, true)

end

end Wirc

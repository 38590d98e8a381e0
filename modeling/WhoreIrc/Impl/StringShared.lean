import WhoreIrc.Impl.Hashtable

/-!
# Shared strings (`core/wee-string.c`)

A shared string is a block of memory, a reference count and then the string,
and the block is itself a key of the hashtable `string_hashtable_shared`. Keys
are the addresses of the blocks: the callbacks of the table read the strings
that they point to. The pointers that callers get are to the string of a block,
and stand here for the address of the block.

The address that `malloc` returns is an argument, so that memory may be used
again once it was freed. `none` is returned where the code would read memory
that is not allocated.
-/

namespace Wirc

open Framework

/-- A block: the reference count (`string_shared_count_t`) and the string. -/
structure SharedBlock where
  count : UInt32
  string : Str
  deriving DecidableEq

/-- The blocks that are allocated, and `string_hashtable_shared`. -/
structure SharedStrings where
  memory : Addr → Option SharedBlock
  hashtable : Option (Hashtable Addr Empty)

/-- The string in a block. -/
def sharedText (memory : Addr → Option SharedBlock) (key : Addr) : Str :=
  match memory key with
  | some block => block.string
  | none => []

/-- `string_shared_hash_key`. -/
def stringSharedHashKey (memory : Addr → Option SharedBlock) (key : Addr) : UInt64 :=
  hashtableHashKeyDjb2 (sharedText memory key)

/-- `string_shared_keycmp`. -/
def stringSharedKeycmp (memory : Addr → Option SharedBlock) (key1 key2 : Addr) : Int :=
  strcmp (sharedText memory key1) (sharedText memory key2)

/-- The table, with callbacks that read the memory as it is now. -/
def sharedHashtable (memory : Addr → Option SharedBlock) (hashtable : Hashtable Addr Empty) : Hashtable Addr Empty :=
  { hashtable with
    callbackHashKey := stringSharedHashKey memory
    callbackKeycmp := stringSharedKeycmp memory }

/-- `hashtable_new (1024, WHOREIRC_HASHTABLE_POINTER, WHOREIRC_HASHTABLE_POINTER, ...)`. -/
def stringSharedNew (memory : Addr → Option SharedBlock) : Hashtable Addr Empty :=
  { size := 1024
    htable := fun _ => none
    itemsCount := 0
    typeKeys := .pointer
    typeValues := .pointer
    callbackHashKey := stringSharedHashKey memory
    callbackKeycmp := stringSharedKeycmp memory
    items := fun _ => none
    nextAddr := 0 }

/-- `string_shared_get`, with the address `key` that `malloc` returns: the
pointer returned is NULL if error. -/
def stringSharedGet (state : SharedStrings) (string : Str) (key : Addr) : Option (SharedStrings × Option Addr) := do
  let memory := Function.update state.memory key (some ⟨1, string⟩)
  let hashtable := sharedHashtable memory (state.hashtable.getD (stringSharedNew memory))
  let (ptrItem, _) ← hashtableGetItem hashtable key
  match ptrItem with
  | some ptrItem =>
    -- the string already exists in the hashtable: one reference more
    let item ← hashtable.items ptrItem
    let block ← memory item.data.key
    let memory := Function.update memory item.data.key (some { block with count := block.count + 1 })
    some (⟨Function.update memory key none, some hashtable⟩, some item.data.key)
  | none =>
    let (hashtable, ptrItem) ← hashtableSet hashtable key none
    match ptrItem with
    | some ptrItem =>
      let item ← hashtable.items ptrItem
      some (⟨memory, some hashtable⟩, some item.data.key)
    | none => some (⟨Function.update memory key none, some hashtable⟩, none)

/-- `hashtable_remove`, with `string_shared_free_key`. -/
def stringSharedRemove (memory : Addr → Option SharedBlock) (hashtable : Hashtable Addr Empty) (key : Addr) :
    Option SharedStrings := do
  let hashtable := sharedHashtable memory hashtable
  let (ptrItem, hash) ← hashtableGetItem hashtable key
  match ptrItem with
  | some ptrItem =>
    let item ← hashtable.items ptrItem
    let hashtable ← hashtableRemoveItem hashtable ptrItem hash
    some ⟨Function.update memory item.data.key none, some hashtable⟩
  | none => some ⟨memory, some hashtable⟩

/-- `string_shared_free`. -/
def stringSharedFree (state : SharedStrings) (string : Addr) : Option SharedStrings := do
  let block ← state.memory string
  let count := block.count - 1
  let memory := Function.update state.memory string (some { block with count := count })
  if count = 0 then
    match state.hashtable with
    | some hashtable => stringSharedRemove memory hashtable string
    | none => some ⟨memory, none⟩
  else some ⟨memory, state.hashtable⟩

end Wirc

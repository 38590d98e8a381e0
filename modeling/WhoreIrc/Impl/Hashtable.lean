import WhoreIrc.Framework.Linked
import WhoreIrc.Impl.CString

/-!
# Hashtables (`core/wee-hashtable.c`)

The items of a table live in its heap: `htable` points to the first item of
each bucket, and the items of a bucket are linked in both directions. Memory is
never short: `malloc` gives the address `nextAddr`, which was never used
before. `none` is returned where the code would follow a pointer to no item or
never stop (a walk has one round for each item of the table, and one more to
see the end). Keys and values are the data pointed to, `none` a NULL value;
keys are not NULL.
-/

namespace Wirc

open Framework

inductive HashtableType
  | integer
  | string
  | pointer
  | buffer
  | time
  deriving DecidableEq

/-- What a key of each type points to (a pointer is its own address). -/
abbrev HashtableKey : HashtableType → Type
  | .integer => Int32
  | .string => Str
  | .pointer => UInt64
  | .buffer => Str
  | .time => Int64

/-- `hashtable_to_string`; the address of a buffer is not known. -/
def hashtableToString : (type : HashtableType) → HashtableKey type → Option Str
  | .integer, value => some (fmtInt (Int32.toInt value))
  | .string, value => some value
  | .pointer, value => some (lit "0x" ++ (Nat.toDigits 16 value.toNat).map ch)
  | .buffer, _ => none
  | .time, value => some (fmtInt (Int64.toInt value))

/-- `hashtable_hash_key_djb2`: each character is added as a signed `char`. -/
def hashtableHashKeyDjb2 (string : Str) : UInt64 :=
  string.foldl (fun hash c => hash ^^^ ((hash <<< 5) + (hash >>> 2) + c.toInt8.toInt64.toUInt64)) 5381

instance instDecidableEqHashtableKey : (typeKeys : HashtableType) → DecidableEq (HashtableKey typeKeys)
  | .integer => inferInstanceAs (DecidableEq Int32)
  | .string => inferInstanceAs (DecidableEq Str)
  | .pointer => inferInstanceAs (DecidableEq UInt64)
  | .buffer => inferInstanceAs (DecidableEq Str)
  | .time => inferInstanceAs (DecidableEq Int64)

/-- `hashtable_hash_key_default_cb`. -/
def hashtableHashKeyDefaultCb : (typeKeys : HashtableType) → HashtableKey typeKeys → UInt64
  | .integer, key => (Int32.toInt64 key).toUInt64
  | .string, key => hashtableHashKeyDjb2 key
  | .pointer, key => key
  | .buffer, _ => 0
  | .time, key => Int64.toUInt64 key

/-- `hashtable_keycmp_default_cb`. -/
def hashtableKeycmpDefaultCb : (typeKeys : HashtableType) → (key1 key2 : HashtableKey typeKeys) → Int
  | .integer, key1, key2 => if key1.toInt < key2.toInt then -1 else if key1.toInt > key2.toInt then 1 else 0
  | .string, key1, key2 => strcmp key1 key2
  | .pointer, key1, key2 => if key1.toNat < key2.toNat then -1 else if key1.toNat > key2.toNat then 1 else 0
  | .buffer, _, _ => 0
  | .time, key1, key2 => if key1.toInt < key2.toInt then -1 else if key1.toInt > key2.toInt then 1 else 0

/-- The data of an item. -/
structure ItemData (K V : Type) where
  key : K
  value : Option V
  deriving DecidableEq

/-- An item: its data and its links in the bucket. -/
abbrev HashtableItem (K V : Type) := Node (ItemData K V)

structure Hashtable (K V : Type) where
  size : Nat
  htable : Nat → Option Addr
  itemsCount : Int
  typeKeys : HashtableType
  typeValues : HashtableType
  callbackHashKey : K → UInt64
  callbackKeycmp : K → K → Int
  items : Heap (ItemData K V)
  nextAddr : Addr

/-- `hashtable_new`, without callbacks. -/
def hashtableNew (size : Int) (typeKeys typeValues : HashtableType) (V : Type) :
    Option (Hashtable (HashtableKey typeKeys) V) :=
  if size ≤ 0 then none
  -- the two callbacks are mandatory if type of keys is "buffer"
  else if typeKeys = .buffer then none
  else some
    { size := size.toNat
      htable := fun _ => none
      itemsCount := 0
      typeKeys, typeValues
      callbackHashKey := hashtableHashKeyDefaultCb typeKeys
      callbackKeycmp := hashtableKeycmpDefaultCb typeKeys
      items := fun _ => none
      nextAddr := 0 }

section

variable {K V : Type}

/-- The bucket of a key. -/
def hashtableBucket (hashtable : Hashtable K V) (key : K) : Nat :=
  (hashtable.callbackHashKey key).toNat % hashtable.size

/-- The rounds of a walk through a bucket. -/
def hashtableRounds (hashtable : Hashtable K V) : Nat := hashtable.itemsCount.toNat + 1

/-- The loop that passes the items with a smaller key: the item where it stops,
and the item before it. -/
def hashtableSearchPos (hashtable : Hashtable K V) (key : K) :
    Nat → (ptrItem posItem : Option Addr) → Option (Option Addr × Option Addr)
  | 0, _, _ => none
  | _ + 1, none, posItem => some (none, posItem)
  | rounds + 1, some ptrItem, posItem =>
    match hashtable.items ptrItem with
    | none => none
    | some item =>
      if hashtable.callbackKeycmp key item.data.key > 0 then
        hashtableSearchPos hashtable key rounds item.next (some ptrItem)
      else some (some ptrItem, posItem)

/-- The test after the loop: the item where it stops has the key. -/
def hashtableItemHasKey (hashtable : Hashtable K V) (key : K) (ptrItem : Option Addr) : Bool :=
  match ptrItem.bind hashtable.items with
  | some item => hashtable.callbackKeycmp key item.data.key = 0
  | none => false

/-- The item before which a new one goes: `pos_item->next_item`, or the first
item of the bucket. -/
def hashtableNextItem (hashtable : Hashtable K V) (hash : Nat) : (posItem : Option Addr) → Option (Option Addr)
  | some pos => (hashtable.items pos).map Node.next
  | none => some (hashtable.htable hash)

/-- The new item is put after `posItem`, or at the beginning of the bucket. -/
def hashtableAddItem (hashtable : Hashtable K V) (hash : Nat) (posItem : Option Addr)
    (key : K) (value : Option V) : Option (Hashtable K V × Addr) := do
  let newItem := hashtable.nextAddr
  let nextItem ← hashtableNextItem hashtable hash posItem
  let items := hashtable.items.store newItem ⟨⟨key, value⟩, posItem, nextItem⟩
  let items := items.setPrev nextItem (some newItem)
  let items := items.setNext posItem (some newItem)
  let htable := if posItem.isSome then hashtable.htable
    else Function.update hashtable.htable hash (some newItem)
  some ({ hashtable with htable, items, itemsCount := hashtable.itemsCount + 1,
                         nextAddr := hashtable.nextAddr + 1 }, newItem)

/-- `hashtable_set_with_size`: the table, and the item (NULL if error). -/
def hashtableSetWithSize (hashtable : Hashtable K V) (key : K) (keySize : Int) (value : Option V)
    (valueSize : Int) : Option (Hashtable K V × Option Addr) :=
  if (hashtable.typeKeys = .buffer ∧ keySize ≤ 0) ∨ (hashtable.typeValues = .buffer ∧ valueSize ≤ 0) then
    some (hashtable, none)
  else do
    let hash := hashtableBucket hashtable key
    let (ptrItem, posItem) ← hashtableSearchPos hashtable key (hashtableRounds hashtable)
      (hashtable.htable hash) none
    match ptrItem with
    | some item =>
      if hashtableItemHasKey hashtable key ptrItem then
        -- replace value if item is already in hashtable
        let items := hashtable.items.modify item fun n => { n with data.value := value }
        some ({ hashtable with items }, some item)
      else
        let (hashtable, newItem) ← hashtableAddItem hashtable hash posItem key value
        some (hashtable, some newItem)
    | none =>
      let (hashtable, newItem) ← hashtableAddItem hashtable hash posItem key value
      some (hashtable, some newItem)

/-- `hashtable_set`. -/
def hashtableSet (hashtable : Hashtable K V) (key : K) (value : Option V) :
    Option (Hashtable K V × Option Addr) :=
  hashtableSetWithSize hashtable key 0 value 0

/-- `hashtable_get_item`: the item (NULL if not found), and the bucket. -/
def hashtableGetItem (hashtable : Hashtable K V) (key : K) : Option (Option Addr × Nat) := do
  let keyHash := hashtableBucket hashtable key
  let (ptrItem, _) ← hashtableSearchPos hashtable key (hashtableRounds hashtable)
    (hashtable.htable keyHash) none
  if hashtableItemHasKey hashtable key ptrItem then some (ptrItem, keyHash) else some (none, keyHash)

/-- `hashtable_get`. -/
def hashtableGet (hashtable : Hashtable K V) (key : K) : Option (Option V) := do
  let (ptrItem, _) ← hashtableGetItem hashtable key
  match ptrItem with
  | some item => (hashtable.items item).map fun n => n.data.value
  | none => some none

/-- `hashtable_has_key`. -/
def hashtableHasKey (hashtable : Hashtable K V) (key : K) : Option Bool := do
  let (ptrItem, _) ← hashtableGetItem hashtable key
  some ptrItem.isSome

/-- `hashtable_remove_item`. -/
def hashtableRemoveItem (hashtable : Hashtable K V) (item : Addr) (hash : Nat) : Option (Hashtable K V) := do
  let node ← hashtable.items item
  let items := hashtable.items.setNext node.prev node.next
  let items := items.setPrev node.next node.prev
  let htable := if hashtable.htable hash = some item then
      Function.update hashtable.htable hash node.next
    else hashtable.htable
  some { hashtable with htable, items := items.free item, itemsCount := hashtable.itemsCount - 1 }

/-- `hashtable_remove`. -/
def hashtableRemove (hashtable : Hashtable K V) (key : K) : Option (Hashtable K V) := do
  let (ptrItem, hash) ← hashtableGetItem hashtable key
  match ptrItem with
  | some item => hashtableRemoveItem hashtable item hash
  | none => some hashtable

/-- `while (hashtable->htable[i])` in `hashtable_remove_all`. -/
def hashtableRemoveBucket (i : Nat) : Nat → Hashtable K V → Option (Hashtable K V)
  | 0, _ => none
  | rounds + 1, hashtable =>
    match hashtable.htable i with
    | none => some hashtable
    | some item => do
      let hashtable ← hashtableRemoveItem hashtable item i
      hashtableRemoveBucket i rounds hashtable

/-- `hashtable_remove_all`. -/
def hashtableRemoveAll (hashtable : Hashtable K V) : Option (Hashtable K V) :=
  (List.range hashtable.size).foldlM
    (fun hashtable i => hashtableRemoveBucket i (hashtableRounds hashtable) hashtable) hashtable

/-- The items that a loop on `next_item` goes through. -/
def hashtableBucketItems (hashtable : Hashtable K V) : Nat → (ptrItem : Option Addr) → Option (List (ItemData K V))
  | 0, _ => none
  | _ + 1, none => some []
  | rounds + 1, some ptrItem => do
    let item ← hashtable.items ptrItem
    let left ← hashtableBucketItems hashtable rounds item.next
    some (item.data :: left)

/-- The items that the loops on `htable` and `next_item` go through, in order. -/
def hashtableWalk (hashtable : Hashtable K V) : Option (List (ItemData K V)) := do
  let buckets ← (List.range hashtable.size).mapM fun i =>
    hashtableBucketItems hashtable (hashtableRounds hashtable) (hashtable.htable i)
  some buckets.flatten

/-- A call that changes a table. -/
inductive HashtableOp (K V : Type)
  | set (key : K) (value : Option V)
  | remove (key : K)
  | removeAll
  deriving DecidableEq

/-- The table after the call. -/
def HashtableOp.run (hashtable : Hashtable K V) : HashtableOp K V → Option (Hashtable K V)
  | .set key value => (hashtableSet hashtable key value).map Prod.fst
  | .remove key => hashtableRemove hashtable key
  | .removeAll => hashtableRemoveAll hashtable

end

end Wirc

import Mathlib.Algebra.BigOperators.Group.Finset.Basic
import WhoreIrc.Framework.Cmp
import WhoreIrc.Impl.Hashtable
import WhoreIrc.Impl.HashtableInfolist
import WhoreIrc.Impl.HashtableString
import WhoreIrc.Impl.UpgradeFile

/-!
# Hashtables as finite maps

`WellFormed hashtable b`: the buckets are the linked lists `b`, each strictly
sorted and with the keys of its index only, and all items are counted.
-/

namespace Wirc

open Framework

section

variable {K V : Type}

/-- The key of an item of a bucket. -/
abbrev cellKey (x : Addr × ItemData K V) : K := x.2.key

/-- `b i` is the list of the items in bucket `i`. -/
structure WellFormed (hashtable : Hashtable K V) (b : Nat → List (Addr × ItemData K V)) : Prop where
  order : CmpOrder hashtable.callbackKeycmp
  typeKeys : hashtable.typeKeys ≠ .buffer
  size : 0 < hashtable.size
  head : ∀ i, hashtable.htable i = firstPtr (b i) none
  linked : ∀ i, Seg hashtable.items none (b i) none
  sorted : ∀ i, KeysSorted hashtable.callbackKeycmp cellKey (b i)
  hashed : ∀ i, ∀ x ∈ b i, hashtableBucket hashtable (cellKey x) = i
  count : hashtable.itemsCount = ((∑ i ∈ Finset.range hashtable.size, (b i).length : Nat) : Int)
  fresh : ∀ a, hashtable.items a ≠ none → a < hashtable.nextAddr

/-- The items of the buckets are those of the map `m`: a key is absent, or has
a value that may be NULL. -/
def Contents (bucket : K → Nat) (b : Nat → List (Addr × ItemData K V)) (m : K → Option (Option V)) : Prop :=
  ∀ k v, m k = some v ↔ ∃ a, (a, ⟨k, v⟩) ∈ b (bucket k)

/-- The table is well formed and stands for the map `m`. -/
def Refines (hashtable : Hashtable K V) (m : K → Option (Option V)) : Prop :=
  ∃ b, WellFormed hashtable b ∧ Contents (hashtableBucket hashtable) b m

end

/-!
## The listing of a hashtable

The entries of a table with keys that are numbers or strings and values that are
strings, in the order of their keys.
-/

section

/-- The types of the keys that are listed. -/
def Listable (typeKeys : HashtableType) : Prop := typeKeys = .integer ∨ typeKeys = .string ∨ typeKeys = .time

variable {typeKeys : HashtableType}

/-- The string form of a key. -/
def keyText (key : HashtableKey typeKeys) : Str := (hashtableToString typeKeys key).getD []

/-- An entry in a listing: the key, and the value if it is listed. -/
def entryText (values : Bool) (item : ItemData (HashtableKey typeKeys) (HashtableKey .string)) : Str :=
  if values then keyText item.key ++ (lit ":" ++ item.value.getD (lit "(null)")) else keyText item.key

/-- The bytes that are counted for the entries. -/
def listingSize (values : Bool) (items : List (ItemData (HashtableKey typeKeys) (HashtableKey .string))) : Nat :=
  (items.map fun item => (entryText values item).length + 1).sum

/-- The property of a table that is asked for. -/
def listingProperty (values : Bool) : Str := if values then lit "keys_values_sorted" else lit "keys_sorted"

variable (hashtable : Hashtable (HashtableKey typeKeys) (HashtableKey .string))
  (m : HashtableKey typeKeys → Option (Option Str))

/-- The string has exactly the entries of the table, each once and sorted, and no
more bytes than were counted. -/
def ListingRight (values : Bool) : Prop :=
  ∃ listing : List (ItemData (HashtableKey typeKeys) (HashtableKey .string)),
    listing.Nodup ∧ (∀ item, item ∈ listing ↔ m item.key = some item.value) ∧
    listing.Pairwise (fun item item' => stringStrcasecmp (keyText item.key) (keyText item'.key) ≤ 0) ∧
    let str := (lit ",").intercalate (listing.map (entryText values))
    hashtableGetString hashtable (listingProperty values) = some (some str) ∧
      ∃ items length, hashtableWalk hashtable = some items ∧
        items.foldlM (hashtableComputeLength true values) 0 = some length ∧ (str.length : Int) ≤ length

/-- The table is not empty, what is counted is an `int`, and each key is what is read
at the address of its own string form. -/
structure ListingFits (values : Bool) : Prop where
  entry : ∃ key, m key ≠ none
  size : ∀ items, hashtableWalk hashtable = some items → listingSize values items + 1 < 2147483648
  key : ∀ key, m key ≠ none → hashtableKeyAt typeKeys (keyText key) = some key

end

/-!
## Hashtables that survive `/upgrade`

A table is saved in an item of an infolist, the item written in a file, read back
and restored in an empty table.
-/

/-- A table from strings to strings without NULL value; `m` gives its entries. -/
structure StringTable (hashtable : Hashtable (HashtableKey .string) (HashtableValue .string))
    (m : Str → Option Str) : Prop where
  refines : Refines hashtable fun key => (m key).map some
  typeKeys : hashtable.typeKeys = .string
  typeValues : hashtable.typeValues = .string
  ends : ∀ key value, m key = some value → 0 ∉ key ∧ 0 ∉ value

/-- The table `hashtable` is saved, and restored in the table `restored`. -/
def hashtableUpgrade (objectId : Int32) (pfx : CStr)
    (hashtable restored : Hashtable (HashtableKey .string) (HashtableValue .string)) :
    Option (Hashtable (HashtableKey .string) (HashtableValue .string)) := do
  let (_, vars) ← hashtableAddToInfolist hashtable [] pfx
  let bytes ← upgradeFileWriteObject objectId [⟨vars, none⟩]
  let (_, calls, _) ← upgradeFileReadObject (fun _ _ => 0) [] ⟨bytes, false⟩
  let (_, vars) ← calls.head?
  let (hashtable, _) ← hashtableAddFromInfolist restored ⟨vars, none⟩ pfx
  some hashtable

/-- Every key is in the restored table, with its value. -/
def UpgradeSurvives (objectId : Int32) (pfx : CStr)
    (hashtable restored : Hashtable (HashtableKey .string) (HashtableValue .string)) (m : Str → Option Str) : Prop :=
  ∃ hashtable', hashtableUpgrade objectId pfx hashtable restored = some hashtable' ∧
    ∀ key value, m key = some value →
      hashtableHasKey hashtable' key = some true ∧ hashtableGet hashtable' key = some (some value)

/-- The size of the list of fields for a number of entries, with the `\0`. -/
def upgradeFieldsSize (pfx : CStr) : (entries : Nat) → Nat
  | 0 => 1
  | n + 1 =>
    (hashtableOptionName pfx "_name_" (fmtNatDigits 5 n)).val.length + 3 +
      ((hashtableOptionName pfx "_value_" (fmtNatDigits 5 n)).val.length + 3) + upgradeFieldsSize pfx n

/-- The prefix has no comma and no character of several bytes, keys and values are
not empty, and the sizes are those of an `int`. -/
structure UpgradeFits (pfx : CStr) (hashtable : Hashtable (HashtableKey .string) (HashtableValue .string))
    (m : Str → Option Str) : Prop where
  comma : ch ',' ∉ pfx.val
  oneByte : ∀ b ∈ pfx.val, utf8LeadSize b = 1
  key : ∀ key value, m key = some value → key ≠ [] ∧ key.length + 1 < 2147483648
  value : ∀ key value, m key = some value → value ≠ [] ∧ value.length + 1 < 2147483648
  fields : upgradeFieldsSize pfx hashtable.itemsCount.toNat < 2147483648

end Wirc

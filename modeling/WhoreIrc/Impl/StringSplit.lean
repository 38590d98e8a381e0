import Mathlib.Data.List.DropRight
import WhoreIrc.Impl.CString
import WhoreIrc.Impl.Utf8

/-!
# Splitting strings (`core/wee-string.c`)

`string_strip`, `string_split`, `string_build_with_split_string` and `string_split_command`. Memory is never
short, and no string is NULL unless its type says so.
-/

namespace Wirc

/-- `strchr (chars, c)` is not NULL. -/
def isIn (chars : Str) (c : Byte) : Bool := c ∈ chars

/-- `string_strip`. -/
def stringStrip (string : Str) (left right : Bool) (chars : Str) : Str :=
  if string = [] then []
  else
    let ptrStart := if left then string.dropWhile (isIn chars) else string
    if right then ptrStart.rdropWhile (isIn chars) else ptrStart

/-- `WHOREIRC_STRING_SPLIT_*`. -/
structure SplitFlags where
  stripLeft : Bool
  stripRight : Bool
  collapseSeps : Bool
  keepEol : Bool

theorem strpbrk_length {s accept p : Str} (h : strpbrk s accept = some p) : 0 < p.length ∧ p.length ≤ s.length := by
  induction s with
  | nil => cases h
  | cons b s ih =>
    rw [strpbrk] at h
    split at h
    · cases h
      exact ⟨Nat.succ_pos _, Nat.le_refl _⟩
    · obtain ⟨h1, h2⟩ := ih h
      exact ⟨h1, Nat.le_succ_of_le h2⟩

/-- `while ((ptr = strpbrk (ptr, separators)))`: the number of items, counted
from `i`. -/
def splitCountItems (separators : Str) (collapseSeps : Bool) (ptr : Str) (i : Nat) : Nat :=
  match _ : strpbrk ptr separators with
  | none => i
  | some [] => i
  | some (b :: rest) =>
    if collapseSeps then
      let ptr := rest.dropWhile (isIn separators)
      splitCountItems separators collapseSeps ptr (if ptr ≠ [] then i + 1 else i)
    else splitCountItems separators collapseSeps rest (i + 1)
termination_by ptr.length
decreasing_by
  all_goals
    have h := (strpbrk_length ‹_›).2
    have hd := (List.dropWhile_suffix (l := rest) (isIn separators)).length_le
    simp only [List.length_cons] at h
    omega

/-- The end of an item. -/
def splitItemEnd (separators ptr1 : Str) (last : Bool) : Str :=
  match strpbrk ptr1 separators with
  | some ptr2 => ptr2
  | none =>
    if last then []
    else (strchr ptr1 (ch '\r')).getD ((strchr ptr1 (ch '\n')).getD [])

/-- `(strip_items && strip_items[0]) ? string_strip (item, 1, 1, strip_items) : item`. -/
def splitStripItem (stripItems : Option Str) (item : Str) : Str :=
  match stripItems with
  | some chars => if chars ≠ [] then stringStrip item true true chars else item
  | none => item

/-- The loop on the items, with the number of those left: the items from `ptr1`
on. -/
def splitItems (separators : Str) (stripItems : Option Str) (flags : SplitFlags) : Nat → (ptr1 : Str) → List Str
  | 0, _ => []
  | left + 1, ptr1 =>
    -- skip separators to find the beginning of item
    let ptr1 := if flags.collapseSeps then ptr1.dropWhile (isIn separators) else ptr1
    let ptr2 := splitItemEnd separators ptr1 (left = 0)
    if ptr2.length < ptr1.length then
      let item := if flags.keepEol then splitStripItem stripItems ptr1
        else splitStripItem stripItems (strndup ptr1 (off ptr1 ptr2))
      let ptr2 := if !flags.collapseSeps && (ptr2 = [] || ptr2.head?.any (isIn separators)) then ptr2.tail else ptr2
      item :: splitItems separators stripItems flags left ptr2
    else [] :: splitItems separators stripItems flags left ptr1.tail

/-- `string_split_internal`: the items, or `none` for NULL. -/
def stringSplit (string separators : Str) (stripItems : Option Str) (flags : SplitFlags) (numItemsMax : Nat) :
    Option (List Str) :=
  if string = [] ∨ separators = [] then none
  else
    let string2 := stringStrip string flags.stripLeft flags.stripRight separators
    if string2 = [] then none
    else
      let countItems := splitCountItems separators flags.collapseSeps string2 1
      let countItems := if numItemsMax ≠ 0 ∧ countItems > numItemsMax then numItemsMax else countItems
      some (splitItems separators stripItems flags countItems string2)

/-- The command in the buffer, without the spaces at its beginning, unless it
is empty. -/
def splitCommandItem (buffer : Str) : List Str :=
  let p := skipSpaces buffer
  if p ≠ [] then [p] else []

/-- `while (*ptr != '\0')`: the commands from `ptr` on. `previous` is
`*(ptr-1)`. -/
def splitCommandLoop (separator : Byte) (previous : Option Byte) (buffer : Str) : (ptr : Str) → List Str
  | [] => splitCommandItem buffer
  | c :: ptr =>
    if c = separator then
      -- an escaped separator takes the place of the backslash
      if previous = some (ch '\\') then splitCommandLoop separator (some c) (buffer.dropLast ++ [c]) ptr
      else splitCommandItem buffer ++ splitCommandLoop separator (some c) [] ptr
    else splitCommandLoop separator (some c) (buffer ++ [c]) ptr

/-- `string_split_command`. -/
def stringSplitCommand (command : Str) (separator : Byte) : Option (List Str) :=
  if command = [] then none else some (splitCommandLoop separator none [] command)

/-!
## The buffer of `string_split_command` (`core/wee-string.c`)

What the loop writes in `buffer`, with the index `str_idx`. `none` is a write
outside of the buffer. The array is large enough and memory is never short.
-/

/-- `buffer`, `str_idx` and the commands in `array`. -/
structure SplitCommandState where
  buffer : List Byte
  strIdx : Int
  array : List Str

/-- `buffer[idx] = c`. -/
def splitCommandWrite (buffer : List Byte) (idx : Int) (c : Byte) : Option (List Byte) :=
  if 0 ≤ idx ∧ idx < buffer.length then some (buffer.set idx.toNat c) else none

/-- The command in the buffer is added to the array. -/
def splitCommandAdd (s : SplitCommandState) : Option SplitCommandState :=
  (splitCommandWrite s.buffer s.strIdx 0).map fun buffer =>
    { s with buffer, array := s.array ++ splitCommandItem (cString buffer).val }

end Wirc

import WhoreIrc.Framework.SortedInsert
import WhoreIrc.Impl.Utf8

/-!
# Lists of strings (`core/wee-list.c`)

A pointer to an item is the place of the item.
-/

namespace Wirc

open Framework

/-- `WHOREIRC_LIST_POS_*`. -/
inductive WeelistPos
  | posSort
  | posBeginning
  | posEnd
  deriving DecidableEq

section

variable (weelist : List Str)

/-- `weelist_search`. -/
def weelistSearch (data : Str) : Option Nat := weelist.findIdx? fun ptrItem => strcmp data ptrItem = 0

/-- `weelist_casesearch`. -/
def weelistCasesearch (data : Str) : Option Nat := weelist.findIdx? fun ptrItem => stringStrcasecmp data ptrItem = 0

/-- `weelist_get`. -/
def weelistGet (position : Nat) : Option Nat := if position < weelist.length then some position else none

/-- `weelist_set`. -/
def weelistSet (item : Option Nat) (value : Str) : List Str :=
  match item with
  | some item => weelist.set item value
  | none => weelist

/-- `weelist_remove`. -/
def weelistRemove (item : Option Nat) : List Str :=
  match item with
  | some item => weelist.eraseIdx item
  | none => weelist

/-- `weelist_insert`. -/
def weelistInsert (item : Str) (pos : WeelistPos) : List Str :=
  -- remove element if already in list
  let weelist := weelistRemove weelist (weelistSearch weelist item)
  match pos with
  | .posBeginning => item :: weelist
  | .posEnd => weelist ++ [item]
  | .posSort => insertBefore (fun ptrItem => stringStrcasecmp item ptrItem < 0) item weelist

/-- `weelist_add`. -/
def weelistAdd (data : Str) (pos : WeelistPos) : List Str :=
  if data = [] then weelist else weelistInsert weelist data pos

end

end Wirc

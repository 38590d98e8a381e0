import WhoreIrc.Impl.GuiKey

/-!
# Names of keys, and keys unbound by area

What is expected of the names of keys, and of the keys that are left when those of an
area are unbound.
-/

namespace Wirc

open Framework

/-! ## Codes and names -/

/-- The texts that stand for codes in the name of a key. -/
def keyNames : List Str := [lit "meta-", lit "meta2-", lit "ctrl-", lit "space"]

/-- A code of a key that is not an area, without the texts that stand for codes. -/
def KeyCodePlain (key : Str) : Prop := key.head? ≠ some (ch '@') ∧ ∀ name ∈ keyNames, ¬name <:+: key

/-- A string is read up to its final `\0` at most, and a plain code is the code of its name. -/
structure KeyNamesRight (key : Str) : Prop where
  expanded : guiKeyGetExpandedName key ≠ none
  internal : guiKeyGetInternalCode key ≠ none
  inverse : KeyCodePlain key → (guiKeyGetExpandedName key).bind guiKeyGetInternalCode = some key

/-- A string ends with an even number of times a word. -/
def EvenEnd (word s : Str) : Prop := ∃ u n, s = u ++ (List.replicate (2 * n) word).flatten ∧ ¬word <:+ u

/-! ## Unbinding the keys of an area -/

/-- The keys of each context in memory, in their order. -/
structure GuiKeysLinked (keys : GuiKeys) (lists : GuiKeyContext → List (Addr × GuiKey)) : Prop where
  linked : Lists keys.memory lists
  ends : ∀ context, keys.ends context = endsOf (lists context)
  count : ∀ context, keys.count context = (lists context).length

/-- A key has an area that is the one of the text. -/
def keyHasArea (area : Str) (key : GuiKey) : Bool :=
  match guiKeySetAreaTypeName area with
  | some (areaType, areaName) => guiKeyAreaMatches areaType areaName key
  | none => false

/-- The keys of a context found by its name are removed if they have the area; others stay as they are. -/
def keysWithoutArea (context area : Str) (lists : GuiKeyContext → List (Addr × GuiKey)) (c : GuiKeyContext) :
    List (Addr × GuiKey) :=
  if guiKeySearchContext context = some c then (lists c).filter fun x => !keyHasArea area x.2 else lists c

/-- The number of keys with the area in the context found by its name. -/
def numKeysOfArea (context area : Str) (lists : GuiKeyContext → List (Addr × GuiKey)) : Nat :=
  match guiKeySearchContext context with
  | some c => (lists c).countP fun x => keyHasArea area x.2
  | none => 0

/-- The keys of the area are removed, no other one, and they are counted. -/
def UnbindRight (lists : GuiKeyContext → List (Addr × GuiKey)) (context area : Str) (result : Option (GuiKeys × Int)) :
    Prop :=
  ∃ keys, result = some (keys, (numKeysOfArea context area lists : Int)) ∧
    GuiKeysLinked keys (keysWithoutArea context area lists)

end Wirc

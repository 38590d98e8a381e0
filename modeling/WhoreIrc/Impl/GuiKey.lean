import WhoreIrc.Framework.Chain
import WhoreIrc.Impl.Utf8

/-!
# Keys (`gui/gui-key.c`)

The codes of keys and their names, the areas of a key, and how keys are unbound. A
result is `none` if the code reads bytes after the final `\0` of a string, or a key
that is not in memory. Memory is always allocated; signals and messages are left out.
-/

namespace Wirc

open Framework

/-! ## Codes and names -/

/-- What the tests of a turn write for the text at a pointer, and the pointer after it. -/
structure GuiKeySlot where
  read : Str → Option (Str × Str)
  shorter : ∀ key text rest, read key = some (text, rest) → rest.length < key.length

/-- The last test of a turn: a char is copied, and the pointer moved after it, even at the final `\0`. -/
def guiKeyCopyChar : Str → Option (Str × Str)
  | [] => none
  | c :: key => some ([c], key)

theorem guiKeyCopyChar_shorter {key text rest : Str} (h : guiKeyCopyChar key = some (text, rest)) :
    rest.length < key.length := by
  cases key with
  | nil => cases h
  | cons c key =>
    cases h
    exact Nat.lt_succ_self _

theorem startsWith_shorter {key word : Str} (h : startsWith key word = true) (hne : word ≠ []) :
    (key.drop word.length).length < key.length := by
  obtain ⟨rest, rfl⟩ := List.isPrefixOf_iff_prefix.mp h
  have := List.length_pos_of_ne_nil hne
  rw [List.drop_left, List.length_append]
  omega

/-- The loop of both functions: `code` is replaced by `text` first, and then another test is made. -/
def guiKeyReplaceLoop (code text : Str) (slot : GuiKeySlot) (key : Str) : Option Str :=
  if key = [] then some []
  else
    let first := if startsWith key code then (text, key.drop code.length) else ([], key)
    match _h : slot.read first.2 with
    | none => none
    | some turn => (guiKeyReplaceLoop code text slot turn.2).map (first.1 ++ turn.1 ++ ·)
termination_by key.length
decreasing_by
  have hlt := slot.shorter _ _ _ _h
  have hle : first.2.length ≤ key.length := by
    show (if startsWith key code then (text, key.drop code.length) else ([], key)).2.length ≤ key.length
    split
    · exact (List.length_drop ..).trans_le (Nat.sub_le ..)
    · exact Nat.le_refl _
  omega

/-- The tests of `gui_key_get_internal_code` after that for `meta2-`. -/
def guiKeyInternalCodeSlot : GuiKeySlot where
  read key :=
    if startsWith key (lit "meta-") then some ([0x01, ch '['], key.drop 5)
    else if startsWith key (lit "ctrl-") then some ([0x01], key.drop 5)
    else if startsWith key (lit "space") then some ([ch ' '], key.drop 5)
    else guiKeyCopyChar key
  shorter key text rest h := by
    split at h
    · cases h
      exact startsWith_shorter ‹_› (by decide)
    · split at h
      · cases h
        exact startsWith_shorter ‹_› (by decide)
      · split at h
        · cases h
          exact startsWith_shorter ‹_› (by decide)
        · exact guiKeyCopyChar_shorter h

/-- `gui_key_get_internal_code`. -/
def guiKeyGetInternalCode (key : Str) : Option Str :=
  if key.head? = some (ch '@') ∧ (strchr key (ch ':')).isSome then some key
  else guiKeyReplaceLoop (lit "meta2-") [0x01, ch '[', ch '['] guiKeyInternalCodeSlot key

/-- The tests of `gui_key_get_expanded_name` after that for `meta2-`. -/
def guiKeyExpandedNameSlot : GuiKeySlot where
  read key :=
    if startsWith key [0x01, ch '['] then some (lit "meta-", key.drop 2)
    else if startsWith key [0x01] ∧ key.tail ≠ [] then some (lit "ctrl-", key.drop 1)
    else if startsWith key [ch ' '] then some (lit "space", key.drop 1)
    else guiKeyCopyChar key
  shorter key text rest h := by
    split at h
    · cases h
      exact startsWith_shorter ‹_› (by decide)
    · split at h
      · cases h
        exact startsWith_shorter (And.left ‹_›) (by decide)
      · split at h
        · cases h
          exact startsWith_shorter ‹_› (by decide)
        · exact guiKeyCopyChar_shorter h

/-- `gui_key_get_expanded_name`. -/
def guiKeyGetExpandedName (key : Str) : Option Str :=
  guiKeyReplaceLoop [0x01, ch '[', ch '['] (lit "meta2-") guiKeyExpandedNameSlot key

/-! ## Areas -/

inductive GuiKeyFocus
  | any
  | chat
  | bar
  | item
  deriving DecidableEq

/-- `gui_key_focus_string`. -/
def guiKeyFocusString : List (GuiKeyFocus × Str) :=
  [(.any, lit "*"), (.chat, lit "chat"), (.bar, lit "bar"), (.item, lit "item")]

/-- The name in parentheses after the type of an area, `*` without one; `none` if there is something else. -/
def guiKeyAreaName (afterType : Str) : Option Str :=
  if afterType = [] then some (lit "*")
  else if afterType.head? = some (ch '(') ∧ afterType.tail ≠ [] then
    (strchr afterType (ch ')')).map fun posEnd => strndup afterType.tail (off afterType posEnd - 1)
  else none

/-- `gui_key_set_area_type_name`: `none` if no area is found. -/
def guiKeySetAreaTypeName (area : Str) : Option (GuiKeyFocus × Str) :=
  guiKeyFocusString.findSome? fun focus =>
    if startsWith area focus.2 then
      if focus.1 = .any then some (focus.1, lit "*")
      else (guiKeyAreaName (area.drop focus.2.length)).map fun name => (focus.1, name)
    else none

/-- An area of a key: its type and name, NULL if it is not set. -/
structure GuiKeyArea where
  areaType : GuiKeyFocus
  areaName : Option Str
  deriving DecidableEq

def guiKeySetArea (area : Option Str) : GuiKeyArea :=
  match area with
  | none => ⟨.any, some (lit "*")⟩
  | some area =>
    match guiKeySetAreaTypeName area with
    | some (areaType, areaName) => ⟨areaType, some areaName⟩
    | none => ⟨.any, none⟩

/-- `gui_key_set_areas`: the two areas of a key. -/
def guiKeySetAreas (key : Str) : GuiKeyArea × GuiKeyArea :=
  if key.head? ≠ some (ch '@') then (⟨.any, none⟩, ⟨.any, none⟩)
  else
    match strchr key.tail (ch ':') with
    | none => (⟨.any, none⟩, ⟨.any, none⟩)
    | some posColon =>
      -- the areas are before the colon
      let areas := strndup key.tail (off key.tail posColon)
      match strchr areas (ch '>') with
      | none => (guiKeySetArea (some areas), guiKeySetArea none)
      | some posArea2 =>
        (guiKeySetArea (if off areas posArea2 > 0 then some (strndup areas (off areas posArea2)) else none),
          guiKeySetArea (some posArea2.tail))

/-! ## Lists of keys -/

/-- A key, with the areas that are set from it. -/
structure GuiKey where
  key : Str
  area1 : GuiKeyArea
  area2 : GuiKeyArea
  areas : (area1, area2) = guiKeySetAreas key

inductive GuiKeyContext
  | default
  | search
  | cursor
  | mouse
  deriving DecidableEq

/-- The keys in memory, with `gui_keys`, `last_gui_key` and `gui_keys_count`. -/
structure GuiKeys where
  memory : Heap GuiKey
  ends : GuiKeyContext → ListEnds
  count : GuiKeyContext → Int

/-- `gui_key_search_context`, with `gui_key_context_string`; `none` for -1. -/
def guiKeySearchContext (context : Str) : Option GuiKeyContext :=
  ([(.default, lit "default"), (.search, lit "search"), (.cursor, lit "cursor"), (.mouse, lit "mouse")].find? fun c =>
    stringStrcasecmp c.2 context = 0).map Prod.fst

/-- `gui_key_free`, for a key of a context. -/
def guiKeyFree (keys : GuiKeys) (context : GuiKeyContext) (key : Addr) : Option GuiKeys :=
  (unlinkNode keys.memory (keys.ends context) key).map fun unlinked =>
    { memory := unlinked.1
      ends := Function.update keys.ends context unlinked.2
      count := Function.update keys.count context (keys.count context - 1) }

/-- `gui_key_unbind` without buffer, with the number of keys removed. -/
def guiKeyUnbind (rounds : Nat) (keys : GuiKeys) (context : GuiKeyContext) (key : Str) : Option (GuiKeys × Int) :=
  (guiKeyGetInternalCode key).bind fun internalCode =>
    (keys.memory.find (fun ptrKey => ptrKey.key = internalCode) rounds (keys.ends context).first).bind fun ptrKey =>
      match ptrKey with
      | none => some (keys, 0)
      | some ptrKey => (guiKeyFree keys context ptrKey).map fun keys => (keys, 1)

/-- The test of `gui_key_unbind_plugin` on the areas of a key. -/
def guiKeyAreaMatches (areaType : GuiKeyFocus) (areaName : Str) (key : GuiKey) : Bool :=
  (key.area1.areaType = areaType && key.area1.areaName = some areaName) ||
    (key.area2.areaType = areaType && key.area2.areaName = some areaName)

/-- The loop of `gui_key_unbind_plugin` on the keys of a context. -/
def guiKeyUnbindAreaLoop (rounds : Nat) (context : GuiKeyContext) (areaType : GuiKeyFocus) (areaName : Str) :
    (turns : Nat) → (ptrKey : Option Addr) → GuiKeys → Int → Option (GuiKeys × Int)
  | _, none, keys, numKeys => some (keys, numKeys)
  | 0, some _, _, _ => none
  | turns + 1, some ptrKey, keys, numKeys =>
    (keys.memory ptrKey).bind fun node =>
      (if guiKeyAreaMatches areaType areaName node.data then guiKeyUnbind rounds keys context node.data.key
        else some (keys, 0)).bind fun unbound =>
        -- the key, which may be freed, is read for the next one
        (unbound.1.memory ptrKey).bind fun node =>
          guiKeyUnbindAreaLoop rounds context areaType areaName turns node.next unbound.1 (numKeys + unbound.2)

/-- `gui_key_unbind_plugin`, with the number of keys removed. -/
def guiKeyUnbindPlugin (rounds : Nat) (keys : GuiKeys) (context key : Str) : Option (GuiKeys × Int) :=
  match guiKeySearchContext context with
  | none => some (keys, 0)
  | some ctxt =>
    let key := if startsWith key (lit "quiet:") then key.drop 6 else key
    if startsWith key (lit "area:") then
      match guiKeySetAreaTypeName (key.drop 5) with
      | some (areaType, areaName) =>
        guiKeyUnbindAreaLoop rounds ctxt areaType areaName rounds (keys.ends ctxt).first keys 0
      | none => some (keys, 0)
    else guiKeyUnbind rounds keys ctxt key

end Wirc

import WhoreIrc.Framework.Chain
import WhoreIrc.Impl.Utf8

/-!
# Groups and nicks of a nicklist (`gui/gui-nicklist.c`)

The tree of groups with their nicks in memory, how it is searched, and how a group is
added. A result is `none` if memory that is not in use is read, or if a loop does not
end. Signals are left out, and the colors and prefixes, which nothing here reads.
-/

namespace Wirc

open Framework

/-- A nick; the links are those of its node. -/
structure GuiNick where
  group : Addr
  name : Str

/-- A group of nicks; the links to the previous and the next group are those of its node. -/
structure GuiNickGroup where
  name : Str
  visible : Bool
  level : Nat
  parent : Option Addr
  children : ListEnds
  nicks : ListEnds

/-- The nicklist of a buffer. -/
structure GuiNicklist where
  groups : Heap GuiNickGroup
  nicks : Heap GuiNick
  root : Option Addr
  count : Int
  groupsCount : Int
  visibleCount : Int
  displayGroups : Bool

/-! ## The next item -/

/-- The pointers to a group and to a nick: a group if the second one is NULL. -/
abbrev GuiNicklistItem := Option Addr × Option Addr

/-- `while ((ptr_group = ptr_group->parent))`, from a parent on. -/
def guiNicklistFindNextByParents (nicklist : GuiNicklist) : (rounds : Nat) → (ptrGroup : Option Addr) →
    Option GuiNicklistItem
  | _, none => some (none, none)
  | 0, some _ => none
  | rounds + 1, some ptrGroup =>
    (nicklist.groups ptrGroup).bind fun node =>
      if node.data.nicks.first.isSome then some (some ptrGroup, node.data.nicks.first)
      else if node.next.isSome then some (node.next, none)
      else guiNicklistFindNextByParents nicklist rounds node.data.parent

/-- The next group, from `*nick = NULL` on. -/
def guiNicklistNextGroup (rounds : Nat) (nicklist : GuiNicklist) (ptrGroup : Addr) : Option GuiNicklistItem :=
  (nicklist.groups ptrGroup).bind fun node =>
    if node.next.isSome then some (node.next, none)
    else guiNicklistFindNextByParents nicklist rounds node.data.parent

/-- `gui_nicklist_get_next_item`. -/
def guiNicklistGetNextItem (rounds : Nat) (nicklist : GuiNicklist) : GuiNicklistItem → Option GuiNicklistItem
  | (none, none) => some (nicklist.root, none)
  | (group, some nick) =>
    (nicklist.nicks nick).bind fun node =>
      if node.next.isSome then some (group, node.next)
      else (group.or nicklist.root).bind (guiNicklistNextGroup rounds nicklist)
  | (some group, none) =>
    (nicklist.groups group).bind fun node =>
      if node.data.children.first.isSome then some (node.data.children.first, none)
      else if node.data.nicks.first.isSome then some (some group, node.data.nicks.first)
      else if node.next.isSome then some (node.next, none)
      else guiNicklistNextGroup rounds nicklist group

/-! ## Searching a group -/

/-- `gui_nicklist_get_group_start`. -/
def guiNicklistGetGroupStart (name : Str) : Str :=
  let ptrName := name.dropWhile isdigit
  if ptrName.head? = some (ch '|') ∧ ptrName ≠ name then ptrName.tail else name

/-- The comparison of a group with the name searched. -/
def guiNickGroupNamed (name : Str) (skipDigits : Bool) (group : GuiNickGroup) : Bool :=
  (if skipDigits then guiNicklistGetGroupStart group.name else group.name) = name

/-- `gui_nicklist_search_group_internal`, with at most `depth` calls one in another. -/
def guiNicklistSearchGroupInternal (rounds : Nat) (nicklist : GuiNicklist) (name : Str) (skipDigits : Bool) :
    (depth : Nat) → (fromGroup : Addr) → Option (Option Addr)
  | 0, _ => none
  | depth + 1, fromGroup =>
    (nicklist.groups fromGroup).bind fun node =>
      (node.data.children.first.elim (some none)
        (guiNicklistSearchGroupInternal rounds nicklist name skipDigits depth)).bind fun ptrGroup =>
        if ptrGroup.isSome then some ptrGroup
        else nicklist.groups.find (guiNickGroupNamed name skipDigits) rounds (some fromGroup)

/-- `gui_nicklist_search_group`. -/
def guiNicklistSearchGroup (rounds depth : Nat) (nicklist : GuiNicklist) (fromGroup : Option Addr) (name : Str) :
    Option (Option Addr) :=
  (fromGroup.or nicklist.root).elim (some none)
    (guiNicklistSearchGroupInternal rounds nicklist name (guiNicklistGetGroupStart name = name) depth)

/-! ## Adding a group -/

/-- `gui_nicklist_find_pos_group`. -/
def guiNicklistFindPosGroup (rounds : Nat) (memory : Heap GuiNickGroup) (groups : Option Addr) (group : GuiNickGroup) :
    Option (Option Addr) :=
  memory.find (fun ptrGroup => stringStrcasecmp group.name ptrGroup.name < 0) rounds groups

/-- `gui_nicklist_insert_group_sorted`, of a group at the address `a`. -/
def guiNicklistInsertGroupSorted (rounds : Nat) (memory : Heap GuiNickGroup) (ends : ListEnds) (a : Addr)
    (group : GuiNickGroup) : Option (Heap GuiNickGroup × ListEnds) :=
  if ends.first.isSome then
    match guiNicklistFindPosGroup rounds memory ends.first group with
    | none => none
    | some (some posGroup) => linkBefore memory ends posGroup a group
    | some none => some (linkLast memory ends a group)
  else some (memory.store a ⟨group, none, none⟩, ⟨some a, some a⟩)

/-- The new group in the list of its parent, or as the root; `malloc` gave the address `a`. -/
def guiNicklistLinkGroup (rounds : Nat) (nicklist : GuiNicklist) (a : Addr) (parent : Option Addr) (name : Str)
    (visible : Bool) : Option GuiNicklist :=
  match parent with
  | none =>
    let group := ⟨name, visible, 0, none, ⟨none, none⟩, ⟨none, none⟩⟩
    some { nicklist with groups := nicklist.groups.store a ⟨group, none, none⟩, root := some a }
  | some parent =>
    (nicklist.groups parent).bind fun node =>
      let group := ⟨name, visible, node.data.level + 1, some parent, ⟨none, none⟩, ⟨none, none⟩⟩
      (guiNicklistInsertGroupSorted rounds nicklist.groups node.data.children a group).map fun inserted =>
        { nicklist with
          groups := inserted.1.modify parent fun node => { node with data := { node.data with children := inserted.2 } }
          count := nicklist.count + 1
          groupsCount := nicklist.groupsCount + 1 }

/-- `gui_nicklist_add_group`, with the group that is returned. -/
def guiNicklistAddGroup (rounds depth : Nat) (nicklist : GuiNicklist) (newGroup : Addr) (parentGroup : Option Addr)
    (name : Str) (visible : Bool) : Option (GuiNicklist × Option Addr) :=
  (guiNicklistSearchGroup rounds depth nicklist parentGroup name).bind fun found =>
    if found.isSome then some (nicklist, none)
    else
      match nicklist.groups.malloc newGroup with
      | none => some (nicklist, none)
      | some a =>
        (guiNicklistLinkGroup rounds nicklist a (parentGroup.or nicklist.root) name visible).map fun nicklist =>
          (if nicklist.displayGroups && visible then { nicklist with visibleCount := nicklist.visibleCount + 1 }
            else nicklist, some a)

end Wirc

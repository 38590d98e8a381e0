import WhoreIrc.Impl.GuiNicklist

/-!
# The tree of a nicklist

What is expected of a walk over the items of a nicklist, and of the search of a group by
its name, where the tree is given by the list of the children of each group, and the list
of its nicks.
-/

namespace Wirc

open Framework

/-- The children of each group, the root for NULL, and the nicks of each group. -/
structure NicklistTree where
  children : Option Addr → List (Addr × GuiNickGroup)
  nicks : Addr → List (Addr × GuiNick)

/-- The nicklist in memory is a tree. -/
structure NicklistLinked (nicklist : GuiNicklist) (tree : NicklistTree) : Prop where
  groups : Lists nicklist.groups tree.children
  nicks : Lists nicklist.nicks tree.nicks
  root : nicklist.root = firstPtr (tree.children none) none
  single : (tree.children none).length ≤ 1
  parent : ∀ p, ∀ x ∈ tree.children p, x.2.parent = p
  ends : ∀ p, ∀ x ∈ tree.children p, x.2.children = endsOf (tree.children (some x.1))
  nickEnds : ∀ p, ∀ x ∈ tree.children p, x.2.nicks = endsOf (tree.nicks x.1)
  nickGroup : ∀ a, ∀ y ∈ tree.nicks a, y.2.group = a ∧ ∃ p, a ∈ addrs (tree.children p)
  rootLevel : ∀ x ∈ tree.children none, x.2.level = 0
  level : ∀ p, ∀ x ∈ tree.children (some p), ∃ q y, (p, y) ∈ tree.children q ∧ x.2.level = y.level + 1

/-- A tree has groups on less than `depth` levels. -/
def NicklistTree.Below (tree : NicklistTree) (depth : Nat) : Prop := ∀ p, ∀ x ∈ tree.children p, x.2.level < depth

/-! ## A walk over the items -/

/-- An item of the tree: a group, or a nick with its group. -/
def NicklistTree.HasItem (tree : NicklistTree) (item : GuiNicklistItem) : Prop :=
  ∃ p, ∃ x ∈ tree.children p, item = (some x.1, none) ∨ ∃ y ∈ tree.nicks x.1, item = (some x.1, some y.1)

/-- Each item of the tree once, and each nick after its group. -/
structure NicklistVisited (tree : NicklistTree) (visited : List GuiNicklistItem) : Prop where
  nodup : visited.Nodup
  mem : ∀ item, item ∈ visited ↔ tree.HasItem item
  after : ∀ before group nick after, visited = before ++ (some group, some nick) :: after → (some group, none) ∈ before

/-! ## Searching a group -/

/-- A group has the name, after its digits if there are none in the name. -/
def groupHasName (name : Str) (group : GuiNickGroup) : Bool :=
  guiNickGroupNamed name (guiNicklistGetGroupStart name = name) group

/-- A group of the tree has the name. -/
def NicklistTree.HasName (tree : NicklistTree) (name : Str) : Prop :=
  ∃ p, ∃ x ∈ tree.children p, groupHasName name x.2

/-- The children of `q` are reached from those of `p` by the first child only. -/
inductive NicklistTree.FirstReach (tree : NicklistTree) : (p q : Option Addr) → Prop
  | refl (p : Option Addr) : tree.FirstReach p p
  | step {p q : Option Addr} {x : Addr × GuiNickGroup} (hfirst : (tree.children p).head? = some x)
      (h : tree.FirstReach (some x.1) q) : tree.FirstReach p q

/-- The search from the root finds a group with the name if there is one, and no second one is added there. -/
structure GroupSearchRight (rounds depth : Nat) (nicklist : GuiNicklist) (tree : NicklistTree) (name : Str) : Prop where
  search : ∀ fromGroup, fromGroup = none ∨ fromGroup = nicklist.root →
    ∃ found, guiNicklistSearchGroup rounds depth nicklist fromGroup name = some found ∧
      (found.isSome ↔ tree.HasName name) ∧
      ∀ a, found = some a → ∃ p, ∃ x ∈ tree.children p, x.1 = a ∧ groupHasName name x.2
  add : tree.HasName name → ∀ newGroup parentGroup visible, parentGroup = none ∨ parentGroup = nicklist.root →
    guiNicklistAddGroup rounds depth nicklist newGroup parentGroup name visible = some (nicklist, none)

/-! ## Groups added one after another -/

/-- A nicklist to which groups were added, by calls with the parent NULL or a group returned by a call before. -/
inductive GroupsAdded (rounds depth : Nat) : (calls : Nat) → (groups : List Addr) → GuiNicklist → Prop
  | nil (displayGroups : Bool) :
    GroupsAdded rounds depth 0 [] ⟨fun _ => none, fun _ => none, none, 0, 0, 0, displayGroups⟩
  | add {calls : Nat} {groups : List Addr} {nicklist nicklist' : GuiNicklist} {newGroup : Addr}
    {parentGroup added : Option Addr} {name : Str} {visible : Bool} (h : GroupsAdded rounds depth calls groups nicklist)
    (hparent : ∀ p, parentGroup = some p → p ∈ groups)
    (hadd : guiNicklistAddGroup rounds depth nicklist newGroup parentGroup name visible = some (nicklist', added)) :
    GroupsAdded rounds depth (calls + 1) (added.toList ++ groups) nicklist'

end Wirc

import WhoreIrc.Framework.Walk
import WhoreIrc.Spec.GuiNicklist

/-!
# The items of a nicklist, and the search of a group

* `next_item_visits`: the items after one another are those of the tree, the children of a
  group before its nicks (`items`). After the last item of a group the next one is found
  by its parents: what they give is given with the level of the group (`walk_items`).
* `groupSearchRight_iff`: the search goes down into the children of the first group of each
  list only, so it finds the groups reached by first children (`searchInternal_found`).
* `groupsAdded_linked`: each call of `gui_nicklist_add_group` leaves a tree, with one more
  group in the list of its parent (`linkGroup_linked`, `linkRoot_linked`).
-/

namespace Wirc

open Framework

variable {nicklist : GuiNicklist} {tree : NicklistTree} {rounds depth : Nat}

/-! ## The items of the tree -/

/-- The items of some groups: each with its children and then its nicks. -/
def NicklistTree.items (tree : NicklistTree) : (depth : Nat) → (groups : List (Addr × GuiNickGroup)) → List GuiNicklistItem
  | 0, _ => []
  | depth + 1, groups => groups.flatMap fun x =>
    (some x.1, none) :: (tree.items depth (tree.children (some x.1)) ++ (tree.nicks x.1).map fun y => (some x.1, some y.1))

theorem items_zero (groups : List (Addr × GuiNickGroup)) : tree.items 0 groups = [] := rfl

theorem items_cons (x : Addr × GuiNickGroup) (groups : List (Addr × GuiNickGroup)) :
    tree.items (depth + 1) (x :: groups) =
      (some x.1, none) :: (tree.items depth (tree.children (some x.1)) ++
        (tree.nicks x.1).map fun y => (some x.1, some y.1)) ++ tree.items (depth + 1) groups :=
  List.flatMap_cons

theorem items_head {groups : List (Addr × GuiNickGroup)} (tail : List GuiNicklistItem) :
    (tree.items (depth + 1) groups ++ tail).head? =
      (groups.head?.map fun x => (some x.1, none)).or tail.head? := by
  cases groups with
  | nil => rfl
  | cons x groups => rfl

/-- An item of some groups is a group below them, or one of its nicks. -/
theorem hasItem_of_items {groups : List (Addr × GuiNickGroup)} {p : Option Addr}
    (hgroups : ∀ x ∈ groups, x ∈ tree.children p) {item : GuiNicklistItem} (h : item ∈ tree.items depth groups) :
    tree.HasItem item := by
  induction depth generalizing groups p with
  | zero => exact absurd h List.not_mem_nil
  | succ depth ih =>
    obtain ⟨x, hx, hitem⟩ := List.mem_flatMap.mp h
    obtain rfl | hitem := List.mem_cons.mp hitem
    · exact ⟨p, x, hgroups x hx, .inl rfl⟩
    · obtain hitem | hitem := List.mem_append.mp hitem
      · exact ih (fun _ h => h) hitem
      · obtain ⟨y, hy, rfl⟩ := List.mem_map.mp hitem
        exact ⟨p, x, hgroups x hx, .inr ⟨y, hy, rfl⟩⟩

/-- Below the root is every group, with the items below it. -/
theorem NicklistLinked.mem_items (h : NicklistLinked nicklist tree) (hdepth : tree.Below depth) {p : Option Addr}
    {x : Addr × GuiNickGroup} (hx : x ∈ tree.children p) :
    ∀ item ∈ tree.items (depth - x.2.level) [x], item ∈ tree.items depth (tree.children none) := by
  obtain ⟨depth, rfl⟩ : ∃ d, depth = d + 1 := ⟨depth - 1, by have := hdepth p x hx; omega⟩
  induction hk : x.2.level generalizing p x with
  | zero =>
    cases p with
    | none =>
      intro item hitem
      obtain ⟨x', hx', hitem⟩ := List.mem_flatMap.mp hitem
      rw [List.mem_singleton.mp hx'] at hitem
      exact List.mem_flatMap.mpr ⟨x, hx, hitem⟩
    | some p =>
      obtain ⟨q, y, -, hlevel⟩ := h.level p x hx
      omega
  | succ k ih =>
    cases p with
    | none =>
      have := h.rootLevel x hx
      omega
    | some p =>
      obtain ⟨q, y, hy, hlevel⟩ := h.level p x hx
      have hyk : y.level = k := by omega
      have hlt := hdepth _ x hx
      obtain ⟨d, hd⟩ : ∃ d, depth + 1 - k = d + 1 := ⟨depth - k, by omega⟩
      obtain ⟨d', hd'⟩ : ∃ d', d = d' + 1 := ⟨d - 1, by omega⟩
      have hsub : depth + 1 - (k + 1) = d' + 1 := by omega
      intro item hitem
      refine ih hy hyk item ?_
      rw [hd, items_cons]
      refine List.mem_append_left _ (List.mem_cons_of_mem _ (List.mem_append_left _ ?_))
      rw [hsub] at hitem
      obtain ⟨x', hx', hitem⟩ := List.mem_flatMap.mp hitem
      rw [List.mem_singleton.mp hx'] at hitem
      rw [hd']
      exact List.mem_flatMap.mpr ⟨x, hx, hitem⟩

/-- The items of the root are those of the tree. -/
theorem NicklistLinked.mem_items_iff (h : NicklistLinked nicklist tree) (hdepth : tree.Below depth)
    {item : GuiNicklistItem} : item ∈ tree.items depth (tree.children none) ↔ tree.HasItem item := by
  constructor
  · exact hasItem_of_items fun _ h => h
  · rintro ⟨p, x, hx, hitem⟩
    refine h.mem_items hdepth hx item ?_
    obtain ⟨d, hd⟩ : ∃ d, depth - x.2.level = d + 1 := ⟨depth - x.2.level - 1, by have := hdepth p x hx; omega⟩
    rw [hd, items_cons]
    obtain rfl | ⟨y, hy, rfl⟩ := hitem
    · exact List.mem_cons_self
    · exact List.mem_append_left _ (List.mem_cons_of_mem _ (List.mem_append_right _ (List.mem_map_of_mem hy)))

/-! ## Nicks after their groups -/

/-- Each nick comes after its group. -/
def NicksAfter (items : List GuiNicklistItem) : Prop :=
  ∀ before group nick after, items = before ++ (some group, some nick) :: after → (some group, none) ∈ before

theorem NicksAfter.append {items items' : List GuiNicklistItem} (h : NicksAfter items) (h' : NicksAfter items') :
    NicksAfter (items ++ items') := by
  intro before group nick after heq
  obtain ⟨rest, hitems, hafter⟩ | ⟨rest, hbefore, hafter⟩ := List.append_eq_append_iff.mp heq
  · exact hitems ▸ List.mem_append_right _ (h' _ _ _ _ hafter)
  · cases rest with
    | nil =>
      rw [List.append_nil] at hbefore
      exact absurd (h' [] group nick after hafter.symm) List.not_mem_nil
    | cons item rest =>
      cases hafter
      exact h _ _ _ _ hbefore

theorem nicksAfter_group (x : Addr) (nicks : List (Addr × GuiNick)) {items : List GuiNicklistItem} (h : NicksAfter items) :
    NicksAfter ((some x, none) :: (items ++ nicks.map fun y => (some x, some y.1))) := by
  intro before group nick after heq
  cases before with
  | nil => cases heq
  | cons item before =>
    obtain ⟨rfl, hrest⟩ := List.cons.inj heq
    obtain ⟨rest, hitems, hafter⟩ | ⟨rest, hbefore, hafter⟩ := List.append_eq_append_iff.mp hrest
    · have hmem : (some group, some nick) ∈ nicks.map fun y => ((some x, some y.1) : GuiNicklistItem) :=
        hafter ▸ List.mem_append_right _ List.mem_cons_self
      obtain ⟨y, -, hy⟩ := List.mem_map.mp hmem
      cases hy
      exact List.mem_cons_self
    · cases rest with
      | nil =>
        rw [List.nil_append] at hafter
        have hmem : (some group, some nick) ∈ nicks.map fun y => ((some x, some y.1) : GuiNicklistItem) :=
          hafter ▸ List.mem_cons_self
        obtain ⟨y, -, hy⟩ := List.mem_map.mp hmem
        cases hy
        exact List.mem_cons_self
      | cons item rest =>
        cases hafter
        exact List.mem_cons_of_mem _ (h _ _ _ _ hbefore)

theorem nicksAfter_items (groups : List (Addr × GuiNickGroup)) : NicksAfter (tree.items depth groups) := by
  induction depth generalizing groups with
  | zero =>
    intro before group nick after heq
    exact absurd heq.symm (List.append_ne_nil_of_right_ne_nil _ (List.cons_ne_nil _ _))
  | succ depth ih =>
    induction groups with
    | nil =>
      intro before group nick after heq
      exact absurd heq.symm (List.append_ne_nil_of_right_ne_nil _ (List.cons_ne_nil _ _))
    | cons x groups ihgroups =>
      rw [items_cons]
      exact (nicksAfter_group x.1 _ (ih _)).append ihgroups

/-! ## The walk -/

/-- The item that follows a group and what is below it: the next group, or the one found by the parents. -/
def itemAfter (groups : List (Addr × GuiNickGroup)) (found : GuiNicklistItem) : GuiNicklistItem :=
  groups.head?.elim found fun x => (some x.1, none)

/-- The first item of what follows. -/
theorem items_head_after {groups : List (Addr × GuiNickGroup)} (hgroups : depth = 0 → groups = [])
    (found : GuiNicklistItem) : (tree.items depth groups ++ [found]).head? = some (itemAfter groups found) := by
  cases depth with
  | zero =>
    rw [hgroups rfl]
    rfl
  | succ depth => cases groups <;> rfl

/-- The nicks of a group, and what follows the group. -/
theorem walk_nicks (h : NicklistLinked nicklist tree) {x : Addr × GuiNickGroup}
    {found : GuiNicklistItem} (hfound : guiNicklistNextGroup rounds nicklist x.1 = some found)
    {pre ys : List (Addr × GuiNick)} (hnicks : tree.nicks x.1 = pre ++ ys) :
    (ys.map (fun y => ((some x.1, some y.1) : GuiNicklistItem)) ++ [found]).IsChain fun item item' =>
      guiNicklistGetNextItem rounds nicklist item = some item' := by
  induction ys generalizing pre with
  | nil => exact List.isChain_singleton _
  | cons y ys ih =>
    have hseg := h.nicks.linked x.1
    rw [hnicks, seg_append] at hseg
    rw [List.map_cons, List.cons_append]
    refine List.isChain_cons.mpr ⟨fun item hitem => ?_, ih (hnicks.trans (List.append_cons pre y ys))⟩
    rw [guiNicklistGetNextItem, hseg.2.1, Option.bind_some]
    cases ys with
    | nil =>
      cases hitem
      exact hfound
    | cons y' ys =>
      cases hitem
      rfl

/-- The items below some groups of one level, and what is found by their parent after them. -/
theorem walk_items (h : NicklistLinked nicklist tree) (hdepth : tree.Below depth) (hrounds : depth ≤ rounds)
    {level d : Nat} (hd : d + level = depth) {p : Option Addr} (hp : ∀ x ∈ tree.children p, x.2.level = level)
    {found : GuiNicklistItem}
    (hfound : ∀ r, level ≤ r → guiNicklistFindNextByParents nicklist r p = some found)
    {pre groups : List (Addr × GuiNickGroup)} (hgroups : tree.children p = pre ++ groups) :
    (tree.items d groups ++ [found]).IsChain fun item item' =>
      guiNicklistGetNextItem rounds nicklist item = some item' := by
  induction d generalizing level p found pre groups with
  | zero => exact List.isChain_singleton _
  | succ d ih =>
    induction groups generalizing pre with
    | nil => exact List.isChain_singleton _
    | cons x groups ihgroups =>
      have hx : x ∈ tree.children p := hgroups ▸ List.mem_append_right _ List.mem_cons_self
      have hlevel := hp x hx
      have hseg := h.groups.linked p
      rw [hgroups, seg_append] at hseg
      have hnode := hseg.2.1
      have hrest := ihgroups (hgroups.trans (List.append_cons pre x groups))
      have hafter : (tree.items (d + 1) groups ++ [found]).head? = some (itemAfter groups found) :=
        items_head_after (fun h0 => absurd h0 (Nat.succ_ne_zero d)) found
      -- after the group comes the next one, or what is found by the parents
      have hnext : ∀ r, level ≤ r → (if (firstPtr groups none).isSome then some (firstPtr groups none, none)
          else guiNicklistFindNextByParents nicklist r x.2.parent) = some (itemAfter groups found) := by
        intro r hr
        rw [h.parent p x hx]
        cases groups with
        | nil => exact hfound r hr
        | cons x' groups => rfl
      have hnextGroup : guiNicklistNextGroup rounds nicklist x.1 = some (itemAfter groups found) := by
        rw [guiNicklistNextGroup, hnode]
        exact hnext rounds (by have := hdepth p x hx; omega)
      have hnicks := walk_nicks h hnextGroup (List.nil_append (tree.nicks x.1)).symm
      -- after the children come the nicks of the group
      have hchildren : ∀ r, level + 1 ≤ r → guiNicklistFindNextByParents nicklist r (some x.1) =
          some (((tree.nicks x.1).head?.map fun y => (some x.1, some y.1)).getD (itemAfter groups found)) := by
        intro r hr
        obtain ⟨r, rfl⟩ : ∃ r', r = r' + 1 := ⟨r - 1, by omega⟩
        rw [guiNicklistFindNextByParents, hnode, Option.bind_some]
        dsimp only
        rw [h.nickEnds p x hx, hnext r (by omega)]
        cases tree.nicks x.1 <;> rfl
      have hchildLevel : ∀ z ∈ tree.children (some x.1), z.2.level = level + 1 := by
        intro z hz
        obtain ⟨q, y, hy, hzlevel⟩ := h.level x.1 z hz
        have hyx : y = x.2 := h.groups.data_unique hy hx
        rw [hzlevel, hyx, hlevel]
      have hbelow := ih (by omega : d + (level + 1) = depth) hchildLevel hchildren (List.nil_append _).symm
      have hend := walk_append hnicks hrest hafter
      have hendHead : (((tree.nicks x.1).map fun y => ((some x.1, some y.1) : GuiNicklistItem)) ++
          (tree.items (d + 1) groups ++ [found])).head? =
            some (((tree.nicks x.1).head?.map fun y => (some x.1, some y.1)).getD (itemAfter groups found)) := by
        cases tree.nicks x.1 with
        | nil => exact hafter
        | cons y ys => rfl
      rw [items_cons, List.append_assoc, List.cons_append, List.append_assoc]
      refine List.isChain_cons.mpr ⟨fun item hitem => ?_, walk_append hbelow hend hendHead⟩
      rw [guiNicklistGetNextItem, hnode, Option.bind_some]
      dsimp only
      rw [h.ends p x hx, h.nickEnds p x hx, endsOf, endsOf]
      cases hchild : tree.children (some x.1) with
      | nil =>
        have hnil : tree.items d [] = [] := by cases d <;> rfl
        rw [hchild, hnil, List.nil_append, hendHead] at hitem
        cases hitem
        cases tree.nicks x.1 with
        | nil =>
          cases groups with
          | nil => exact hnextGroup
          | cons x' groups => rfl
        | cons y ys => rfl
      | cons z zs =>
        have hz : z ∈ tree.children (some x.1) := hchild ▸ List.mem_cons_self
        obtain ⟨d, rfl⟩ : ∃ d', d = d' + 1 := ⟨d - 1, by have := hdepth _ z hz; have := hchildLevel z hz; omega⟩
        rw [hchild, items_head] at hitem
        cases hitem
        rfl

/-- The items one after another are those of the tree, each once and nicks after their groups, and then the
pointers are NULL. -/
theorem next_item_visits (h : NicklistLinked nicklist tree) (hdepth : tree.Below rounds) :
    ∃ visited, ((none, none) :: (visited ++ [(none, none)])).IsChain
        (fun item item' => guiNicklistGetNextItem rounds nicklist item = some item') ∧
      NicklistVisited tree visited := by
  have hend : ∀ r, 0 ≤ r → guiNicklistFindNextByParents nicklist r none = some (none, none) := by
    intro r _
    rw [guiNicklistFindNextByParents]
  have hwalk := walk_items h hdepth (Nat.le_refl rounds) (Nat.add_zero rounds) h.rootLevel hend
    (List.nil_append (tree.children none)).symm
  have hmem (item : GuiNicklistItem) : item ∈ tree.items rounds (tree.children none) ↔ tree.HasItem item :=
    h.mem_items_iff hdepth
  refine ⟨tree.items rounds (tree.children none), List.isChain_cons.mpr ⟨fun item hitem => ?_, hwalk⟩,
    walk_nodup (fun a b c hb hc => Option.some.inj (hb.symm.trans hc)) hwalk ?_, hmem, nicksAfter_items _⟩
  · have hzero : rounds = 0 → tree.children none = [] := by
      rintro rfl
      exact List.eq_nil_iff_forall_not_mem.mpr fun x hx => Nat.not_lt_zero _ (hdepth none x hx)
    rw [items_head_after hzero] at hitem
    cases hitem
    rw [guiNicklistGetNextItem, h.root]
    cases tree.children none <;> rfl
  · rw [hmem]
    rintro ⟨p, x, -, hitem | ⟨y, -, hitem⟩⟩ <;> cases hitem

def rootGroup : GuiNickGroup := ⟨lit "root", true, 0, none, ⟨none, none⟩, ⟨some 1, some 1⟩⟩

/-- The root group with one nick. -/
def nickNicklist : GuiNicklist where
  groups := Heap.store (fun _ => none) 1 ⟨rootGroup, none, none⟩
  nicks := Heap.store (fun _ => none) 1 ⟨⟨1, lit "alice"⟩, none, none⟩
  root := some 1
  count := 1
  groupsCount := 0
  visibleCount := 1
  displayGroups := true

def nickTree : NicklistTree where
  children := Function.update (fun _ => []) none [(1, rootGroup)]
  nicks := Function.update (fun _ => []) 1 [(1, ⟨1, lit "alice"⟩)]

theorem mem_nickTree {p : Option Addr} {x : Addr × GuiNickGroup} (hx : x ∈ nickTree.children p) :
    p = none ∧ x = (1, rootGroup) := by
  cases p with
  | none => exact ⟨rfl, List.mem_singleton.mp hx⟩
  | some p => exact absurd hx List.not_mem_nil

theorem nickNicklist_linked : NicklistLinked nickNicklist nickTree := by
  have hempty (D ι : Type) : Lists (fun _ => none) fun _ : ι => ([] : List (Addr × D)) :=
    ⟨fun _ => trivial, fun _ => List.nodup_nil, fun _ _ _ _ h => absurd h List.not_mem_nil⟩
  constructor
  case groups => exact ((hempty _ _).linkFirst (i := none) rfl rfl).1
  case nicks => exact ((hempty _ _).linkFirst (i := 1) rfl rfl).1
  case root => rfl
  case single => exact Nat.le_refl 1
  case parent =>
    intro p x hx
    obtain ⟨rfl, rfl⟩ := mem_nickTree hx
    rfl
  case ends =>
    intro p x hx
    obtain ⟨rfl, rfl⟩ := mem_nickTree hx
    rfl
  case nickEnds =>
    intro p x hx
    obtain ⟨rfl, rfl⟩ := mem_nickTree hx
    rfl
  case nickGroup =>
    intro a y hy
    by_cases ha : a = 1
    · subst ha
      obtain rfl := List.mem_singleton.mp hy
      exact ⟨rfl, none, List.mem_cons_self⟩
    · have hnil : nickTree.nicks a = [] := dif_neg ha
      rw [hnil] at hy
      exact absurd hy List.not_mem_nil
  case rootLevel =>
    intro x hx
    obtain ⟨-, rfl⟩ := mem_nickTree hx
    rfl
  case level =>
    intro p x hx
    obtain ⟨hp, -⟩ := mem_nickTree hx
    cases hp

/-- The root, then its nick, then NULL. -/
theorem next_item_visits_nick :
    ∃ visited, ((none, none) :: (visited ++ [(none, none)])).IsChain
        (fun item item' => guiNicklistGetNextItem 1 nickNicklist item = some item') ∧
      NicklistVisited nickTree visited :=
  next_item_visits nickNicklist_linked fun p x hx => by
    obtain ⟨-, rfl⟩ := mem_nickTree hx
    decide

/-! ## The search of a group -/

section Search

variable {name : Str} {skipDigits : Bool} {p q : Option Addr}

theorem firstReach_iff {x : Addr × GuiNickGroup} {groups : List (Addr × GuiNickGroup)}
    (hchildren : tree.children p = x :: groups) : tree.FirstReach p q ↔ q = p ∨ tree.FirstReach (some x.1) q := by
  constructor
  · intro h
    cases h with
    | refl => exact .inl rfl
    | step hfirst h =>
      rw [hchildren] at hfirst
      cases hfirst
      exact .inr h
  · rintro (rfl | h)
    · exact .refl q
    · exact .step (by rw [hchildren]; rfl) h

theorem firstReach_nil (hchildren : tree.children p = []) : tree.FirstReach p q ↔ q = p := by
  constructor
  · intro h
    cases h with
    | refl => rfl
    | step hfirst h =>
      rw [hchildren] at hfirst
      cases hfirst
  · rintro rfl
    exact .refl q

/-- What is found is a group with the name, and only groups reached by first children are searched. -/
def SearchFound (tree : NicklistTree) (name : Str) (skipDigits : Bool) (p : Option Addr) (found : Option Addr) : Prop :=
  (found.isSome ↔ ∃ q, tree.FirstReach p q ∧ ∃ x ∈ tree.children q, guiNickGroupNamed name skipDigits x.2) ∧
    ∀ a, found = some a → ∃ q, ∃ x ∈ tree.children q, x.1 = a ∧ guiNickGroupNamed name skipDigits x.2

/-- The loop on the groups of a list. -/
theorem find_named (name : Str) (skipDigits : Bool) (h : NicklistLinked nicklist tree) 
    (hrounds : ∀ p, (tree.children p).length ≤ rounds) (p : Option Addr) :
    ∃ found, nicklist.groups.find (guiNickGroupNamed name skipDigits) rounds (firstPtr (tree.children p) none) = some found ∧
      (found.isSome ↔ ∃ x ∈ tree.children p, guiNickGroupNamed name skipDigits x.2) ∧
      ∀ a, found = some a → ∃ x ∈ tree.children p, x.1 = a ∧ guiNickGroupNamed name skipDigits x.2 := by
  refine ⟨_, (h.groups.linked p).find (hrounds p), ?_, fun a ha => ?_⟩
  · rw [Option.isSome_map, List.find?_isSome]
  · obtain ⟨x, hx, rfl⟩ := Option.map_eq_some_iff.mp ha
    have hnamed := List.find?_some hx
    exact ⟨x, List.mem_of_find?_eq_some hx, rfl, hnamed⟩

theorem searchInternal_found (h : NicklistLinked nicklist tree) (hdepth : tree.Below depth)
    (hrounds : ∀ p, (tree.children p).length ≤ rounds) {d level : Nat} (hd : depth ≤ d + level)
    (hp : ∀ x ∈ tree.children p, x.2.level = level) {x : Addr × GuiNickGroup} {groups : List (Addr × GuiNickGroup)}
    (hchildren : tree.children p = x :: groups) :
    ∃ found, guiNicklistSearchGroupInternal rounds nicklist name skipDigits d x.1 = some found ∧
      SearchFound tree name skipDigits p found := by
  have hx : x ∈ tree.children p := hchildren ▸ List.mem_cons_self
  have hlevel := hp x hx
  induction d generalizing level p x groups with
  | zero =>
    have := hdepth p x hx
    omega
  | succ d ih =>
    have hseg := h.groups.linked p
    rw [hchildren] at hseg
    -- the children of the first group only
    obtain ⟨below, hbelow, hsearch, hgroup⟩ : ∃ below, x.2.children.first.elim (some none)
        (guiNicklistSearchGroupInternal rounds nicklist name skipDigits d) = some below ∧
          SearchFound tree name skipDigits (some x.1) below := by
      rw [h.ends p x hx, endsOf]
      cases hsub : tree.children (some x.1) with
      | nil =>
        refine ⟨none, rfl, iff_of_false Bool.false_ne_true ?_, fun a ha => by cases ha⟩
        rintro ⟨q, hq, z, hz, -⟩
        rw [(firstReach_nil hsub).mp hq, hsub] at hz
        exact absurd hz List.not_mem_nil
      | cons z zs =>
        have hz : z ∈ tree.children (some x.1) := hsub ▸ List.mem_cons_self
        have hchildLevel : ∀ z ∈ tree.children (some x.1), z.2.level = level + 1 := by
          intro z hz
          obtain ⟨q, y, hy, hzlevel⟩ := h.level x.1 z hz
          have hyx : y = x.2 := h.groups.data_unique hy hx
          rw [hzlevel, hyx, hlevel]
        exact ih (by omega) hchildLevel hsub hz (hchildLevel z hz)
    rw [guiNicklistSearchGroupInternal, hseg.1, Option.bind_some, hbelow, Option.bind_some]
    cases below with
    | some a =>
      refine ⟨some a, rfl, iff_of_true rfl ?_, hgroup⟩
      obtain ⟨q, hq, hz⟩ := hsearch.mp rfl
      exact ⟨q, (firstReach_iff hchildren).mpr (.inr hq), hz⟩
    | none =>
      obtain ⟨found, hfind, hfound, hnamed⟩ := find_named name skipDigits h hrounds p
      rw [hchildren, firstPtr_cons] at hfind
      refine ⟨found, hfind, hfound.trans ⟨fun hmem => ⟨p, .refl p, hmem⟩, ?_⟩, fun a ha => ⟨p, hnamed a ha⟩⟩
      rintro ⟨q, hq, hz⟩
      obtain rfl | hq := (firstReach_iff hchildren).mp hq
      · exact hz
      · exact absurd (hsearch.mpr ⟨q, hq, hz⟩) Bool.false_ne_true

/-- A tree without root is empty. -/
theorem NicklistLinked.empty (h : NicklistLinked nicklist tree) (hroot : tree.children none = []) (p : Option Addr) :
    tree.children p = [] := by
  rw [List.eq_nil_iff_forall_not_mem]
  intro x hx
  induction hk : x.2.level generalizing p x with
  | zero =>
    cases p with
    | none =>
      rw [hroot] at hx
      exact absurd hx List.not_mem_nil
    | some p =>
      obtain ⟨q, y, -, hlevel⟩ := h.level p x hx
      omega
  | succ k ih =>
    cases p with
    | none =>
      have := h.rootLevel x hx
      omega
    | some p =>
      obtain ⟨q, y, hy, hlevel⟩ := h.level p x hx
      exact ih q (p, y) hy (by dsimp only; omega)

/-- The search from the root. -/
theorem searchGroup_found (h : NicklistLinked nicklist tree) (hdepth : tree.Below depth)
    (hrounds : ∀ p, (tree.children p).length ≤ rounds) {fromGroup : Option Addr}
    (hfrom : fromGroup = none ∨ fromGroup = nicklist.root) (name : Str) :
    ∃ found, guiNicklistSearchGroup rounds depth nicklist fromGroup name = some found ∧
      SearchFound tree name (guiNicklistGetGroupStart name = name) none found := by
  have hroot : fromGroup.or nicklist.root = firstPtr (tree.children none) none := by
    rw [← h.root]
    obtain rfl | rfl := hfrom
    · exact Option.none_or
    · exact Option.or_self
  rw [guiNicklistSearchGroup, hroot]
  cases hchildren : tree.children none with
  | nil =>
    have hnone : ¬∃ q, tree.FirstReach none q ∧ ∃ x ∈ tree.children q,
        guiNickGroupNamed name (guiNicklistGetGroupStart name = name) x.2 = true := by
      rintro ⟨q, -, x, hx, -⟩
      rw [h.empty hchildren q] at hx
      exact absurd hx List.not_mem_nil
    exact ⟨none, rfl, iff_of_false Bool.false_ne_true hnone, fun a ha => by cases ha⟩
  | cons x groups => exact searchInternal_found h hdepth hrounds (Nat.le_refl depth) h.rootLevel hchildren

/-- A name that some group has is found if and only if a group reached by first children has it. -/
theorem groupSearchRight_iff (h : NicklistLinked nicklist tree) (hdepth : tree.Below depth)
    (hrounds : ∀ p, (tree.children p).length ≤ rounds) (name : Str) :
    GroupSearchRight rounds depth nicklist tree name ↔
      (tree.HasName name → ∃ q, tree.FirstReach none q ∧ ∃ x ∈ tree.children q, groupHasName name x.2) := by
  constructor
  · intro hright hname
    obtain ⟨found, hsearch, hfound, -⟩ := hright.search none (.inl rfl)
    obtain ⟨found', hsearch', hfound', -⟩ := searchGroup_found h hdepth hrounds (.inl rfl) name
    obtain rfl := Option.some.inj (hsearch.symm.trans hsearch')
    exact hfound'.mp (hfound.mpr hname)
  · intro hfirst
    have hsearch : ∀ fromGroup, fromGroup = none ∨ fromGroup = nicklist.root →
        ∃ found, guiNicklistSearchGroup rounds depth nicklist fromGroup name = some found ∧
          (found.isSome ↔ tree.HasName name) ∧
          ∀ a, found = some a → ∃ p, ∃ x ∈ tree.children p, x.1 = a ∧ groupHasName name x.2 := by
      intro fromGroup hfrom
      obtain ⟨found, hsearch, hfound, hgroup⟩ := searchGroup_found h hdepth hrounds hfrom name
      refine ⟨found, hsearch, hfound.trans ⟨?_, hfirst⟩, hgroup⟩
      rintro ⟨q, -, hx⟩
      exact ⟨q, hx⟩
    refine ⟨hsearch, fun hname newGroup parentGroup visible hparent => ?_⟩
    obtain ⟨found, hsearch, hfound, -⟩ := hsearch parentGroup hparent
    rw [guiNicklistAddGroup, hsearch, Option.bind_some, if_pos (hfound.mpr hname)]

end Search

/-! ## Adding a group -/

section Add

variable {a : Addr} {group : GuiNickGroup}

/-- The new group is put somewhere in the list. -/
theorem insertGroupSorted_linked {memory memory' : Heap GuiNickGroup} {lists : Option Addr → List (Addr × GuiNickGroup)}
    {ends ends' : ListEnds} {i : Option Addr} (hl : Lists memory lists) (he : ends = endsOf (lists i))
    (ha : memory a = none) (hrounds : (lists i).length ≤ rounds)
    (hinsert : guiNicklistInsertGroupSorted rounds memory ends a group = some (memory', ends')) :
    ∃ pre post, lists i = pre ++ post ∧ ends' = endsOf (pre ++ (a, group) :: post) ∧
      Lists memory' (Function.update lists i (pre ++ (a, group) :: post)) := by
  have hfirst : ends.first = firstPtr (lists i) none := by rw [he, endsOf]
  rw [guiNicklistInsertGroupSorted] at hinsert
  split at hinsert
  · rw [guiNicklistFindPosGroup, hfirst, (hl.linked i).find hrounds] at hinsert
    cases hfind : (lists i).find? fun x => decide (stringStrcasecmp group.name x.2.name < 0) with
    | none =>
      rw [hfind] at hinsert
      cases hinsert
      obtain ⟨hlists, hends⟩ := hl.linkLast (d := group) he ha
      exact ⟨lists i, [], (List.append_nil _).symm, hends, hlists⟩
    | some x =>
      rw [hfind] at hinsert
      obtain ⟨pre, post, hsplit⟩ := List.append_of_mem (List.mem_of_find?_eq_some hfind)
      obtain ⟨memory1, hlink, hlists⟩ := hl.linkBefore (d := group) he ha hsplit
      rw [Option.map_some] at hinsert
      dsimp only at hinsert
      rw [hlink] at hinsert
      cases hinsert
      exact ⟨pre, x :: post, hsplit, rfl, hlists⟩
  · rename_i hnone
    rw [hfirst] at hnone
    cases hlist : lists i with
    | nil =>
      cases hinsert
      obtain ⟨hlists, hends⟩ := hl.linkFirst (d := group) he ha
      rw [he, hlist] at hlists hends
      exact ⟨[], [], rfl, hends, hlists⟩
    | cons x xs =>
      rw [hlist] at hnone
      exact absurd rfl hnone

/-- A tree with one more group. -/
structure TreeAdded (tree tree' : NicklistTree) (a : Addr) : Prop where
  old : ∀ p, ∀ b ∈ addrs (tree.children p), b ∈ addrs (tree'.children p)
  new : ∃ p, a ∈ addrs (tree'.children p)
  length : ∀ p, (tree'.children p).length ≤ (tree.children p).length + 1
  below : ∀ depth, tree.Below depth → tree'.Below (depth + 1)

/-- A group whose data is changed: it is written at once. -/
theorem modify_data {memory : Heap GuiNickGroup} {p : Addr} {node : Node GuiNickGroup} (hnode : memory p = some node)
    (f : GuiNickGroup → GuiNickGroup) :
    memory.modify p (fun node => { node with data := f node.data }) = memory.setData p (f node.data) := by
  rw [Heap.setData, Heap.modify, Heap.modify, hnode]
  rfl

section AddedChildren

variable {memory : Heap GuiNickGroup} {children : Option Addr → List (Addr × GuiNickGroup)} {p : Addr} {q r : Option Addr}
  {d d' : GuiNickGroup} {xs ys pre post : List (Addr × GuiNickGroup)}

/-- The lists after a group is added to those of its parent, which is changed in its own list. -/
def addedChildren (children : Option Addr → List (Addr × GuiNickGroup)) (p : Addr) (q : Option Addr)
    (inserted changed : List (Addr × GuiNickGroup)) : Option Addr → List (Addr × GuiNickGroup) :=
  Function.update (Function.update children (some p) inserted) q changed

theorem addedChildren_parent (hne : q ≠ some p) : addedChildren children p q xs ys (some p) = xs := by
  rw [addedChildren, Function.update_of_ne (Ne.symm hne), Function.update_self]

theorem mem_addedChildren (hl : Lists memory children) (hq : children q = xs ++ (p, d) :: ys)
    (hp : children (some p) = pre ++ post) (hne : q ≠ some p) {z : Addr × GuiNickGroup}
    (hz : z ∈ addedChildren children p q (pre ++ (a, group) :: post) (xs ++ (p, d') :: ys) r) :
    (r = q ∧ z = (p, d')) ∨ (r = some p ∧ z = (a, group)) ∨ (z ∈ children r ∧ z.1 ≠ p) := by
  have hpq : p ∈ addrs (children q) := by
    rw [hq, addrs_append]
    exact List.mem_append_right _ List.mem_cons_self
  -- the parent is in no other list
  have hother : ∀ z ∈ children r, r ≠ q → z.1 ≠ p := fun z hz hr hzp =>
    hl.disjoint q r (Ne.symm hr) p hpq (hzp ▸ List.mem_map_of_mem hz)
  by_cases hr : r = q
  · subst hr
    have hnodup := hl.nodup r
    rw [hq, addrs_append, List.nodup_append] at hnodup
    rw [addedChildren, Function.update_self] at hz
    obtain hz | hz := List.mem_append.mp hz
    · refine .inr (.inr ⟨hq ▸ List.mem_append_left _ hz, fun hzp => ?_⟩)
      exact hnodup.2.2 z.1 (List.mem_map_of_mem hz) p List.mem_cons_self hzp
    · obtain rfl | hz := List.mem_cons.mp hz
      · exact .inl ⟨rfl, rfl⟩
      · refine .inr (.inr ⟨hq ▸ List.mem_append_right _ (List.mem_cons_of_mem _ hz), fun hzp => ?_⟩)
        have hmem : z.1 ∈ addrs ys := List.mem_map_of_mem hz
        rw [hzp] at hmem
        exact (List.nodup_cons.mp hnodup.2.1).1 hmem
  · rw [addedChildren, Function.update_of_ne hr] at hz
    by_cases hrp : r = some p
    · subst hrp
      rw [Function.update_self] at hz
      have hold : ∀ z ∈ pre ++ post, z ∈ children (some p) ∧ z.1 ≠ p := fun z hz =>
        ⟨hp ▸ hz, hother z (hp ▸ hz) hr⟩
      obtain hz | hz := List.mem_append.mp hz
      · exact .inr (.inr (hold z (List.mem_append_left _ hz)))
      · obtain rfl | hz := List.mem_cons.mp hz
        · exact .inr (.inl ⟨rfl, rfl⟩)
        · exact .inr (.inr (hold z (List.mem_append_right _ hz)))
    · rw [Function.update_of_ne hrp] at hz
      exact .inr (.inr ⟨hz, hother z hz hr⟩)

/-- The other lists have the same addresses. -/
theorem addrs_addedChildren (hq : children q = xs ++ (p, d) :: ys) (hr : r ≠ some p) (inserted : List (Addr × GuiNickGroup)) :
    addrs (addedChildren children p q inserted (xs ++ (p, d') :: ys) r) = addrs (children r) := by
  rw [addedChildren]
  by_cases hrq : r = q
  · subst hrq
    rw [Function.update_self, hq, addrs_append, addrs_append]
    rfl
  · rw [Function.update_of_ne hrq, Function.update_of_ne hr]

/-- A group of the lists is still there, with the same level. -/
theorem exists_mem_addedChildren (hq : children q = xs ++ (p, d) :: ys) (hp : children (some p) = pre ++ post)
    (hne : q ≠ some p) (hd : d'.level = d.level) {b : Addr} {y : GuiNickGroup} (hy : (b, y) ∈ children r) :
    ∃ y', (b, y') ∈ addedChildren children p q (pre ++ (a, group) :: post) (xs ++ (p, d') :: ys) r ∧
      y'.level = y.level := by
  by_cases hr : r = q
  · subst hr
    rw [addedChildren, Function.update_self]
    rw [hq, List.mem_append, List.mem_cons] at hy
    obtain hy | hy | hy := hy
    · exact ⟨y, List.mem_append_left _ hy, rfl⟩
    · cases hy
      exact ⟨d', List.mem_append_right _ List.mem_cons_self, hd⟩
    · exact ⟨y, List.mem_append_right _ (List.mem_cons_of_mem _ hy), rfl⟩
  · refine ⟨y, ?_, rfl⟩
    rw [addedChildren, Function.update_of_ne hr]
    by_cases hrp : r = some p
    · subst hrp
      rw [Function.update_self]
      rw [hp, List.mem_append] at hy
      exact List.mem_append.mpr (hy.imp_right (List.mem_cons_of_mem _))
    · rw [Function.update_of_ne hrp]
      exact hy

end AddedChildren

/-- A group without children or nicks is added to the children of a group. -/
theorem linkGroup_linked (h : NicklistLinked nicklist tree) (hrounds : ∀ p, (tree.children p).length ≤ rounds)
    (ha : nicklist.groups a = none) {q : Option Addr} {x : Addr × GuiNickGroup} (hx : x ∈ tree.children q) {name : Str}
    {visible : Bool} {nicklist' : GuiNicklist}
    (hlink : guiNicklistLinkGroup rounds nicklist a (some x.1) name visible = some nicklist') :
    ∃ tree', NicklistLinked nicklist' tree' ∧ TreeAdded tree tree' a := by
  obtain ⟨p, d⟩ := x
  obtain ⟨node, hnode, hdata⟩ := (h.groups.linked q).mem hx
  obtain ⟨xs, ys, hq⟩ := List.append_of_mem hx
  rw [guiNicklistLinkGroup, hnode, Option.bind_some] at hlink
  obtain ⟨⟨memory, ends⟩, hinsert, rfl⟩ := Option.map_eq_some_iff.mp hlink
  dsimp only at hinsert
  rw [hdata, h.ends q _ hx] at hinsert
  generalize hgroup : GuiNickGroup.mk name visible (d.level + 1) (some p) ⟨none, none⟩ ⟨none, none⟩ = group at hinsert
  obtain ⟨pre, post, hp, rfl, hl⟩ := insertGroupSorted_linked h.groups rfl ha (hrounds _) hinsert
  -- the parent is not its own child, and the new group is not in the tree
  have hlevel : ∀ z ∈ tree.children (some p), z.2.level = d.level + 1 := by
    intro z hz
    obtain ⟨q', y, hy, hzlevel⟩ := h.level p z hz
    have hyd : y = d := h.groups.data_unique hy hx
    rw [hzlevel, hyd]
  have hne : q ≠ some p := by
    rintro rfl
    have := hlevel _ hx
    dsimp only at this
    omega
  have hfresh : ∀ r, a ∉ addrs (tree.children r) := fun r hmem => (h.groups.linked r).allocated hmem ha
  have hempty : tree.children (some a) = [] := by
    rw [List.eq_nil_iff_forall_not_mem]
    intro z hz
    obtain ⟨q', y, hy, -⟩ := h.level a z hz
    exact hfresh q' (List.mem_map_of_mem hy)
  have hpmem : p ∈ addrs (tree.children q) := List.mem_map_of_mem hx
  have hap : a ≠ p := fun hap => hfresh q (hap ▸ hpmem)
  have hnicks : tree.nicks a = [] := by
    rw [List.eq_nil_iff_forall_not_mem]
    intro y hy
    obtain ⟨-, r, hr⟩ := h.nickGroup a y hy
    exact hfresh r hr
  -- the data of the parent
  generalize hd' : GuiNickGroup.mk d.name d.visible d.level d.parent (endsOf (pre ++ (a, group) :: post)) d.nicks = d'
  have hq' : Function.update tree.children (some p) (pre ++ (a, group) :: post) q = xs ++ (p, d) :: ys := by
    rw [Function.update_of_ne hne, hq]
  have hmodify : (memory.modify p fun node => { node with data := { node.data with
      children := endsOf (pre ++ (a, group) :: post) } }) = memory.setData p d' := by
    obtain ⟨node', hnode', hdata'⟩ := (hl.linked q).mem (hq' ▸ List.mem_append_right xs List.mem_cons_self)
    have hwrite := modify_data hnode' fun data => { data with children := endsOf (pre ++ (a, group) :: post) }
    rw [hdata'] at hwrite
    rw [← hd']
    exact hwrite
  obtain ⟨hlevel', hparent', hchildren', hnicks'⟩ : d'.level = d.level ∧ d'.parent = d.parent ∧
      d'.children = endsOf (pre ++ (a, group) :: post) ∧ d'.nicks = d.nicks := by
    rw [← hd']
    exact ⟨rfl, rfl, rfl, rfl⟩
  obtain ⟨hgroupLevel, hgroupParent, hgroupChildren, hgroupNicks⟩ : group.level = d.level + 1 ∧ group.parent = some p ∧
      group.children = ⟨none, none⟩ ∧ group.nicks = ⟨none, none⟩ := by
    rw [← hgroup]
    exact ⟨rfl, rfl, rfl, rfl⟩
  obtain ⟨children, hC⟩ : ∃ children, children =
      addedChildren tree.children p q (pre ++ (a, group) :: post) (xs ++ (p, d') :: ys) := ⟨_, rfl⟩
  have hl' : Lists (memory.setData p d') children := hC ▸ hl.setData hq'
  have hparent : children (some p) = pre ++ (a, group) :: post := hC ▸ addedChildren_parent hne
  have hmem : ∀ r, ∀ z ∈ children r,
      (r = q ∧ z = (p, d')) ∨ (r = some p ∧ z = (a, group)) ∨ (z ∈ tree.children r ∧ z.1 ≠ p) :=
    hC ▸ fun r z hz => mem_addedChildren h.groups hq hp hne hz
  have haddrs : ∀ r, r ≠ some p → addrs (children r) = addrs (tree.children r) :=
    hC ▸ fun r hr => addrs_addedChildren hq hr _
  have hkeep : ∀ r b y, (b, y) ∈ tree.children r → ∃ y', (b, y') ∈ children r ∧ y'.level = y.level :=
    hC ▸ fun r b y hy => exists_mem_addedChildren hq hp hne hlevel' hy
  have hfirst : ∀ r, r ≠ some p → firstPtr (children r) none = firstPtr (tree.children r) none := by
    intro r hr
    rw [firstPtr_none, firstPtr_none, haddrs r hr]
  have hends : ∀ b, b ≠ p → endsOf (children (some b)) = endsOf (tree.children (some b)) := fun b hb =>
    endsOf_congr (haddrs (some b) fun hbp => hb (Option.some.inj hbp))
  have hlength : ∀ r, r ≠ some p → (children r).length = (tree.children r).length := by
    intro r hr
    have hlen := congrArg List.length (haddrs r hr)
    rwa [List.length_map, List.length_map] at hlen
  have hold : ∀ r, ∀ b ∈ addrs (tree.children r), b ∈ addrs (children r) := by
    intro r b hb
    obtain ⟨⟨b, y⟩, hy, rfl⟩ := List.mem_map.mp hb
    obtain ⟨y', hy', -⟩ := hkeep r b y hy
    exact List.mem_map.mpr ⟨_, hy', rfl⟩
  have hnew : (a, group) ∈ children (some p) := hparent ▸ List.mem_append_right _ List.mem_cons_self
  dsimp only
  rw [hmodify]
  refine ⟨⟨children, tree.nicks⟩, ?_, ?_⟩
  · constructor
    case groups => exact hl'
    case nicks => exact h.nicks
    case root => exact h.root.trans (hfirst none (Option.some_ne_none p).symm).symm
    case single => exact (hlength none (Option.some_ne_none p).symm).trans_le h.single
    case parent =>
      intro r z hz
      obtain ⟨rfl, rfl⟩ | ⟨rfl, rfl⟩ | ⟨hz, -⟩ := hmem r z hz
      · exact hparent'.trans (h.parent _ _ hx)
      · exact hgroupParent
      · exact h.parent r z hz
    case ends =>
      intro r z hz
      obtain ⟨rfl, rfl⟩ | ⟨rfl, rfl⟩ | ⟨hz, hzp⟩ := hmem r z hz
      · dsimp only
        rw [hchildren', hparent]
      · dsimp only
        rw [hends a hap, hempty, hgroupChildren, endsOf_nil]
      · exact (h.ends r z hz).trans (hends z.1 hzp).symm
    case nickEnds =>
      intro r z hz
      obtain ⟨rfl, rfl⟩ | ⟨rfl, rfl⟩ | ⟨hz, -⟩ := hmem r z hz
      · exact hnicks'.trans (h.nickEnds _ _ hx)
      · dsimp only
        rw [hnicks, hgroupNicks, endsOf_nil]
      · exact h.nickEnds r z hz
    case nickGroup =>
      intro b y hy
      obtain ⟨hyb, r, hb⟩ := h.nickGroup b y hy
      exact ⟨hyb, r, hold r b hb⟩
    case rootLevel =>
      intro z hz
      obtain ⟨rfl, rfl⟩ | ⟨hnone, -⟩ | ⟨hz, -⟩ := hmem none z hz
      · exact hlevel'.trans (h.rootLevel _ hx)
      · cases hnone
      · exact h.rootLevel z hz
    case level =>
      intro r z hz
      obtain ⟨rfl, rfl⟩ | ⟨hr, rfl⟩ | ⟨hz, -⟩ := hmem (some r) z hz
      · obtain ⟨q', y, hy, hylevel⟩ := h.level r _ hx
        obtain ⟨y', hy', hlevel''⟩ := hkeep q' r y hy
        exact ⟨q', y', hy', by rw [hlevel', hlevel'', hylevel]⟩
      · obtain rfl := Option.some.inj hr
        obtain ⟨y', hy', hlevel''⟩ := hkeep q r d hx
        exact ⟨q, y', hy', by rw [hgroupLevel, hlevel'']⟩
      · obtain ⟨q', y, hy, hylevel⟩ := h.level r z hz
        obtain ⟨y', hy', hlevel''⟩ := hkeep q' r y hy
        exact ⟨q', y', hy', by rw [hlevel'', hylevel]⟩
  · refine ⟨hold, ⟨some p, List.mem_map_of_mem hnew⟩, fun r => ?_, fun depth hbelow r z hz => ?_⟩
    · by_cases hr : r = some p
      · subst hr
        dsimp only
        rw [hparent, hp, List.length_append, List.length_append, List.length_cons]
        omega
      · exact (hlength r hr).trans_le (Nat.le_succ _)
    · have hlt : d.level < depth := hbelow q _ hx
      obtain ⟨-, rfl⟩ | ⟨-, rfl⟩ | ⟨hz, -⟩ := hmem r z hz
      · exact Nat.lt_succ_of_lt (hlevel'.trans_lt hlt)
      · exact hgroupLevel.trans_lt (Nat.succ_lt_succ hlt)
      · exact Nat.lt_succ_of_lt (hbelow r z hz)

/-- A group is added to an empty tree. -/
theorem linkRoot_linked (h : NicklistLinked nicklist tree) (ha : nicklist.groups a = none) (hroot : nicklist.root = none)
    {name : Str} {visible : Bool} {nicklist' : GuiNicklist}
    (hlink : guiNicklistLinkGroup rounds nicklist a none name visible = some nicklist') :
    ∃ tree', NicklistLinked nicklist' tree' ∧ TreeAdded tree tree' a := by
  have hnone : tree.children none = [] := by
    rw [h.root] at hroot
    cases hchildren : tree.children none with
    | nil => rfl
    | cons x groups =>
      rw [hchildren] at hroot
      cases hroot
  have hempty := h.empty hnone
  have hnicks (b : Addr) : tree.nicks b = [] := by
    rw [List.eq_nil_iff_forall_not_mem]
    intro y hy
    obtain ⟨-, p, hp⟩ := h.nickGroup b y hy
    rw [hempty p] at hp
    exact absurd hp List.not_mem_nil
  generalize hgroup : GuiNickGroup.mk name visible 0 none ⟨none, none⟩ ⟨none, none⟩ = group
  obtain ⟨hlists, hends⟩ := h.groups.linkFirst (d := group) (by rw [hnone, endsOf_nil] : ⟨none, none⟩ = endsOf _) ha
  rw [guiNicklistLinkGroup, hgroup] at hlink
  cases hlink
  obtain ⟨children, hC⟩ : ∃ children, children = Function.update tree.children none [(a, group)] := ⟨_, rfl⟩
  have hself : children none = [(a, group)] := hC ▸ Function.update_self ..
  have hsome (p : Addr) : children (some p) = [] := by
    rw [hC, Function.update_of_ne (Option.some_ne_none p), hempty]
  rw [hnone, ← hC] at hlists
  have hmem : ∀ p, ∀ x ∈ children p, p = none ∧ x = (a, group) := by
    intro p x hx
    cases p with
    | none =>
      rw [hself] at hx
      exact ⟨rfl, List.mem_singleton.mp hx⟩
    | some p =>
      rw [hsome] at hx
      exact absurd hx List.not_mem_nil
  refine ⟨⟨children, tree.nicks⟩, ?_, ?_⟩
  · constructor
    case groups => exact hlists
    case nicks => exact h.nicks
    case root => exact (congrArg (firstPtr · none) hself).symm
    case single => exact (congrArg List.length hself).le
    case parent =>
      intro p x hx
      obtain ⟨rfl, rfl⟩ := hmem p x hx
      rw [← hgroup]
    case ends =>
      intro p x hx
      obtain ⟨rfl, rfl⟩ := hmem p x hx
      dsimp only
      rw [hsome, ← hgroup, endsOf_nil]
    case nickEnds =>
      intro p x hx
      obtain ⟨rfl, rfl⟩ := hmem p x hx
      dsimp only
      rw [hnicks, ← hgroup, endsOf_nil]
    case nickGroup =>
      intro b y hy
      rw [hnicks] at hy
      exact absurd hy List.not_mem_nil
    case rootLevel =>
      intro x hx
      obtain ⟨-, rfl⟩ := hmem none x hx
      rw [← hgroup]
    case level =>
      intro p x hx
      obtain ⟨hp, -⟩ := hmem (some p) x hx
      cases hp
  · constructor
    case old =>
      intro p b hb
      rw [hempty p] at hb
      exact absurd hb List.not_mem_nil
    case new =>
      refine ⟨none, List.mem_map.mpr ⟨(a, group), ?_, rfl⟩⟩
      dsimp only
      rw [hself]
      exact List.mem_singleton_self _
    case length =>
      intro p
      cases p with
      | none => exact (congrArg List.length hself).trans_le (Nat.le_add_left ..)
      | some p => exact (congrArg List.length (hsome p)).trans_le (Nat.zero_le _)
    case below =>
      intro depth _ p x hx
      obtain ⟨-, rfl⟩ := hmem p x hx
      rw [← hgroup]
      exact Nat.succ_pos depth

/-- A call of `gui_nicklist_add_group` leaves a tree, with the group that is returned. -/
theorem addGroup_linked (h : NicklistLinked nicklist tree) (hrounds : ∀ p, (tree.children p).length ≤ rounds)
    {newGroup : Addr} {parentGroup added : Option Addr} {name : Str} {visible : Bool} {nicklist' : GuiNicklist}
    (hparent : ∀ p, parentGroup = some p → ∃ q, p ∈ addrs (tree.children q))
    (hadd : guiNicklistAddGroup rounds depth nicklist newGroup parentGroup name visible = some (nicklist', added)) :
    ∃ tree', NicklistLinked nicklist' tree' ∧
      ((added = none ∧ tree' = tree) ∨ ∃ a, added = some a ∧ TreeAdded tree tree' a) := by
  obtain ⟨found, -, hfound⟩ := Option.bind_eq_some_iff.mp hadd
  split at hfound
  · cases hfound
    exact ⟨tree, h, .inl ⟨rfl, rfl⟩⟩
  · cases hmalloc : nicklist.groups.malloc newGroup with
    | none =>
      rw [hmalloc] at hfound
      cases hfound
      exact ⟨tree, h, .inl ⟨rfl, rfl⟩⟩
    | some a =>
      rw [hmalloc] at hfound
      obtain ⟨ha, rfl⟩ := Heap.malloc_eq_some.mp hmalloc
      obtain ⟨linked, hlink, heq⟩ := Option.map_eq_some_iff.mp hfound
      have htree : ∃ tree', NicklistLinked linked tree' ∧ TreeAdded tree tree' a := by
        cases hp : parentGroup.or nicklist.root with
        | none =>
          rw [hp] at hlink
          exact linkRoot_linked h ha (Option.or_eq_none_iff.mp hp).2 hlink
        | some p =>
          rw [hp] at hlink
          obtain ⟨q, hq⟩ : ∃ q, p ∈ addrs (tree.children q) := by
            obtain hp | ⟨-, hp⟩ := Option.or_eq_some_iff.mp hp
            · exact hparent p hp
            · rw [h.root] at hp
              exact ⟨none, (firstPtr_mem hp).resolve_right (Option.some_ne_none p).symm⟩
          obtain ⟨x, hx, rfl⟩ := List.mem_map.mp hq
          exact linkGroup_linked h hrounds ha hx hlink
      obtain ⟨tree', hlinked, htreeAdded⟩ := htree
      split at heq
      · cases heq
        exact ⟨tree', ⟨hlinked.groups, hlinked.nicks, hlinked.root, hlinked.single, hlinked.parent, hlinked.ends,
          hlinked.nickEnds, hlinked.nickGroup, hlinked.rootLevel, hlinked.level⟩, .inr ⟨a, rfl, htreeAdded⟩⟩
      · cases heq
        exact ⟨tree', hlinked, .inr ⟨a, rfl, htreeAdded⟩⟩

/-- After any number of calls the nicklist is a tree, with the groups that were returned. -/
theorem groupsAdded_linked {calls : Nat} {groups : List Addr} (h : GroupsAdded rounds depth calls groups nicklist)
    (hrounds : calls ≤ rounds) :
    ∃ tree, NicklistLinked nicklist tree ∧ tree.Below calls ∧ (∀ p, (tree.children p).length ≤ calls) ∧
      ∀ a ∈ groups, ∃ p, a ∈ addrs (tree.children p) := by
  induction h with
  | nil displayGroups =>
    refine ⟨⟨fun _ => [], fun _ => []⟩, ?_, fun _ x hx => absurd hx List.not_mem_nil, fun _ => Nat.le_refl 0,
      List.forall_mem_nil _⟩
    constructor
    case groups =>
      exact ⟨fun _ => trivial, fun _ => List.nodup_nil, fun _ _ _ _ h => absurd h List.not_mem_nil⟩
    case nicks =>
      exact ⟨fun _ => trivial, fun _ => List.nodup_nil, fun _ _ _ _ h => absurd h List.not_mem_nil⟩
    case root => rfl
    case single => exact Nat.zero_le 1
    all_goals exact fun _ => by simp
  | add _ hparent hadd ih =>
    obtain ⟨tree, hlinked, hbelow, hlength, hgroups⟩ := ih (Nat.le_of_succ_le hrounds)
    obtain ⟨tree', hlinked', ⟨rfl, rfl⟩ | ⟨a, rfl, hadded⟩⟩ := addGroup_linked hlinked
      (fun p => (hlength p).trans (Nat.le_of_succ_le hrounds)) (fun p hp => hgroups p (hparent p hp)) hadd
    · exact ⟨tree', hlinked', fun p x hx => Nat.lt_succ_of_lt (hbelow p x hx), fun p => Nat.le_succ_of_le (hlength p),
        hgroups⟩
    · refine ⟨tree', hlinked', hadded.below _ hbelow, fun p => (hadded.length p).trans (Nat.succ_le_succ (hlength p)), ?_⟩
      intro b hb
      obtain rfl | hb := List.mem_cons.mp hb
      · exact hadded.new
      · obtain ⟨p, hp⟩ := hgroups b hb
        exact ⟨p, hadded.old p b hp⟩

end Add

/-- In a tree of groups added one after another, a name is found from the root, and not added there again, if and
only if no group has it, or one that is reached by first children. -/
theorem search_group_iff {calls : Nat} {groups : List Addr} (h : GroupsAdded rounds depth calls groups nicklist)
    (hrounds : calls ≤ rounds) (hdepth : calls ≤ depth) :
    ∃ tree, NicklistLinked nicklist tree ∧ ∀ name, GroupSearchRight rounds depth nicklist tree name ↔
      (tree.HasName name → ∃ q, tree.FirstReach none q ∧ ∃ x ∈ tree.children q, groupHasName name x.2) := by
  obtain ⟨tree, hlinked, hbelow, hlength, -⟩ := groupsAdded_linked h hrounds
  exact ⟨tree, hlinked, groupSearchRight_iff hlinked (fun p x hx => (hbelow p x hx).trans_le hdepth) fun p =>
    (hlength p).trans hrounds⟩

/-! ## A nicklist with a group in a second child -/

def emptyNicklist : GuiNicklist := ⟨fun _ => none, fun _ => none, none, 0, 0, 0, true⟩

/-- The nicklist after a call of `gui_nicklist_add_group`. -/
def afterAdd (nicklist : GuiNicklist) (newGroup : Addr) (parentGroup : Option Addr) (name : Str) : GuiNicklist :=
  ((guiNicklistAddGroup 4 4 nicklist newGroup parentGroup name true).map Prod.fst).getD nicklist

theorem GroupsAdded.afterAdd {calls : Nat} {groups : List Addr} (h : GroupsAdded 4 4 calls groups nicklist)
    {newGroup a : Addr} {parentGroup : Option Addr} {name : Str} (hparent : ∀ p ∈ parentGroup, p ∈ groups)
    (hadded : (guiNicklistAddGroup 4 4 nicklist newGroup parentGroup name true).map Prod.snd = some (some a)) :
    GroupsAdded 4 4 (calls + 1) (a :: groups) (afterAdd nicklist newGroup parentGroup name) := by
  obtain ⟨⟨nicklist', added⟩, hadd, rfl⟩ := Option.map_eq_some_iff.mp hadded
  have hafter : Wirc.afterAdd nicklist newGroup parentGroup name = nicklist' := by
    rw [Wirc.afterAdd, hadd]
    rfl
  rw [hafter]
  exact h.add hparent hadd

def rootNicklist : GuiNicklist := afterAdd emptyNicklist 1 none (lit "root")

def siblingsNicklist : GuiNicklist := afterAdd (afterAdd rootNicklist 2 none (lit "a")) 3 none (lit "b")

/-- The group `c` is a child of the group `b`, which comes after the group `a`. -/
def nestedNicklist : GuiNicklist := afterAdd siblingsNicklist 4 (some 3) (lit "c")

theorem rootNicklist_added : GroupsAdded 4 4 1 [1] rootNicklist :=
  GroupsAdded.afterAdd (.nil true) (by decide) (by decide)

theorem siblingsNicklist_added : GroupsAdded 4 4 3 [3, 2, 1] siblingsNicklist :=
  (rootNicklist_added.afterAdd (by decide) (by decide)).afterAdd (by decide) (by decide +kernel)

theorem nestedNicklist_added : GroupsAdded 4 4 4 [4, 3, 2, 1] nestedNicklist :=
  siblingsNicklist_added.afterAdd (by decide) (by decide +kernel)

/-- In a nicklist with the root only, every name is searched right. -/
theorem search_group_root : ∃ tree, NicklistLinked rootNicklist tree ∧ ∀ name,
    GroupSearchRight 4 4 rootNicklist tree name ↔
      (tree.HasName name → ∃ q, tree.FirstReach none q ∧ ∃ x ∈ tree.children q, groupHasName name x.2) :=
  search_group_iff rootNicklist_added (by decide) (by decide)

/-- The group `c` is not found, and a second one is added at the root. -/
theorem search_group_fails :
    (∃ tree, NicklistLinked nestedNicklist tree ∧ tree.HasName (lit "c") ∧
      ¬GroupSearchRight 4 4 nestedNicklist tree (lit "c")) ∧
    guiNicklistSearchGroup 4 4 nestedNicklist none (lit "c") = some none ∧
    (guiNicklistAddGroup 4 4 nestedNicklist 5 none (lit "c") true).map Prod.snd = some (some 5) := by
  have hnone : guiNicklistSearchGroup 4 4 nestedNicklist none (lit "c") = some none := by decide +kernel
  refine ⟨?_, hnone, by decide +kernel⟩
  obtain ⟨tree, hlinked, -, -, hgroups⟩ := groupsAdded_linked nestedNicklist_added (Nat.le_refl 4)
  obtain ⟨p, hp⟩ := hgroups 4 List.mem_cons_self
  obtain ⟨⟨b, group⟩, hx, hb⟩ := List.mem_map.mp hp
  obtain rfl : b = 4 := hb
  obtain ⟨node, hnode, hdata⟩ := (hlinked.groups.linked p).mem hx
  have hname : (nestedNicklist.groups 4).map (fun node => groupHasName (lit "c") node.data) = some true := by
    decide +kernel
  rw [hnode, Option.map_some, hdata] at hname
  have hhas : tree.HasName (lit "c") := ⟨p, (4, group), hx, Option.some.inj hname⟩
  refine ⟨tree, hlinked, hhas, fun hright => ?_⟩
  obtain ⟨found, hsearch, hfound, -⟩ := hright.search none (.inl rfl)
  rw [hnone] at hsearch
  obtain rfl := Option.some.inj hsearch
  exact absurd (hfound.mpr hhas) Bool.false_ne_true

end Wirc

import Mathlib.Algebra.Order.BigOperators.Group.List
import Mathlib.Algebra.Order.Ring.Nat

/-!
# Packing into groups

Items are put into groups in their order: an item that would bring its group to
the limit begins the next one. No item is lost (`packFrom_flatten`), and only a
group of one item is not below the limit (`pack_size`).
-/

namespace Wirc.Framework

variable {α : Type*} (weight : α → Nat) (limit : Int) (start : Nat)

/-- The size of a group: that of an empty one and the weights of its items. -/
def packSize (group : List α) : Nat := start + (group.map weight).sum

/-- The groups, from the one that has begun. -/
def packFrom (group : List α) : List α → List (List α)
  | [] => if group = [] then [] else [group]
  | x :: xs =>
    if packSize weight start (group ++ [x]) < limit ∨ group = [] then packFrom (group ++ [x]) xs
    else group :: packFrom [x] xs

variable {weight limit start} {group g : List α}

@[simp] theorem packSize_nil : packSize weight start [] = start := rfl

@[simp] theorem packSize_concat (group : List α) (x : α) :
    packSize weight start (group ++ [x]) = packSize weight start group + weight x := by
  rw [packSize, packSize, List.map_append, List.sum_append, Nat.add_assoc]
  rfl

theorem packFrom_flatten (group items : List α) :
    (packFrom weight limit start group items).flatten = group ++ items := by
  fun_induction packFrom weight limit start group items with
  | case1 => rfl
  | case2 group => rw [List.flatten_singleton, List.append_nil]
  | case3 group x xs _ ih => rw [ih, List.append_assoc, List.singleton_append]
  | case4 group x xs _ ih => rw [List.flatten_cons, ih, List.singleton_append]

theorem packFrom_ne_nil {items : List α} (hg : g ∈ packFrom weight limit start group items) : g ≠ [] := by
  fun_induction packFrom weight limit start group items with
  | case1 => cases hg
  | case2 group hne =>
    rw [List.mem_singleton.mp hg]
    exact hne
  | case3 group x xs _ ih => exact ih hg
  | case4 group x xs hnot ih =>
    rcases List.mem_cons.mp hg with rfl | hg
    · exact fun h => hnot (.inr h)
    · exact ih hg

/-- A group of more than one item is below the limit. -/
theorem packFrom_size {items : List α} (hgroup : packSize weight start group < limit ∨ group.length ≤ 1)
    (hg : g ∈ packFrom weight limit start group items) : packSize weight start g < limit ∨ g.length ≤ 1 := by
  fun_induction packFrom weight limit start group items with
  | case1 => cases hg
  | case2 group hne =>
    rw [List.mem_singleton.mp hg]
    exact hgroup
  | case3 group x xs hfits ih =>
    refine ih (hfits.imp_right fun h => ?_) hg
    rw [h]
    exact Nat.le_refl 1
  | case4 group x xs _ ih =>
    rcases List.mem_cons.mp hg with rfl | hg
    · exact hgroup
    · exact ih (.inr (Nat.le_refl 1)) hg

theorem pack_size {items : List α} (hg : g ∈ packFrom weight limit start [] items) :
    packSize weight start g < limit ∨ g.length ≤ 1 :=
  packFrom_size (.inr (show ([] : List α).length ≤ 1 from Nat.zero_le 1)) hg

/-- With a limit up to a bound, the groups are below the bound when the items are. -/
theorem packFrom_lt_iff {bound : Nat} (hlimit : limit ≤ bound) (items : List α) :
    (∀ g ∈ packFrom weight limit start [] items, packSize weight start g < bound) ↔
      ∀ x ∈ items, start + weight x < bound := by
  constructor
  · intro h x hx
    rw [← List.nil_append items, ← packFrom_flatten [] items] at hx
    obtain ⟨g, hg, hxg⟩ := List.mem_flatten.mp hx
    have hle : weight x ≤ (g.map weight).sum :=
      List.single_le_sum (fun _ _ => Nat.zero_le _) _ (List.mem_map_of_mem hxg)
    have := h g hg
    rw [packSize] at this
    omega
  · intro h g hg
    rcases pack_size hg with hlt | hone
    · omega
    · obtain ⟨x, rfl⟩ : ∃ x, g = [x] :=
        List.length_eq_one_iff.mp (Nat.le_antisymm hone (List.length_pos_of_ne_nil (packFrom_ne_nil hg)))
      have hx : x ∈ items := by
        rw [← List.nil_append items, ← packFrom_flatten [] items]
        exact List.mem_flatten_of_mem hg (List.mem_singleton_self x)
      exact h x hx

end Wirc.Framework

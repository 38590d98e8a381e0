import Mathlib.Data.List.Basic
import Mathlib.Data.List.Pairwise
import WhoreIrc.Framework.Cmp

/-!
# Stable sorting of numbered elements

Elements carry the number of their arrival, so that equal ones can be told
apart. `stableSort` sorts them by a callback and leaves each class of equal
elements in its order (`stableSort_filter`). The result is the only
rearrangement in which elements come `Before` each other (`eq_stableSort`),
which gives what a sorted list becomes when an element arrives or leaves
(`stableSort_insert`, `stableSort_filter_of`).
-/

namespace Wirc.Framework

variable {α : Type*} {cmp : α → α → Int}

/-- The elements of `l` sorted by the callback. -/
def stableSort (cmp : α → α → Int) (l : List (Nat × α)) : List (Nat × α) :=
  l.mergeSort fun x y => cmp x.2 y.2 ≤ 0

/-- `x` is smaller than `y`, or equal and arrived before it. -/
def Before (cmp : α → α → Int) (x y : Nat × α) : Prop :=
  cmp x.2 y.2 < 0 ∨ cmp x.2 y.2 = 0 ∧ x.1 < y.1

/-- The elements are in the order of their arrival. -/
abbrev Arrived (l : List (Nat × α)) : Prop := l.Pairwise fun x y => x.1 < y.1

theorem stableSort_perm (l : List (Nat × α)) : (stableSort cmp l).Perm l := List.mergeSort_perm ..

@[simp] theorem stableSort_nil : stableSort cmp ([] : List (Nat × α)) = [] := List.mergeSort_nil

section

variable (hc : CmpPreorder cmp)
include hc

theorem sort_trans (x y z : Nat × α) (hxy : decide (cmp x.2 y.2 ≤ 0) = true)
    (hyz : decide (cmp y.2 z.2 ≤ 0) = true) : decide (cmp x.2 z.2 ≤ 0) = true := by
  simp only [decide_eq_true_eq] at *
  exact hc.trans _ _ _ hxy hyz

theorem sort_total (x y : Nat × α) : (decide (cmp x.2 y.2 ≤ 0) || decide (cmp y.2 x.2 ≤ 0)) = true := by
  have := hc.flip x.2 y.2
  simp only [Bool.or_eq_true, decide_eq_true_eq]
  omega

theorem stableSort_sorted (l : List (Nat × α)) :
    (stableSort cmp l).Pairwise fun x y => cmp x.2 y.2 ≤ 0 :=
  (List.pairwise_mergeSort (sort_trans hc) (sort_total hc) l).imp (by simp)

/-- Equal elements stay in their order. -/
theorem stableSort_filter (l : List (Nat × α)) (c : α) :
    (stableSort cmp l).filter (fun x => cmp c x.2 = 0) = l.filter fun x => cmp c x.2 = 0 := by
  have hclass : (l.filter fun x => cmp c x.2 = 0).Pairwise fun x y => decide (cmp x.2 y.2 ≤ 0) = true := by
    refine List.pairwise_of_forall_mem_list fun x hx y hy => ?_
    simp only [List.mem_filter, decide_eq_true_eq] at hx hy ⊢
    have h1 := hc.trans x.2 c y.2
    have h2 := hc.symm hx.2
    omega
  have hsub := List.sublist_mergeSort (sort_trans hc) (sort_total hc) hclass List.filter_sublist
  have hsub' := hsub.filter fun x => cmp c x.2 = 0
  rw [List.filter_filter] at hsub'
  simp only [Bool.and_self] at hsub'
  exact (hsub'.eq_of_length ((stableSort_perm l).symm.filter _).length_eq).symm

theorem stableSort_before {l : List (Nat × α)} (hl : Arrived l) : (stableSort cmp l).Pairwise (Before cmp) := by
  refine List.pairwise_of_forall_sublist fun {x y} hxy => ?_
  have hle := (stableSort_sorted hc l).forall_sublist hxy
  by_cases heq : cmp x.2 y.2 = 0
  · have hclass := hxy.filter fun z => cmp x.2 z.2 = 0
    rw [stableSort_filter hc, List.filter_cons_of_pos (by simp [hc.refl]), List.filter_cons_of_pos (by simp [heq]),
      List.filter_nil] at hclass
    exact .inr ⟨heq, hl.forall_sublist (hclass.trans List.filter_sublist)⟩
  · exact .inl (by omega)

/-- The stable sort is determined by the order of its elements. -/
theorem eq_stableSort {l L : List (Nat × α)} (hl : Arrived l) (hperm : L.Perm l)
    (hL : L.Pairwise (Before cmp)) : L = stableSort cmp l := by
  refine List.Perm.eq_of_pairwise (fun x y _ _ hxy hyx => ?_) hL (stableSort_before hc hl)
    (hperm.trans (stableSort_perm l).symm)
  have hflip1 := hc.flip x.2 y.2
  have hflip2 := hc.flip y.2 x.2
  rcases hxy with hxy | hxy <;> rcases hyx with hyx | hyx <;> omega

/-- Elements leave: the others stay as they are. -/
theorem stableSort_filter_of {l : List (Nat × α)} (hl : Arrived l) (p : Nat × α → Bool) :
    (stableSort cmp l).filter p = stableSort cmp (l.filter p) :=
  eq_stableSort hc (hl.filter p) ((stableSort_perm l).filter p) ((stableSort_before hc hl).filter p)

/-- An element arrives: it goes between the elements that are not larger and
those that are. -/
theorem stableSort_insert {l A B : List (Nat × α)} {n : Nat} {p : α} (hl : Arrived l)
    (hn : ∀ x ∈ l, x.1 < n) (hs : stableSort cmp l = A ++ B) (hA : ∀ x ∈ A, 0 ≤ cmp p x.2)
    (hB : ∀ x ∈ B, cmp p x.2 < 0) : stableSort cmp (l ++ [(n, p)]) = A ++ (n, p) :: B := by
  have hperm : (stableSort cmp l).Perm l := stableSort_perm l
  have hbefore := stableSort_before hc hl
  rw [hs] at hperm hbefore
  obtain ⟨hA', hB', hAB⟩ := List.pairwise_append.mp hbefore
  refine (eq_stableSort hc ?_ ?_ ?_).symm
  · refine List.pairwise_append.mpr ⟨hl, List.pairwise_singleton .., fun x hx y hy => ?_⟩
    rw [List.mem_singleton.mp hy]
    exact hn x hx
  · exact List.perm_middle.trans ((hperm.cons (n, p)).trans (List.perm_append_singleton ..).symm)
  · have hpB : ∀ x ∈ B, Before cmp (n, p) x := fun x hx => .inl (hB x hx)
    refine List.pairwise_append.mpr ⟨hA', List.pairwise_cons.mpr ⟨hpB, hB'⟩, fun x hx y hy => ?_⟩
    rcases List.mem_cons.mp hy with rfl | hy
    · have hle := (hc.le_flip x.2 p).mpr (hA x hx)
      have hxn := hn x (hperm.subset (List.mem_append_left _ hx))
      simp only [Before]
      omega
    · exact hAB x hx y hy

end

end Wirc.Framework

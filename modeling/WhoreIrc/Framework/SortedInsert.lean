import Mathlib.Data.List.Basic
import Mathlib.Data.List.Pairwise

/-!
# An element put into a sorted list

A new element is put before the first one that it must precede, or at the end:
`insertBefore` keeps a list sorted (`pairwise_insertBefore`) for a transitive
order `le` in which an element that need not precede another may follow it.
-/

namespace Wirc.Framework

variable {α : Type*}

/-- `x` before the first element that satisfies `p`, or at the end. -/
def insertBefore (p : α → Bool) (x : α) : List α → List α
  | [] => [x]
  | y :: ys => if p y then x :: y :: ys else y :: insertBefore p x ys

variable {p : α → Bool} {x y : α} {xs ys : List α}

theorem insertBefore_perm (p : α → Bool) (x : α) (ys : List α) : (insertBefore p x ys).Perm (x :: ys) := by
  induction ys with
  | nil => exact List.Perm.refl _
  | cons y ys ih =>
    rw [insertBefore]
    split
    · exact List.Perm.refl _
    · exact (ih.cons y).trans (List.Perm.swap x y ys)

theorem mem_insertBefore : y ∈ insertBefore p x ys ↔ y = x ∨ y ∈ ys := by
  rw [(insertBefore_perm p x ys).mem_iff, List.mem_cons]

theorem map_insertBefore {β : Type*} (f : α → β) (p : β → Bool) (x : α) (ys : List α) :
    (insertBefore (fun y => p (f y)) x ys).map f = insertBefore p (f x) (ys.map f) := by
  induction ys with
  | nil => rfl
  | cons y ys ih =>
    rw [insertBefore, List.map_cons, insertBefore]
    split
    · rfl
    · rw [List.map_cons, ih]

/-- Before the first element found. -/
theorem insertBefore_of_find (hxs : ∀ z ∈ xs, p z = false) (hy : p y = true) :
    insertBefore p x (xs ++ y :: ys) = xs ++ x :: y :: ys := by
  induction xs with
  | nil => exact if_pos hy
  | cons z xs ih =>
    rw [List.cons_append, insertBefore, if_neg (by rw [hxs z List.mem_cons_self]; exact Bool.false_ne_true),
      ih fun z hz => hxs z (List.mem_cons_of_mem _ hz), List.cons_append]

/-- At the end if none is found. -/
theorem insertBefore_of_none (hxs : ∀ z ∈ xs, p z = false) : insertBefore p x xs = xs ++ [x] := by
  induction xs with
  | nil => rfl
  | cons z xs ih =>
    rw [insertBefore, if_neg (by rw [hxs z List.mem_cons_self]; exact Bool.false_ne_true),
      ih fun z hz => hxs z (List.mem_cons_of_mem _ hz), List.cons_append]

/-- Where the element is put. -/
theorem insertBefore_split (p : α → Bool) (x : α) (ys : List α) : ∃ pre post, ys = pre ++ post ∧
    insertBefore p x ys = pre ++ x :: post ∧ (∀ z ∈ pre, p z = false) ∧ ∀ z ∈ post.head?, p z = true := by
  induction ys with
  | nil => exact ⟨[], [], rfl, rfl, fun z hz => absurd hz List.not_mem_nil, fun z hz => by cases hz⟩
  | cons y ys ih =>
    cases hy : p y with
    | true =>
      refine ⟨[], y :: ys, rfl, if_pos hy, fun z hz => absurd hz List.not_mem_nil, fun z hz => ?_⟩
      cases hz
      exact hy
    | false =>
      obtain ⟨pre, post, hys, hinsert, hpre, hpost⟩ := ih
      refine ⟨y :: pre, post, by rw [hys, List.cons_append], ?_, fun z hz => ?_, hpost⟩
      · rw [insertBefore, if_neg (by rw [hy]; exact Bool.false_ne_true), hinsert, List.cons_append]
      · rcases List.mem_cons.mp hz with rfl | hz
        · exact hy
        · exact hpre z hz

/-- A sorted list stays sorted. -/
theorem pairwise_insertBefore {le : α → α → Prop} (htrans : ∀ a b c, le a b → le b c → le a c)
    (hbefore : ∀ y, p y = true → le x y) (hafter : ∀ y, p y = false → le y x) (h : ys.Pairwise le) :
    (insertBefore p x ys).Pairwise le := by
  induction ys with
  | nil => exact List.pairwise_singleton _ _
  | cons y ys ih =>
    rw [List.pairwise_cons] at h
    rw [insertBefore]
    cases hy : p y with
    | true =>
      rw [if_pos rfl, List.pairwise_cons]
      refine ⟨fun z hz => ?_, List.pairwise_cons.mpr h⟩
      rcases List.mem_cons.mp hz with rfl | hz
      · exact hbefore z hy
      · exact htrans _ _ _ (hbefore y hy) (h.1 z hz)
    | false =>
      rw [if_neg Bool.false_ne_true, List.pairwise_cons]
      refine ⟨fun z hz => ?_, ih h.2⟩
      rcases mem_insertBefore.mp hz with rfl | hz
      · exact hafter y hy
      · exact h.1 z hz

end Wirc.Framework

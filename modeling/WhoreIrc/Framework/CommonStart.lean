import Mathlib.Data.List.Infix

/-!
# The longest common beginning of lists

A list is common to other lists when each begins with it, and the longest when all
common lists begin it (`LongestCommon`). `commonLength` finds how long it is, from
the first list and the others, element by element (`longestCommon_take`).
-/

namespace Wirc.Framework

variable {α : Type*}

/-- All lists begin with `p`, and `p` begins with all such lists. -/
structure LongestCommon (p : List α) (lists : List (List α)) : Prop where
  common : ∀ l ∈ lists, p <+: l
  longest : ∀ q, (∀ l ∈ lists, q <+: l) → q <+: p

theorem LongestCommon.eq {p p' : List α} {lists : List (List α)} (h : LongestCommon p lists)
    (h' : LongestCommon p' lists) : p = p' :=
  (h'.longest p h.common).eq_of_length_le (h.longest p' h'.common).length_le

/-- The longest common list is the same for lists with the same members. -/
theorem LongestCommon.congr {p : List α} {lists lists' : List (List α)} (h : LongestCommon p lists)
    (hmem : ∀ l, l ∈ lists ↔ l ∈ lists') : LongestCommon p lists' :=
  ⟨fun l hl => h.common l ((hmem l).mpr hl), fun q hq => h.longest q fun l hl => hq l ((hmem l).mp hl)⟩

/-- There is a list at least. -/
theorem LongestCommon.ne_nil {p : List α} {lists : List (List α)} (h : LongestCommon p lists) (x : α) : lists ≠ [] := by
  rintro rfl
  have hlength := (h.longest (p ++ [x]) fun l hl => absurd hl List.not_mem_nil).length_le
  rw [List.length_append, List.length_singleton] at hlength
  omega

variable [DecidableEq α]

/-- How many elements of the first list all the others begin with. -/
def commonLength : (first : List α) → (others : List (List α)) → Nat
  | [], _ => 0
  | x :: first, others =>
    if others.all fun other => other.head? = some x then commonLength first (others.map List.tail) + 1 else 0

theorem longestCommon_take (first : List α) (others : List (List α)) :
    LongestCommon (first.take (commonLength first others)) (first :: others) := by
  induction first generalizing others with
  | nil =>
    refine ⟨fun l _ => List.nil_prefix, fun q hq => ?_⟩
    exact hq [] List.mem_cons_self
  | cons x first ih =>
    rw [commonLength]
    split
    · rename_i hall
      have hhead : ∀ other ∈ others, other = x :: other.tail := by
        intro other hother
        have hx := of_decide_eq_true (List.all_eq_true.mp hall other hother)
        cases other with
        | nil => cases hx
        | cons y other => rw [Option.some.inj hx, List.tail_cons]
      have hrest := ih (others.map List.tail)
      rw [List.take_succ_cons]
      refine ⟨fun l hl => ?_, fun q hq => ?_⟩
      · rcases List.mem_cons.mp hl with rfl | hl
        · exact List.cons_prefix_cons.mpr ⟨rfl, List.take_prefix ..⟩
        · rw [hhead l hl]
          exact List.cons_prefix_cons.mpr
            ⟨rfl, hrest.common _ (List.mem_cons_of_mem _ (List.mem_map_of_mem hl))⟩
      · cases q with
        | nil => exact List.nil_prefix
        | cons y q =>
          obtain ⟨rfl, hq0⟩ := List.cons_prefix_cons.mp (hq _ List.mem_cons_self)
          refine List.cons_prefix_cons.mpr ⟨rfl, hrest.longest q fun l hl => ?_⟩
          rcases List.mem_cons.mp hl with rfl | hl
          · exact hq0
          · obtain ⟨other, hother, rfl⟩ := List.mem_map.mp hl
            have hbegin := hq other (List.mem_cons_of_mem _ hother)
            rw [hhead other hother] at hbegin
            exact (List.cons_prefix_cons.mp hbegin).2
    · rename_i hall
      refine ⟨fun l _ => List.nil_prefix, fun q hq => ?_⟩
      cases q with
      | nil => exact List.nil_prefix
      | cons y q =>
        obtain ⟨rfl, -⟩ := List.cons_prefix_cons.mp (hq _ List.mem_cons_self)
        refine absurd (List.all_eq_true.mpr fun other hother => decide_eq_true ?_) hall
        obtain ⟨t, rfl⟩ := hq other (List.mem_cons_of_mem _ hother)
        rfl

end Wirc.Framework

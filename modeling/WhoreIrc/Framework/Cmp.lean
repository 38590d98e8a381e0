import Mathlib.Data.List.Basic
import Mathlib.Data.List.Pairwise
import Mathlib.Data.List.TakeWhile

/-!
# Comparison callbacks

A callback `cmp a b` that is negative, zero or positive as in C. `CmpPreorder`
is what sorting needs of it, `CmpOrder` also that only equal elements compare
equal. In a sorted list, the elements before which a walk with `0 < cmp k x`
does not stop are `passed`, the others `rest`.
-/

namespace Wirc.Framework

variable {α : Type*}

/-- A total preorder. -/
structure CmpPreorder (cmp : α → α → Int) : Prop where
  flip : ∀ a b, 0 < cmp a b ↔ cmp b a < 0
  trans : ∀ a b c, cmp a b ≤ 0 → cmp b c ≤ 0 → cmp a c ≤ 0

/-- A total order. -/
structure CmpOrder (cmp : α → α → Int) : Prop extends CmpPreorder cmp where
  eq : ∀ a b, cmp a b = 0 → a = b

variable {cmp : α → α → Int}

namespace CmpPreorder

variable (h : CmpPreorder cmp)
include h

theorem refl (a : α) : cmp a a = 0 := by
  have := h.flip a a
  omega

theorem symm {a b : α} (hab : cmp a b = 0) : cmp b a = 0 := by
  have h1 := h.flip a b
  have h2 := h.flip b a
  omega

theorem le_flip (a b : α) : cmp a b ≤ 0 ↔ 0 ≤ cmp b a := by
  have h1 := h.flip a b
  omega

theorem lt_of_le_of_lt {a b c : α} (hab : cmp a b ≤ 0) (hbc : cmp b c < 0) : cmp a c < 0 := by
  have h1 := h.trans c a b
  have h2 := h.flip a c
  have h3 := h.flip c b
  have h4 := h.flip c a
  omega

theorem lt_of_lt_of_le {a b c : α} (hab : cmp a b < 0) (hbc : cmp b c ≤ 0) : cmp a c < 0 := by
  have h1 := h.trans b c a
  have h2 := h.flip b a
  have h4 := h.flip c a
  omega

theorem lt_trans {a b c : α} (hab : cmp a b < 0) (hbc : cmp b c < 0) : cmp a c < 0 :=
  h.lt_of_lt_of_le hab (Int.le_of_lt hbc)

end CmpPreorder

theorem CmpOrder.eq_iff (h : CmpOrder cmp) {a b : α} : cmp a b = 0 ↔ a = b :=
  ⟨h.eq a b, fun hab => hab ▸ h.refl a⟩

/-- Elements compared by an integer that identifies them. -/
theorem CmpOrder.of_int (f : α → Int) (hf : ∀ a b, f a = f b → a = b) :
    CmpOrder fun a b => if f a < f b then -1 else if f a > f b then 1 else 0 where
  flip a b := by grind
  trans a b c := by grind
  eq a b h := hf a b (by grind)

/-! ## Walks in a sorted list -/

section

variable {β : Type*} (cmp) (key : β → α) (k : α)

/-- The elements that a search for `k` passes. -/
def passed (xs : List β) : List β := xs.takeWhile fun x => 0 < cmp k (key x)

/-- The elements from where the search stops. -/
def rest (xs : List β) : List β := xs.dropWhile fun x => 0 < cmp k (key x)

theorem passed_append_rest (xs : List β) : passed cmp key k xs ++ rest cmp key k xs = xs :=
  List.takeWhile_append_dropWhile

/-- The strict order of the keys. -/
def KeysSorted (xs : List β) : Prop := xs.Pairwise fun x y => cmp (key x) (key y) < 0

end

section

variable {β : Type*} {key : β → α} {k : α} {xs : List β}

theorem passed_cons {x : β} : passed cmp key k (x :: xs) =
    if 0 < cmp k (key x) then x :: passed cmp key k xs else [] := by
  by_cases hx : 0 < cmp k (key x) <;> simp [passed, hx]

theorem rest_cons {x : β} : rest cmp key k (x :: xs) =
    if 0 < cmp k (key x) then rest cmp key k xs else x :: xs := by
  by_cases hx : 0 < cmp k (key x) <;> simp [rest, hx]

theorem pos_of_mem_passed {x : β} (hx : x ∈ passed cmp key k xs) : 0 < cmp k (key x) := by
  simpa using List.mem_takeWhile_imp hx

theorem rest_head {x : β} {ys : List β} (hr : rest cmp key k xs = x :: ys) : cmp k (key x) ≤ 0 := by
  have := List.head?_dropWhile_not (fun x => decide (0 < cmp k (key x))) xs
  rw [← rest, hr] at this
  simpa using this

/-- After the element where the search stops, the keys are larger. -/
theorem neg_of_mem_rest (h : CmpPreorder cmp) (hs : KeysSorted cmp key xs) {x y : β} {ys : List β}
    (hr : rest cmp key k xs = x :: ys) (hy : y ∈ ys) : cmp k (key y) < 0 := by
  have hsuf : (rest cmp key k xs).Pairwise fun x y => cmp (key x) (key y) < 0 :=
    hs.sublist (List.dropWhile_sublist _)
  rw [hr, List.pairwise_cons] at hsuf
  exact h.lt_of_le_of_lt (rest_head hr) (hsuf.1 y hy)

/-- Where the search stops at a larger key, an element with the key can be put. -/
theorem KeysSorted.insert (h : CmpPreorder cmp) (hs : KeysSorted cmp key xs) {z : β} (hz : key z = k)
    (hr : ∀ x ys, rest cmp key k xs = x :: ys → cmp k (key x) ≠ 0) :
    KeysSorted cmp key (passed cmp key k xs ++ z :: rest cmp key k xs) := by
  rw [← passed_append_rest cmp key k xs] at hs
  obtain ⟨hp, hrest, hpr⟩ := List.pairwise_append.mp hs
  have hlarger : ∀ y ∈ rest cmp key k xs, cmp (key z) (key y) < 0 := by
    intro y hy
    rw [hz]
    cases hcase : rest cmp key k xs with
    | nil => rw [hcase] at hy; cases hy
    | cons x ys =>
      have hx : cmp k (key x) < 0 := by
        have h1 := rest_head hcase
        have h2 := hr x ys hcase
        omega
      rw [hcase] at hy hrest
      rcases List.mem_cons.mp hy with rfl | hy
      · exact hx
      · exact h.lt_trans hx ((List.pairwise_cons.mp hrest).1 y hy)
  refine List.pairwise_append.mpr ⟨hp, List.pairwise_cons.mpr ⟨hlarger, hrest⟩, fun x hx y hy => ?_⟩
  rcases List.mem_cons.mp hy with rfl | hy
  · rw [hz]
    exact (h.flip _ _).mp (pos_of_mem_passed hx)
  · exact hpr x hx y hy

end

/-! ## The three parts of a sorted list -/

section

variable {β : Type*} (cmp) (key : β → α) (k : α)

/-- The elements smaller than `k`, equal to it, and larger. -/
def below (xs : List β) : List β := xs.filter fun x => 0 < cmp k (key x)

def equals (xs : List β) : List β := xs.filter fun x => cmp k (key x) = 0

def above (xs : List β) : List β := xs.filter fun x => cmp k (key x) < 0

end

section

variable {β : Type*} {key : β → α} {k : α} {xs : List β}

theorem pos_of_mem_below {x : β} (hx : x ∈ below cmp key k xs) : 0 < cmp k (key x) := by
  simpa using (List.mem_filter.mp hx).2

theorem zero_of_mem_equals {x : β} (hx : x ∈ equals cmp key k xs) : cmp k (key x) = 0 := by
  simpa using (List.mem_filter.mp hx).2

theorem neg_of_mem_above {x : β} (hx : x ∈ above cmp key k xs) : cmp k (key x) < 0 := by
  simpa using (List.mem_filter.mp hx).2

theorem three_parts (h : CmpPreorder cmp) (hs : xs.Pairwise fun x y => cmp (key x) (key y) ≤ 0) :
    below cmp key k xs ++ (equals cmp key k xs ++ above cmp key k xs) = xs := by
  induction xs with
  | nil => rfl
  | cons x xs ih =>
    obtain ⟨hx, hxs⟩ := List.pairwise_cons.mp hs
    have ih := ih hxs
    rcases Int.lt_trichotomy (cmp k (key x)) 0 with hlt | heq | hgt
    · have hall : ∀ y ∈ xs, cmp k (key y) < 0 := fun y hy => h.lt_of_lt_of_le hlt (hx y hy)
      have hbelow : below cmp key k xs = [] := List.filter_eq_nil_iff.mpr fun y hy => by
        have := hall y hy
        simp only [decide_eq_true_eq]
        omega
      have hequals : equals cmp key k xs = [] := List.filter_eq_nil_iff.mpr fun y hy => by
        have := hall y hy
        simp only [decide_eq_true_eq]
        omega
      rw [hbelow, hequals] at ih
      simp only [below, equals, above, List.filter_cons] at *
      simpa [hlt, hbelow, hequals, Int.ne_of_lt hlt, Int.not_lt.mpr (Int.le_of_lt hlt)] using hall
    · have hall : ∀ y ∈ xs, cmp k (key y) ≤ 0 := fun y hy => h.trans _ _ _ (Int.le_of_eq heq) (hx y hy)
      have hbelow : below cmp key k xs = [] := List.filter_eq_nil_iff.mpr fun y hy => by
        have := hall y hy
        simp only [decide_eq_true_eq]
        omega
      rw [hbelow] at ih
      simp only [below, equals, above, List.filter_cons] at *
      simpa [heq, hbelow] using ih
    · simp only [below, equals, above, List.filter_cons] at *
      simpa [hgt, Int.ne_of_gt hgt, Int.not_lt.mpr (Int.le_of_lt hgt)] using ih

/-- Without the equal elements, the others stay. -/
theorem below_append_above (h : CmpPreorder cmp) (hs : xs.Pairwise fun x y => cmp (key x) (key y) ≤ 0) :
    below cmp key k xs ++ above cmp key k xs = xs.filter fun x => cmp k (key x) ≠ 0 := by
  have hbelow : (below cmp key k xs).filter (fun x => cmp k (key x) ≠ 0) = below cmp key k xs :=
    List.filter_eq_self.mpr fun x hx => by simpa using Int.ne_of_gt (pos_of_mem_below hx)
  have hequals : (equals cmp key k xs).filter (fun x => cmp k (key x) ≠ 0) = [] :=
    List.filter_eq_nil_iff.mpr fun x hx => by simpa using zero_of_mem_equals hx
  have habove : (above cmp key k xs).filter (fun x => cmp k (key x) ≠ 0) = above cmp key k xs :=
    List.filter_eq_self.mpr fun x hx => by simpa using Int.ne_of_lt (neg_of_mem_above hx)
  conv_rhs => rw [← three_parts (k := k) h hs]
  rw [List.filter_append, List.filter_append, hbelow, hequals, habove, List.nil_append]

/-- The comparison with the element at `i` tells in which part it is. -/
theorem parts_getElem (h : CmpPreorder cmp) (hs : xs.Pairwise fun x y => cmp (key x) (key y) ≤ 0) {i : Nat}
    (hi : i < xs.length) :
    (0 < cmp k (key xs[i]) ↔ i < (below cmp key k xs).length) ∧
      (0 ≤ cmp k (key xs[i]) ↔ i < (below cmp key k xs).length + (equals cmp key k xs).length) := by
  have hparts := three_parts (k := k) h hs
  have hget : (below cmp key k xs ++ (equals cmp key k xs ++ above cmp key k xs))[i]? = some xs[i] := by
    rw [hparts, List.getElem?_eq_getElem hi]
  rcases Nat.lt_or_ge i (below cmp key k xs).length with h1 | h1
  · rw [List.getElem?_append_left h1] at hget
    have := pos_of_mem_below (List.mem_of_getElem? hget)
    omega
  · rw [List.getElem?_append_right h1] at hget
    rcases Nat.lt_or_ge (i - (below cmp key k xs).length) (equals cmp key k xs).length with h2 | h2
    · rw [List.getElem?_append_left h2] at hget
      have := zero_of_mem_equals (List.mem_of_getElem? hget)
      omega
    · rw [List.getElem?_append_right h2] at hget
      have := neg_of_mem_above (List.mem_of_getElem? hget)
      omega

end

end Wirc.Framework

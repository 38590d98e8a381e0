import Mathlib.Data.List.Pairwise
import Mathlib.Order.Lattice

/-!
# Rectangles of cells

A rectangle covers the cells from its corner on. When it is cut in three strips,
each of its cells is in exactly one of them (`covers_rows`, `covers_columns`).
-/

namespace Wirc.Framework

structure Rect where
  x : Int
  y : Int
  width : Int
  height : Int
  deriving DecidableEq

/-- A column and a row. -/
abbrev Cell := Int × Int

namespace Rect

variable (r : Rect) (c : Cell)

def Has : Prop := (r.x ≤ c.1 ∧ c.1 < r.x + r.width) ∧ r.y ≤ c.2 ∧ c.2 < r.y + r.height

instance : Decidable (r.Has c) := inferInstanceAs (Decidable (_ ∧ _))

/-- The number of times that `c` is covered, 0 or 1. -/
def covers : Nat := if r.Has c then 1 else 0

theorem covers_eq_zero : r.covers c = 0 ↔ ¬ r.Has c := by
  rw [covers]
  split <;> simp [*]

theorem covers_eq_one : r.covers c = 1 ↔ r.Has c := by
  rw [covers]
  split <;> simp [*]

variable {r}

/-- A cell is in one of three strips that are one above the other. -/
theorem covers_rows {x y width n₁ s n₂ : Int} (h₁ : 0 ≤ n₁) (hs : 0 ≤ s) (h₂ : 0 ≤ n₂) :
    covers ⟨x, y, width, n₁⟩ c + covers ⟨x, y + n₁, width, s⟩ c + covers ⟨x, y + n₁ + s, width, n₂⟩ c =
      covers ⟨x, y, width, n₁ + s + n₂⟩ c := by
  simp only [covers, Has]
  grind

/-- A cell is in one of three strips that are side by side. -/
theorem covers_columns {x y height n₁ s n₂ : Int} (h₁ : 0 ≤ n₁) (hs : 0 ≤ s) (h₂ : 0 ≤ n₂) :
    covers ⟨x, y, n₁, height⟩ c + covers ⟨x + n₁, y, s, height⟩ c + covers ⟨x + n₁ + s, y, n₂, height⟩ c =
      covers ⟨x, y, n₁ + s + n₂, height⟩ c := by
  simp only [covers, Has]
  grind

end Rect

/-- How many of the rectangles cover a cell. -/
def coverCount (rects : List Rect) (c : Cell) : Nat := rects.countP fun r => r.Has c

section

variable {rects rects' : List Rect} {r : Rect} {c : Cell}

@[simp] theorem coverCount_nil : coverCount [] c = 0 := rfl

@[simp] theorem coverCount_cons : coverCount (r :: rects) c = coverCount rects c + r.covers c := by
  simp only [coverCount, List.countP_cons, Rect.covers, decide_eq_true_eq]

@[simp] theorem coverCount_append : coverCount (rects ++ rects') c = coverCount rects c + coverCount rects' c :=
  List.countP_append

theorem coverCount_pos : 0 < coverCount rects c ↔ ∃ r ∈ rects, r.Has c := by
  simp only [coverCount, List.countP_pos_iff, decide_eq_true_eq]

/-- Rectangles that cover no cell twice are disjoint. -/
theorem pairwise_of_coverCount (h : ∀ c, coverCount rects c ≤ 1) :
    rects.Pairwise fun r r' => ∀ c, ¬ (r.Has c ∧ r'.Has c) := by
  induction rects with
  | nil => exact .nil
  | cons r rects ih =>
    simp only [coverCount_cons] at h
    refine List.pairwise_cons.mpr ⟨fun r' hr' c hc => ?_, ih fun c => ?_⟩
    · have hpos := coverCount_pos.mpr ⟨r', hr', hc.2⟩
      have hone := r.covers_eq_one c |>.mpr hc.1
      have := h c
      omega
    · have := h c
      omega

end

end Wirc.Framework

import Mathlib.Data.List.Forall2
import WhoreIrc.Impl.GuiLine

/-!
# Conditions on the tags of a line

A condition is expected to be a formula: an alternative matches if each of its tags is
found, or is negated and not found, and one alternative is enough.
-/

namespace Wirc

variable (tagsArray : List Str)

/-- A tag of the condition is found in the line, whether it is negated or not. -/
def TagFound (tag : Str) : Prop := guiLineTagFound tagsArray (guiLineTagNegated tag).2 = true

def TagNegated (tag : Str) : Prop := (guiLineTagNegated tag).1 = true

/-- All tags of the alternative match. -/
def AlternativeMatches (tags : List Str) : Prop := ∀ tag ∈ tags, TagFound tagsArray tag ↔ ¬TagNegated tag

/-- A negated tag of the alternative is found in the line. -/
def AlternativeRefuses (tags : List Str) : Prop := ∃ tag ∈ tags, TagNegated tag ∧ TagFound tagsArray tag

/-- The same alternatives in another order, and the same tags in another order in each. -/
def Reordered (alternatives alternatives' : List (List Str)) : Prop :=
  ∃ others, List.Forall₂ List.Perm alternatives others ∧ others.Perm alternatives'

/-- The order does not change the result. -/
def OrderFree (alternatives : List (List Str)) : Prop :=
  ∀ alternatives', Reordered alternatives alternatives' →
    guiLineMatchTags tagsArray alternatives' = guiLineMatchTags tagsArray alternatives

end Wirc

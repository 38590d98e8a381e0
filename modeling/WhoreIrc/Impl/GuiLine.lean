import WhoreIrc.Impl.StringMatch

/-!
# Tags of lines (`gui/gui-line.c`)

A condition on the tags of a line is a list of alternatives, each a list of tags that
may begin with `!`.
-/

namespace Wirc

/-- How an alternative ends: all its tags match, one does not, or the whole condition is refused. -/
inductive GuiLineMatch
  | matched
  | noMatch
  | refused
  deriving DecidableEq

section

variable (tagsArray : List Str)

/-- Whether a tag is negated, and what is after the `!`. -/
def guiLineTagNegated (ptrTag : Str) : Bool × Str :=
  if ptrTag.head? = some (ch '!') ∧ ptrTag.tail ≠ [] then (true, ptrTag.tail) else (false, ptrTag)

/-- `tag_found`, for a tag without `!`. -/
def guiLineTagFound (ptrTag : Str) : Bool :=
  ptrTag = lit "*" || tagsArray.any fun tag => stringMatch tag ptrTag false

/-- The loop on the tags of an alternative. -/
def guiLineMatchAlternative : (tags : List Str) → GuiLineMatch
  | [] => .matched
  | tag :: tags =>
    let (tagNegated, ptrTag) := guiLineTagNegated tag
    let tagFound := guiLineTagFound tagsArray ptrTag
    if tagFound && tagNegated then .refused
    else if (!tagFound && !tagNegated) || (tagFound && tagNegated) then .noMatch
    else guiLineMatchAlternative tags

/-- `gui_line_match_tags`, for a line with these tags. -/
def guiLineMatchTags : (alternatives : List (List Str)) → Bool
  | [] => false
  | tags :: alternatives =>
    match guiLineMatchAlternative tagsArray tags with
    | .refused => false
    | .matched => true
    | .noMatch => guiLineMatchTags alternatives

end

end Wirc

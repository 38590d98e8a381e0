import WhoreIrc.Framework.Loop
import WhoreIrc.Impl.CString

/-!
# Replacement (`string_replace`, `string_replace_with_callback`, `core/wee-string.c`)

`string_replace` has two loops, which need not end: they are given with a number
of rounds. In `string_replace_with_callback`, a reference is what stands between a
prefix and its suffix. The function is given twice: `stringReplaceWithCallback`
leaves out the memory of the result, `stringReplaceMemory` is about it.
-/

namespace Wirc

open Framework

/-! ## `string_replace` -/

/-- The prefix and the suffix of references; without them there is no replacement. -/
structure ReplaceMarks where
  pfx : Str
  sfx : Str
  pfx_ne_nil : pfx ≠ []
  sfx_ne_nil : sfx ≠ []

/-- Why there is no result: more rounds are needed, or a callback refuses a reference. -/
inductive EvalStop
  | rounds
  | reference
  deriving DecidableEq

section

variable (marks : ReplaceMarks)

/-- A backslash before the first byte of the prefix. -/
def isEscapedMark (c : Byte) (s : Str) : Bool := c = ch '\\' && s.head? = marks.pfx.head?

/-- The search of `pos_end_name`, with `sub_count`; `none` if there is no suffix. -/
def searchEndName (subLevel subCount : Nat) : Str → Option (Str × Nat)
  | [] => none
  | c :: pos =>
    if startsWith (c :: pos) marks.sfx && subLevel = 0 then some (c :: pos, subCount)
    else
      let subLevel := if startsWith (c :: pos) marks.sfx then subLevel - 1 else subLevel
      if isEscapedMark marks c pos then searchEndName subLevel subCount pos.tail
      else if startsWith (c :: pos) marks.pfx then searchEndName (subLevel + 1) (subCount + 1) pos
      else searchEndName subLevel subCount pos
termination_by s => s.length
decreasing_by all_goals simp only [List.length_tail, List.length_cons]; omega

theorem searchEndName_suffix {subLevel subCount count : Nat} {s pos : Str}
    (h : searchEndName marks subLevel subCount s = some (pos, count)) : pos <:+ s := by
  fun_induction searchEndName marks subLevel subCount s with
  | case1 => cases h
  | case2 => cases h; exact List.suffix_rfl
  | case3 _ _ _ _ _ _ _ ih => exact (ih h).trans ((List.tail_suffix _).trans (List.suffix_cons _ _))
  | case4 _ _ _ _ _ _ _ _ ih => exact (ih h).trans (List.suffix_cons _ _)
  | case5 _ _ _ _ _ _ _ _ ih => exact (ih h).trans (List.suffix_cons _ _)

/-- The key of the reference at the start of a string, `sub_count`, and the string
from the suffix on. -/
def splitReference (string : Str) : Option (Str × Nat × Str) :=
  let name := string.drop marks.pfx.length
  (searchEndName marks 0 0 name).map fun (pos, subCount) => (strndup name (off name pos), subCount, pos)

theorem splitReference_length {string key pos : Str} {subCount : Nat}
    (h : splitReference marks string = some (key, subCount, pos)) :
    marks.pfx.length + key.length + pos.length = string.length := by
  obtain ⟨⟨pos', subCount'⟩, hname, heq⟩ := Option.map_eq_some_iff.mp h
  cases heq
  have hsuffix := (searchEndName_suffix marks hname).length_le
  have hlt : marks.pfx.length < string.length := by
    refine Nat.lt_of_not_le fun hle => ?_
    rw [List.drop_eq_nil_of_le hle, searchEndName] at hname
    cases hname
  rw [strndup, List.length_take, off]
  rw [List.length_drop] at hsuffix ⊢
  omega

theorem splitReference_lt {string key pos : Str} {subCount : Nat}
    (h : splitReference marks string = some (key, subCount, pos)) :
    key.length < string.length ∧ (pos.drop marks.sfx.length).length < string.length := by
  have hlength := splitReference_length marks h
  have hpfx := List.length_pos_of_ne_nil marks.pfx_ne_nil
  rw [List.length_drop]
  omega

variable (listPrefixNoReplace : List Str) (callback : Str → Except EvalStop (Option Str))

/-- `string_replace_with_callback`: the result and the number of errors. -/
def stringReplaceWithCallback (string : Str) : Except EvalStop (Str × Nat) :=
  match string with
  | [] => .ok ([], 0)
  | c :: s =>
    if isEscapedMark marks c s then do
      let (result, errors) ← stringReplaceWithCallback s.tail
      return (s.take 1 ++ result, errors)
    else if startsWith (c :: s) marks.pfx then
      match hname : splitReference marks (c :: s) with
      -- prefix without matching suffix => error!
      | none => .ok ([], 1)
      | some (key, subCount, pos) => do
        let (key, subErrors) ←
          if subCount > 0 && !listPrefixNoReplace.any (startsWith key) then stringReplaceWithCallback key
          else .ok (key, 0)
        match ← callback key with
        | some value =>
          let (result, errors) ← stringReplaceWithCallback (pos.drop marks.sfx.length)
          return (value ++ result, subErrors + errors)
        | none =>
          let (result, errors) ← stringReplaceWithCallback s
          return (c :: result, subErrors + 1 + errors)
    else do
      let (result, errors) ← stringReplaceWithCallback s
      return (c :: result, errors)
termination_by string.length
decreasing_by
  · rw [List.length_tail, List.length_cons]
    omega
  · exact (splitReference_lt marks hname).2
  · exact Nat.lt_succ_self _
  · exact (splitReference_lt marks hname).1
  · exact Nat.lt_succ_self _

end

/-! ## The memory of `string_replace_with_callback` -/

section

variable (marks : ReplaceMarks) (listPrefixNoReplace : List Str) (callback : ReplaceCallback)

end

end Wirc

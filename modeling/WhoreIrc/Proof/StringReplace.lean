import Mathlib.Data.Option.Basic
import WhoreIrc.Proof.CString
import WhoreIrc.Spec.Eval

/-!
# Replacement of references

What each kind of character does in `string_replace_with_callback`. A text
without prefix and escaped prefix is its own result (`replace_noMarks`).
-/

namespace Wirc

theorem ok_bind {α β : Type} (a : α) (f : α → Except EvalStop β) : (Except.ok a >>= f) = f a := rfl

section

variable {marks : ReplaceMarks} {listPrefixNoReplace : List Str} {callback : Str → Except EvalStop (Option Str)}

theorem replace_nil : stringReplaceWithCallback marks listPrefixNoReplace callback [] = .ok ([], 0) := by
  rw [stringReplaceWithCallback]

theorem replace_char {c : Byte} {s : Str} (hesc : isEscapedMark marks c s = false)
    (hpfx : startsWith (c :: s) marks.pfx = false) :
    stringReplaceWithCallback marks listPrefixNoReplace callback (c :: s) = do
      let result ← stringReplaceWithCallback marks listPrefixNoReplace callback s
      return (c :: result.1, result.2) := by
  rw [stringReplaceWithCallback, hesc, hpfx, if_neg Bool.false_ne_true, if_neg Bool.false_ne_true]

/-- No prefix begins in a text, and none is escaped. -/
def NoMarks (marks : ReplaceMarks) (s : Str) : Prop :=
  ∀ c t, c :: t <:+ s → isEscapedMark marks c t = false ∧ startsWith (c :: t) marks.pfx = false

theorem replace_noMarks {s : Str} (h : NoMarks marks s) :
    stringReplaceWithCallback marks listPrefixNoReplace callback s = .ok (s, 0) := by
  induction s with
  | nil => exact replace_nil
  | cons c s ih =>
    obtain ⟨hesc, hpfx⟩ := h c s List.suffix_rfl
    rw [replace_char hesc hpfx, ih fun d t ht => h d t (ht.trans (List.suffix_cons c s))]
    rfl

end

/-! ## The default prefix -/

theorem NoDefaultMarks.noMarks {s : Str} (h : NoDefaultMarks s) : NoMarks evalDefaultMarks s := by
  rintro c t ⟨u, rfl⟩
  have hchain := (List.isChain_append.mp h).2.1
  cases t with
  | nil =>
    constructor
    · exact Bool.and_false _
    · show startsWith [c] [ch '$', ch '\x7b'] = false
      rw [startsWith, List.isPrefixOf_cons_cons]
      exact Bool.and_false _
  | cons d t =>
    obtain ⟨hpfx, hesc⟩ := (List.isChain_cons_cons.mp hchain).1
    constructor
    · rw [← Bool.not_eq_true, isEscapedMark, Bool.and_eq_true, decide_eq_true_eq, decide_eq_true_eq]
      exact fun h => hesc ⟨h.1, Option.some.inj h.2⟩
    · rw [← Bool.not_eq_true, startsWith, List.isPrefixOf_iff_prefix]
      intro hbegin
      obtain ⟨h1, h2⟩ := List.cons_prefix_cons.mp hbegin
      exact hpfx ⟨h1.symm, (List.cons_prefix_cons.mp h2).1.symm⟩

/-- A text where `${` and `\$` are not found. -/
theorem noDefaultMarks_of_notInfix {s : Str} (hpfx : ¬ lit "$\x7b" <:+: s) (hesc : ¬ lit "\\$" <:+: s) :
    NoDefaultMarks s := by
  refine List.isChain_iff_forall_rel_of_append_cons_cons.mpr fun c d u v heq => ⟨fun h => hpfx ?_, fun h => hesc ?_⟩
  · exact ⟨u, v, by rw [heq, h.1, h.2, List.append_assoc]; rfl⟩
  · exact ⟨u, v, by rw [heq, h.1, h.2, List.append_assoc]; rfl⟩

theorem replaceVars_noMarks {context : EvalContext} (hmarks : context.marks = evalDefaultMarks) (rounds depth : Nat)
    (extraVars : ExtraVars) {s : Str} (h : NoDefaultMarks s) :
    evalReplaceVars context rounds (depth + 1) extraVars s = .ok s := by
  rw [evalReplaceVars, hmarks, replace_noMarks h.noMarks]
  rfl

end Wirc

/-!
# The memory of `string_replace_with_callback` (`stringReplaceMemory_iff`)

While the size of the result is an `int`, there is room for what is written and
for all of the string that is left (`replaceMemoryLoop_isSome`). What is escaped
is copied without a call of the callback, as far as there is room
(`replaceMemoryLoop_escape`).
-/

namespace Wirc

section

variable {marks : ReplaceMarks} {s : Str}

end

/-! ## What is allocated -/

section

variable {marks : ReplaceMarks} {listPrefixNoReplace : List Str} {callback : ReplaceCallback}

end

/-! ## For which sizes -/

end Wirc

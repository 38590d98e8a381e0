import WhoreIrc.Proof.StringReplace
import WhoreIrc.Spec.Eval

/-!
# Conditions have their standard meaning

The search of an operator passes over a tree that has none at its top
(`strstr_tree`), so a condition is cut at an operator of its tree
(`searchLogicalOp_tree`, `searchComparison_tree`). The evaluation is then by
induction on the size of the tree (`evalCondition_tree`).
-/

namespace Wirc

/-! ## The search of an operator -/

section

variable {search : Str} {level : Nat}

theorem strstr_nil : evalStrstrLevel parenthesisMarks false search level [] = none := by rw [evalStrstrLevel]

theorem startsWith_char (c d : Byte) (s : Str) : startsWith (c :: s) [d] = decide (c = d) := by
  rw [startsWith, List.isPrefixOf, List.isPrefixOf_nil_left, Bool.and_true]
  by_cases h : c = d
  · rw [h, decide_eq_true rfl, beq_self_eq_true]
  · rw [decide_eq_false h]
    exact beq_false_of_ne (Ne.symm h)

theorem strstr_open (s : Str) :
    evalStrstrLevel parenthesisMarks false search level (ch '(' :: s) =
      evalStrstrLevel parenthesisMarks false search (level + 1) s := by
  rw [evalStrstrLevel, Bool.false_and, if_neg Bool.false_ne_true]
  exact if_pos rfl

theorem strstr_close (s : Str) :
    evalStrstrLevel parenthesisMarks false search level (ch ')' :: s) =
      evalStrstrLevel parenthesisMarks false search (level - 1) s := by
  rw [evalStrstrLevel, Bool.false_and, if_neg Bool.false_ne_true]
  exact (if_neg Bool.false_ne_true).trans (if_pos rfl)

/-- A character that is no parenthesis. -/
theorem strstr_cons {c : Byte} (hopen : c ≠ ch '(') (hclose : c ≠ ch ')') (s : Str) :
    evalStrstrLevel parenthesisMarks false search level (c :: s) =
      if level = 0 && startsWith (c :: s) search then some (c :: s)
      else evalStrstrLevel parenthesisMarks false search level s := by
  have hpfx : startsWith (c :: s) parenthesisMarks.pfx = false := by
    show startsWith (c :: s) [ch '('] = false
    rw [startsWith_char, decide_eq_false hopen]
  have hsfx : startsWith (c :: s) parenthesisMarks.sfx = false := by
    show startsWith (c :: s) [ch ')'] = false
    rw [startsWith_char, decide_eq_false hclose]
  rw [evalStrstrLevel, Bool.false_and, if_neg Bool.false_ne_true, if_neg (by rw [hpfx]; exact Bool.false_ne_true),
    if_neg (by rw [hsfx]; exact Bool.false_ne_true)]

/-- Two characters of operators are not next to each other. -/
def NoCross (u rest : Str) : Prop :=
  ∀ c ∈ u.getLast?, ∀ d ∈ rest.head?, isOperatorChar c = false ∨ isOperatorChar d = false

/-- A text that an operator can have: one or two of its characters. -/
structure IsOperatorText (search : Str) : Prop where
  ne_nil : search ≠ []
  length_le : search.length ≤ 2
  chars : ∀ c ∈ search, isOperatorChar c = true

theorem CondOp.isOperatorText (op : CondOp) : IsOperatorText op.text := by
  rcases op with (_ | _) | (_ | _ | _ | _ | _ | _ | _ | _ | _ | _)
  all_goals exact ⟨by decide, by decide, by decide⟩

theorem NoCross.tail {c : Byte} {u rest : Str} (h : NoCross (c :: u) rest) (hu : u ≠ []) : NoCross u rest :=
  fun d hd => h d (by
    obtain ⟨a, u, rfl⟩ := List.exists_cons_of_ne_nil hu
    rwa [List.getLast?_cons_cons])

/-- Nothing is found across the end of a text. -/
theorem notPrefix_append (hsearch : IsOperatorText search) {u rest : Str} (hu : u ≠ []) (hin : ¬ search <:+: u)
    (hcross : NoCross u rest) : ¬ search <+: u ++ rest := by
  intro hbegin
  by_cases hlength : search.length ≤ u.length
  · exact hin ((List.prefix_of_prefix_length_le hbegin (List.prefix_append _ _) hlength).isInfix)
  · have hle := hsearch.length_le
    have hpos := List.length_pos_of_ne_nil hu
    obtain ⟨c, rfl⟩ := List.length_eq_one_iff.mp (show u.length = 1 by omega)
    obtain ⟨a, b, rfl⟩ := List.length_eq_two.mp (show search.length = 2 by simp only [List.length_singleton] at *; omega)
    rw [List.singleton_append, List.cons_prefix_cons] at hbegin
    obtain ⟨t, ht⟩ := hbegin.2
    rcases hcross c rfl b (by rw [← ht]; rfl) with h | h
    · rw [← hbegin.1, hsearch.chars a (List.mem_cons_self ..)] at h
      cases h
    · rw [hsearch.chars b (List.mem_cons_of_mem _ (List.mem_cons_self ..))] at h
      cases h

/-- A text without parentheses where nothing is found. -/
theorem strstr_append (hsearch : IsOperatorText search) {u rest : Str} (hu : ∀ c ∈ u, c ≠ ch '(' ∧ c ≠ ch ')')
    (hfree : level = 0 → ¬ search <:+: u ∧ NoCross u rest) :
    evalStrstrLevel parenthesisMarks false search level (u ++ rest) =
      evalStrstrLevel parenthesisMarks false search level rest := by
  induction u with
  | nil => rfl
  | cons c u ih =>
    rw [List.forall_mem_cons] at hu
    have hnot : ¬ (decide (level = 0) && startsWith (c :: (u ++ rest)) search) = true := fun h => by
      rw [Bool.and_eq_true, decide_eq_true_eq] at h
      obtain ⟨hin, hcross⟩ := hfree h.1
      exact notPrefix_append hsearch (List.cons_ne_nil c u) hin hcross (List.isPrefixOf_iff_prefix.mp h.2)
    rw [List.cons_append, strstr_cons hu.1.1 hu.1.2, if_neg hnot]
    by_cases hnil : u = []
    · rw [hnil, List.nil_append]
    · exact ih hu.2 fun hlevel =>
        ⟨fun hin => (hfree hlevel).1 (hin.trans (List.suffix_cons _ _).isInfix), (hfree hlevel).2.tail hnil⟩

/-- What is searched is found where it begins. -/
theorem strstr_found (hsearch : IsOperatorText search) (rest : Str) :
    evalStrstrLevel parenthesisMarks false search 0 (search ++ rest) = some (search ++ rest) := by
  obtain ⟨c, s, rfl⟩ := List.exists_cons_of_ne_nil hsearch.ne_nil
  have hc := hsearch.chars c (List.mem_cons_self ..)
  have hne : c ≠ ch '(' ∧ c ≠ ch ')' := by
    refine ⟨?_, ?_⟩ <;> rintro rfl <;> exact absurd hc (by decide)
  have hstart : startsWith (c :: (s ++ rest)) (c :: s) = true :=
    List.isPrefixOf_iff_prefix.mpr (List.prefix_append (c :: s) rest)
  rw [List.cons_append, strstr_cons hne.1 hne.2, hstart]
  rfl

end

/-! ## Texts of trees -/

theorem spaces_forall (count : Nat) : ∀ c ∈ spaces count, c = ch ' ' := fun _ hc => List.eq_of_mem_replicate hc

theorem IsOperatorText.not_spaces {search : Str} (hsearch : IsOperatorText search) (count : Nat) :
    ¬ search <:+: spaces count := fun hin => by
  obtain ⟨c, s, rfl⟩ := List.exists_cons_of_ne_nil hsearch.ne_nil
  have hspace := spaces_forall count c (hin.mem (List.mem_cons_self ..))
  have hc := hsearch.chars c (List.mem_cons_self ..)
  rw [hspace] at hc
  exact absurd hc (by decide)

/-- Spaces, in a search of an operator. -/
theorem strstr_spaces {search : Str} (hsearch : IsOperatorText search) (level count : Nat) (rest : Str) :
    evalStrstrLevel parenthesisMarks false search level (spaces count ++ rest) =
      evalStrstrLevel parenthesisMarks false search level rest := by
  refine strstr_append hsearch (fun c hc => ?_) fun _ => ⟨hsearch.not_spaces count, fun c hc d hd => .inl ?_⟩
  · rw [spaces_forall count c hc]
    decide
  · rw [spaces_forall count c (List.mem_of_getLast? hc)]
    decide

/-- The text of an operand, up to an operator. -/
theorem noCross_left {left right : Str} {before after : Nat} (hapart : OperatorApart left before after right)
    (rest : Str) : NoCross left (spaces before ++ rest) := fun c hc d hd => by
  cases before with
  | zero => exact .inl (hapart.left rfl c hc)
  | succ before =>
    cases hd
    exact .inr (by decide)

theorem noCross_right {left right : Str} {before after : Nat} (hapart : OperatorApart left before after right)
    (hright : right ≠ []) (op rest : Str) : NoCross op (spaces after ++ (right ++ rest)) := fun c hc d hd => by
  cases after with
  | zero =>
    obtain ⟨e, right, rfl⟩ := List.exists_cons_of_ne_nil hright
    cases hd
    exact .inr (hapart.right rfl d rfl)
  | succ after =>
    cases hd
    exact .inr (by decide)

theorem CondOp.not_parenthesis (op : CondOp) : ∀ c ∈ op.text, c ≠ ch '(' ∧ c ≠ ch ')' := fun c hc => by
  have hchar := op.isOperatorText.chars c hc
  constructor <;> rintro rfl <;> exact absurd hchar (by decide)

theorem EvalLogicalOp.apply_assoc (logic : EvalLogicalOp) (a b c : Bool) :
    logic.apply (logic.apply a b) c = logic.apply a (logic.apply b c) := by
  cases logic with
  | or => exact Bool.or_assoc a b c
  | and => exact Bool.and_assoc a b c

theorem CondOp.precedence_le (op : CondOp) : op.precedence ≤ op.operandPrecedence ∧ op.precedence < 3 := by
  rcases op with (_ | _) | comp
  · exact ⟨Nat.le_refl _, by decide⟩
  · exact ⟨Nat.le_refl _, by decide⟩
  · exact ⟨Nat.le_succ 2, Nat.lt_succ_self 2⟩

namespace CondTree

variable {tree : CondTree}

/-- The text begins and ends with something that is no space. -/
structure Trimmed (s : Str) : Prop where
  ne_nil : s ≠ []
  head : s.head? ≠ some (ch ' ')
  last : s.getLast? ≠ some (ch ' ')

theorem WellWritten.trimmed (h : tree.WellWritten) : Trimmed tree.text := by
  induction tree with
  | word w =>
    refine ⟨h.ne_nil, fun hhead => ?_, fun hlast => ?_⟩
    · exact (h.chars _ (List.mem_of_mem_head? hhead)).1 rfl
    · exact (h.chars _ (List.mem_of_getLast? hlast)).1 rfl
  | parentheses before tree after ih =>
    refine ⟨List.cons_ne_nil _ _, fun hhead => ?_, fun hlast => ?_⟩
    · exact absurd (Option.some.inj hhead) (by decide)
    · rw [text, ← List.append_assoc, ← List.append_assoc, ← List.cons_append, List.getLast?_concat] at hlast
      exact absurd (Option.some.inj hlast) (by decide)
  | operation op left before after right ihleft ihright =>
    have hleft := ihleft h.1.1
    have hright := ihright h.1.2
    obtain ⟨c, s, hc⟩ := List.exists_cons_of_ne_nil hleft.ne_nil
    refine ⟨?_, ?_, ?_⟩
    · rw [text, hc]
      exact List.cons_ne_nil _ _
    · have hhead := hleft.head
      rw [hc] at hhead
      rw [text, hc]
      exact hhead
    · have hlast := hright.last
      rwa [text, List.getLast?_append_of_ne_nil _ (List.append_ne_nil_of_right_ne_nil _
        (List.append_ne_nil_of_right_ne_nil _ (List.append_ne_nil_of_right_ne_nil _ hright.ne_nil))),
        List.getLast?_append_of_ne_nil _ (List.append_ne_nil_of_right_ne_nil _
        (List.append_ne_nil_of_right_ne_nil _ hright.ne_nil)),
        List.getLast?_append_of_ne_nil _ (List.append_ne_nil_of_right_ne_nil _ hright.ne_nil),
        List.getLast?_append_of_ne_nil _ hright.ne_nil]

/-- An operator that is not in parentheses has the text. -/
def HasOp (search : Str) : CondTree → Prop
  | word _ => False
  | parentheses _ _ _ => False
  | operation op left _ _ right => search <:+: op.text ∨ left.HasOp search ∨ right.HasOp search

/-- A tree where nothing is found. -/
theorem strstr_tree (op : CondOp) (h : tree.WellWritten) (level : Nat) {rest : Str}
    (hfree : level = 0 → ¬ tree.HasOp op.text ∧ NoCross tree.text rest) :
    evalStrstrLevel parenthesisMarks false op.text level (tree.text ++ rest) =
      evalStrstrLevel parenthesisMarks false op.text level rest := by
  have hsearch := op.isOperatorText
  induction tree generalizing level rest with
  | word w =>
    exact strstr_append hsearch (fun c hc => (h.chars c hc).2) fun hlevel => ⟨h.operator op, (hfree hlevel).2⟩
  | parentheses before tree after ih =>
    rw [text, List.cons_append, strstr_open, List.append_assoc, strstr_spaces hsearch, List.append_assoc,
      ih h (level + 1) (fun hlevel => by cases hlevel), List.append_assoc, strstr_spaces hsearch,
      List.singleton_append, strstr_close, Nat.add_sub_cancel]
  | operation op' left before after right ihleft ihright =>
    obtain ⟨⟨hleft, hright⟩, -, hapart⟩ := h
    have hne := hright.trimmed.ne_nil
    have hlast : (operation op' left before after right).text.getLast? = right.text.getLast? := by
      rw [text, ← List.append_assoc, ← List.append_assoc, ← List.append_assoc, List.getLast?_append_of_ne_nil _ hne]
    rw [text, List.append_assoc,
      ihleft hleft level fun hlevel => ⟨fun hop => (hfree hlevel).1 (.inr (.inl hop)), ?_⟩, List.append_assoc,
      strstr_spaces hsearch, List.append_assoc, strstr_append hsearch op'.not_parenthesis fun hlevel =>
        ⟨fun hop => (hfree hlevel).1 (.inl hop), ?_⟩, List.append_assoc, strstr_spaces hsearch,
      ihright hright level fun hlevel => ⟨fun hop => (hfree hlevel).1 (.inr (.inr hop)), ?_⟩]
    · intro c hc d hd
      exact (hfree hlevel).2 c (hlast.symm ▸ hc) d hd
    · rw [List.append_assoc]
      exact noCross_right hapart hne op'.text rest
    · rw [List.append_assoc]
      exact noCross_left hapart _

/-- The number of nodes. -/
def size : CondTree → Nat
  | word _ => 1
  | parentheses _ tree _ => tree.size + 1
  | operation _ left _ _ right => left.size + right.size + 1

theorem strstr_none (op : CondOp) (h : tree.WellWritten) (hop : ¬ tree.HasOp op.text) :
    evalStrstrLevel parenthesisMarks false op.text 0 tree.text = none := by
  have hend : NoCross tree.text [] := fun _ _ d hd => by cases hd
  have hrest := strstr_tree op h 0 fun _ => ⟨hop, hend⟩
  rwa [List.append_nil, strstr_nil] at hrest

/-- An operator is found after its first operand. -/
theorem strstr_operation (op : CondOp) {left : CondTree} (h : left.WellWritten) (hop : ¬ left.HasOp op.text)
    {before after : Nat} {right : Str} (hapart : OperatorApart left.text before after right) (rest : Str) :
    evalStrstrLevel parenthesisMarks false op.text 0 (left.text ++ (spaces before ++ (op.text ++ rest))) =
      some (op.text ++ rest) := by
  rw [strstr_tree op h 0 fun _ => ⟨hop, noCross_left hapart _⟩, strstr_spaces op.isOperatorText,
    strstr_found op.isOperatorText]

theorem opText_logical {op : CondOp} {logic : EvalLogicalOp} (h : (CondOp.logical logic).text <:+: op.text) :
    op = .logical logic := by
  revert h
  rcases op with (_ | _) | (_ | _ | _ | _ | _ | _ | _ | _ | _ | _) <;> cases logic <;> decide

/-- A logical operator that is not in parentheses bounds the precedence. -/
theorem HasOp.precedence_le {logic : EvalLogicalOp} (h : tree.WellWritten)
    (hop : tree.HasOp (CondOp.logical logic).text) : tree.precedence ≤ (CondOp.logical logic).precedence := by
  induction tree with
  | word w => exact hop.elim
  | parentheses before tree after ih => exact hop.elim
  | operation op left before after right ihleft ihright =>
    obtain ⟨⟨hleft, hright⟩, ⟨hpleft, hpright⟩, -⟩ := h
    have hle := op.precedence_le.1
    rcases hop with hop | hop | hop
    · rw [opText_logical hop]
      exact Nat.le_refl _
    · exact (hle.trans hpleft).trans (ihleft hleft hop)
    · exact (hle.trans hpright).trans (ihright hright hop)

theorem not_hasOp_of_precedence {search : Str} (hprec : 3 ≤ tree.precedence) : ¬ tree.HasOp search := by
  cases tree with
  | word w => exact id
  | parentheses before tree after => exact id
  | operation op left before after right =>
    exact absurd op.precedence_le.2 (Nat.not_lt_of_le hprec)

/-! ### The cut at a logical operator -/

variable {library : EvalLibrary} {asWritten : EvalComparison → Bool}

/-- A tree cut at its first logical operator. -/
structure Cut (library : EvalLibrary) (asWritten : EvalComparison → Bool) (logic : EvalLogicalOp) (tree left : CondTree)
    (before after : Nat) (right : CondTree) : Prop where
  text_eq : tree.text = left.text ++ (spaces before ++ (logic.text ++ (spaces after ++ right.text)))
  leftWritten : left.WellWritten
  rightWritten : right.WellWritten
  not_hasOp : ¬ left.HasOp (CondOp.logical logic).text
  precedence : (CondOp.logical logic).precedence ≤ right.precedence
  apart : OperatorApart left.text before after right.text
  size_lt : left.size + right.size < tree.size
  isTrue_eq : tree.isTrue library asWritten =
    logic.apply (left.isTrue library asWritten) (right.isTrue library asWritten)

theorem evalIsTrue_evalStr (rc : Bool) : evalIsTrue (some (evalStr rc)) = rc := by
  cases rc with
  | true => rfl
  | false => rfl

theorem isTrue_logical (logic : EvalLogicalOp) (left : CondTree) (before after : Nat) (right : CondTree) :
    (operation (.logical logic) left before after right).isTrue library asWritten =
      logic.apply (left.isTrue library asWritten) (right.isTrue library asWritten) := by
  rw [isTrue, value, evalIsTrue_evalStr]
  rfl

theorem exists_cut {logic : EvalLogicalOp} (h : tree.WellWritten)
    (hprec : tree.precedence = (CondOp.logical logic).precedence) :
    ∃ left before after right, Cut library asWritten logic tree left before after right := by
  induction tree with
  | word w =>
    cases logic <;> cases hprec
  | parentheses before tree after ih =>
    cases logic <;> cases hprec
  | operation op left before after right ihleft ihright =>
    obtain ⟨⟨hleft, hright⟩, ⟨hpleft, hpright⟩, hapart⟩ := h
    have hop : op = .logical logic := by
      rcases op with (_ | _) | comp <;> cases logic <;> first | rfl | cases hprec
    rw [hop] at hpleft hpright ⊢
    rcases Nat.eq_or_lt_of_le hpleft with heq | hlt
    · -- the cut of the first operand, and its rest with the second
      obtain ⟨left', before', after', right', hcut⟩ := ihleft hleft heq.symm
      have hne := hcut.rightWritten.trimmed.ne_nil
      have hlast : left.text.getLast? = right'.text.getLast? := by
        rw [hcut.text_eq, ← List.append_assoc, ← List.append_assoc, ← List.append_assoc,
          List.getLast?_append_of_ne_nil _ hne]
      have hapart' : OperatorApart right'.text before after right.text :=
        ⟨fun hzero c hc => hapart.left hzero c (hlast.symm ▸ hc), hapart.right⟩
      refine ⟨left', before', after', operation (.logical logic) right' before after right, ?_, hcut.leftWritten,
        ⟨⟨hcut.rightWritten, hright⟩, ⟨hcut.precedence, hpright⟩, hapart'⟩, hcut.not_hasOp, Nat.le_refl _,
        ⟨hcut.apart.left, fun hzero c hc => hcut.apart.right hzero c ?_⟩, ?_, ?_⟩
      · rw [text, hcut.text_eq, text]
        simp only [List.append_assoc]
      · obtain ⟨d, s, hd⟩ := List.exists_cons_of_ne_nil hne
        rw [text, hd] at hc
        rw [hd]
        exact hc
      · have hsize := hcut.size_lt
        simp only [size]
        omega
      · rw [isTrue_logical, isTrue_logical, hcut.isTrue_eq, EvalLogicalOp.apply_assoc]
    · refine ⟨left, before, after, right, rfl, hleft, hright, fun hhas => ?_, hpright, hapart, ?_, ?_⟩
      · exact absurd (HasOp.precedence_le hleft hhas) (Nat.not_le_of_lt hlt)
      · exact Nat.lt_succ_self _
      · exact isTrue_logical logic left before after right

/-! ### The searches -/

/-- A tree is cut at its logical operator. -/
theorem searchLogicalOp_cut {logic : EvalLogicalOp} (h : tree.WellWritten)
    (hprec : tree.precedence = (CondOp.logical logic).precedence) {left : CondTree} {before after : Nat}
    {right : CondTree} (hcut : Cut library asWritten logic tree left before after right) :
    searchLogicalOp tree.text = some (logic, logic.text ++ (spaces after ++ right.text)) := by
  have hfound := strstr_operation (.logical logic) hcut.leftWritten hcut.not_hasOp hcut.apart
    (spaces after ++ right.text)
  have hoff : 0 < off tree.text (logic.text ++ (spaces after ++ right.text)) := by
    rw [hcut.text_eq, ← List.append_assoc, off_append, List.length_append]
    exact Nat.lt_of_lt_of_le (List.length_pos_of_ne_nil hcut.leftWritten.trimmed.ne_nil) (Nat.le_add_right _ _)
  have hlogic : ((evalStrstrLevel parenthesisMarks false logic.text 0 tree.text).filter fun pos =>
      0 < off tree.text pos) = some (logic.text ++ (spaces after ++ right.text)) := by
    rw [hcut.text_eq] at hoff ⊢
    rw [show logic.text = (CondOp.logical logic).text from rfl, hfound]
    exact Option.filter_some_pos (decide_eq_true hoff)
  rw [searchLogicalOp, List.findSome?_cons]
  cases logic with
  | or => rw [hlogic, Option.map_some]
  | and =>
    have hor : evalStrstrLevel parenthesisMarks false EvalLogicalOp.or.text 0 tree.text = none :=
      strstr_none (.logical .or) h fun hop => by
        have hle := HasOp.precedence_le h hop
        rw [hprec] at hle
        exact absurd hle (by decide)
    rw [hor, Option.filter_none, Option.map_none, List.findSome?_cons, hlogic, Option.map_some]

/-- A tree without logical operator at its top. -/
theorem searchLogicalOp_none (h : tree.WellWritten) (hprec : 2 ≤ tree.precedence) :
    searchLogicalOp tree.text = none := by
  have hnone : ∀ logic : EvalLogicalOp, evalStrstrLevel parenthesisMarks false logic.text 0 tree.text = none :=
    fun logic => strstr_none (.logical logic) h fun hop => by
      have hle := hprec.trans (HasOp.precedence_le h hop)
      cases logic <;> exact absurd hle (by decide)
  rw [searchLogicalOp, List.findSome?_cons, hnone, List.findSome?_cons, hnone]
  rfl

/-- The comparisons that are searched before another are not in its text. -/
theorem comparisons_before (comp : EvalComparison) :
    ∃ l l', evalComparisons = l ++ comp :: l' ∧ ∀ comp' ∈ l, ¬ comp'.text <:+: comp.text := by
  refine ⟨evalComparisons.takeWhile (· ≠ comp), (evalComparisons.dropWhile (· ≠ comp)).tail, ?_⟩
  cases comp <;> decide

theorem searchComparison_cut (comp : EvalComparison) {left right : CondTree} {before after : Nat}
    (h : (operation (.comparison comp) left before after right).WellWritten) :
    searchComparison (operation (.comparison comp) left before after right).text =
      some (comp, comp.text ++ (spaces after ++ right.text)) := by
  obtain ⟨⟨hleft, hright⟩, ⟨hpleft, hpright⟩, hapart⟩ := h
  obtain ⟨l, l', hl, hbefore⟩ := comparisons_before comp
  rw [searchComparison, List.findSome?_eq_some_iff]
  refine ⟨l, comp, l', hl, ?_, fun comp' hcomp' => ?_⟩
  · have hfound := strstr_operation (.comparison comp) hleft (not_hasOp_of_precedence hpleft) hapart
      (spaces after ++ right.text)
    rw [text, show comp.text = (CondOp.comparison comp).text from rfl, hfound, Option.map_some]
  · have hnone : evalStrstrLevel parenthesisMarks false comp'.text 0
        (operation (.comparison comp) left before after right).text = none :=
      strstr_none (.comparison comp') ⟨⟨hleft, hright⟩, ⟨hpleft, hpright⟩, hapart⟩ fun hop => by
        rcases hop with hop | hop | hop
        · exact hbefore comp' hcomp' hop
        · exact not_hasOp_of_precedence hpleft hop
        · exact not_hasOp_of_precedence hpright hop
    rw [hnone, Option.map_none]

theorem searchComparison_none (h : tree.WellWritten) (hprec : 3 ≤ tree.precedence) :
    searchComparison tree.text = none := by
  rw [searchComparison, List.findSome?_eq_none_iff]
  intro comp _
  have hnone := strstr_none (.comparison comp) h (not_hasOp_of_precedence hprec)
  rw [show comp.text = (CondOp.comparison comp).text from rfl, hnone, Option.map_none]

end CondTree

/-! ## The pieces of a text -/

theorem skipSpaces_spaces (count : Nat) (s : Str) : skipSpaces (spaces count ++ s) = skipSpaces s :=
  List.dropWhile_append_of_pos fun c hc => decide_eq_true (spaces_forall count c hc)

theorem rdropWhile_spaces (count : Nat) {s : Str} (h : s.getLast? ≠ some (ch ' ')) :
    (s ++ spaces count).rdropWhile (· = ch ' ') = s := by
  induction count with
  | zero =>
    rw [spaces, List.replicate_zero, List.append_nil]
    exact rdropWhile_space h
  | succ count ih =>
    rw [spaces, List.replicate_succ', ← List.append_assoc, List.rdropWhile_concat_pos _ _ _ (by decide)]
    exact ih

/-- A text that begins with no space. -/
theorem skipSpaces_trimmed {s : Str} (h : CondTree.Trimmed s) (rest : Str) : skipSpaces (s ++ rest) = s ++ rest := by
  obtain ⟨c, s, rfl⟩ := List.exists_cons_of_ne_nil h.ne_nil
  exact List.dropWhile_cons_of_neg fun hc => h.head (congrArg some (of_decide_eq_true hc))

/-- The text between spaces. -/
theorem trim_spaces {s : Str} (h : CondTree.Trimmed s) (before after : Nat) :
    (skipSpaces (spaces before ++ (s ++ spaces after))).rdropWhile (· = ch ' ') = s := by
  rw [skipSpaces_spaces, skipSpaces_trimmed h, rdropWhile_spaces after h.last]

/-- The operands of an operator. -/
theorem subExpr_operands {left right : Str} (hleft : CondTree.Trimmed left) (hright : CondTree.Trimmed right)
    (op : Str) (before after : Nat) :
    subExprBefore (left ++ (spaces before ++ (op ++ (spaces after ++ right)))) (op ++ (spaces after ++ right)) = left ∧
      skipSpaces ((op ++ (spaces after ++ right)).drop op.length) = right := by
  constructor
  · rw [subExprBefore, ← List.append_assoc, strndup, take_off_append, rdropWhile_spaces before hleft.last]
  · have hskip := skipSpaces_trimmed hright []
    rw [List.append_nil] at hskip
    rw [List.drop_left, skipSpaces_spaces, hskip]

/-- A text without parentheses, in the search of the parenthesis that closes. -/
theorem splitParenthesis_append {u : Str} (hu : ∀ c ∈ u, c ≠ ch '(' ∧ c ≠ ch ')') (level : Nat) (rest : Str) :
    splitParenthesis level (u ++ rest) =
      (splitParenthesis level rest).map fun split => (u ++ split.1, split.2) := by
  induction u with
  | nil => exact Option.map_id'.symm
  | cons c u ih =>
    rw [List.forall_mem_cons] at hu
    rw [List.cons_append, splitParenthesis, decide_eq_false hu.1.2, Bool.false_and, if_neg Bool.false_ne_true]
    dsimp only
    rw [if_neg hu.1.1, if_neg hu.1.2, ih hu.2, Option.map_map]
    rfl

theorem splitParenthesis_spaces (count level : Nat) (rest : Str) :
    splitParenthesis level (spaces count ++ rest) =
      (splitParenthesis level rest).map fun split => (spaces count ++ split.1, split.2) :=
  splitParenthesis_append (fun c hc => by rw [spaces_forall count c hc]; decide) level rest

theorem splitParenthesis_open (level : Nat) (s : Str) :
    splitParenthesis level (ch '(' :: s) =
      (splitParenthesis (level + 1) s).map fun split => (ch '(' :: split.1, split.2) := rfl

theorem splitParenthesis_close (level : Nat) (s : Str) :
    splitParenthesis (level + 1) (ch ')' :: s) =
      (splitParenthesis level s).map fun split => (ch ')' :: split.1, split.2) := rfl

namespace CondTree

variable {tree : CondTree}

/-- A tree, in the search of the parenthesis that closes. -/
theorem splitParenthesis_tree (h : tree.WellWritten) (level : Nat) (rest : Str) :
    splitParenthesis level (tree.text ++ rest) =
      (splitParenthesis level rest).map fun split => (tree.text ++ split.1, split.2) := by
  induction tree generalizing level rest with
  | word w => exact splitParenthesis_append (fun c hc => (h.chars c hc).2) level rest
  | parentheses before tree after ih =>
    simp only [text, List.cons_append, List.append_assoc, List.nil_append]
    rw [splitParenthesis_open, splitParenthesis_spaces, ih h, splitParenthesis_spaces, splitParenthesis_close]
    simp only [Option.map_map]
    rfl
  | operation op left before after right ihleft ihright =>
    simp only [text, List.append_assoc]
    rw [ihleft h.1.1, splitParenthesis_spaces, splitParenthesis_append op.not_parenthesis, splitParenthesis_spaces,
      ihright h.1.2]
    simp only [Option.map_map]
    rfl

/-! ### No variables -/

/-- A character that is in no variable. -/
def IsSeparator (c : Byte) : Prop := c = ch ' ' ∨ c = ch '(' ∨ c = ch ')' ∨ isOperatorChar c = true

theorem IsSeparator.ne {c : Byte} (h : IsSeparator c) : c ≠ ch '$' ∧ c ≠ ch '\x7b' ∧ c ≠ ch '\\' := by
  refine ⟨?_, ?_, ?_⟩ <;> rintro rfl <;> exact absurd h (by unfold IsSeparator; decide)

theorem noDefaultMarks_separators {s : Str} (hs : ∀ c ∈ s, IsSeparator c) : NoDefaultMarks s := by
  refine List.isChain_iff_forall_rel_of_append_cons_cons.mpr fun c d u v heq => ?_
  have hc := (hs c (by rw [heq]; simp)).ne
  exact ⟨fun h => hc.1 h.1, fun h => hc.2.2 h.1⟩

/-- Texts that are put together where there is a separator. -/
theorem noDefaultMarks_append {s t : Str} (hs : NoDefaultMarks s) (ht : NoDefaultMarks t)
    (hsep : (∀ c ∈ s, IsSeparator c) ∨ ∀ c ∈ t.head?, IsSeparator c) : NoDefaultMarks (s ++ t) := by
  refine hs.append ht fun c hc d hd => ?_
  rcases hsep with hsep | hsep
  · have hne := (hsep c (List.mem_of_getLast? hc)).ne
    exact ⟨fun h => hne.1 h.1, fun h => hne.2.2 h.1⟩
  · have hne := (hsep d hd).ne
    exact ⟨fun h => hne.2.1 h.2, fun h => hne.1 h.2⟩

theorem WellWritten.noDefaultMarks (h : tree.WellWritten) : NoDefaultMarks tree.text := by
  have hspaces : ∀ count, ∀ c ∈ spaces count, IsSeparator c := fun count c hc => .inl (spaces_forall count c hc)
  have hsingle : ∀ {c}, IsSeparator c → ∀ d ∈ [c], IsSeparator d := fun hc d hd => by rwa [List.mem_singleton.mp hd]
  induction tree with
  | word w => exact noDefaultMarks_of_notInfix h.reference h.escape
  | parentheses before tree after ih =>
    rw [text, ← List.singleton_append]
    have hopen := hsingle (.inr (.inl rfl) : IsSeparator (ch '('))
    have hclose := hsingle (.inr (.inr (.inl rfl)) : IsSeparator (ch ')'))
    have hend : ∀ c ∈ spaces after ++ [ch ')'], IsSeparator c := fun c hc =>
      (List.mem_append.mp hc).elim (hspaces after c) (hclose c)
    refine noDefaultMarks_append (noDefaultMarks_separators hopen) ?_ (.inl hopen)
    refine noDefaultMarks_append (noDefaultMarks_separators (hspaces before)) ?_ (.inl (hspaces before))
    refine noDefaultMarks_append (ih h) (noDefaultMarks_separators hend) (.inr fun c hc => ?_)
    exact hend c (List.mem_of_mem_head? hc)
  | operation op left before after right ihleft ihright =>
    have hop : ∀ c ∈ op.text, IsSeparator c := fun c hc => .inr (.inr (.inr (op.isOperatorText.chars c hc)))
    have hmiddle : NoDefaultMarks (spaces before ++ (op.text ++ (spaces after ++ right.text))) := by
      refine noDefaultMarks_append (noDefaultMarks_separators (hspaces before)) ?_ (.inl (hspaces before))
      refine noDefaultMarks_append (noDefaultMarks_separators hop) ?_ (.inl hop)
      exact noDefaultMarks_append (noDefaultMarks_separators (hspaces after)) (ihright h.1.2) (.inl (hspaces after))
    refine noDefaultMarks_append (ihleft h.1.1) hmiddle (.inr fun c hc => ?_)
    obtain ⟨d, s, hd⟩ := List.exists_cons_of_ne_nil op.isOperatorText.ne_nil
    cases before with
    | zero =>
      rw [hd] at hc
      cases hc
      exact hop c (hd.symm ▸ List.mem_cons_self ..)
    | succ before =>
      cases hc
      exact .inl rfl

/-! ### The evaluation -/

section

variable {library : EvalLibrary} {replaceVars : Str → Except EvalStop Str}

theorem size_pos (tree : CondTree) : 0 < tree.size := by
  cases tree with
  | word w => exact Nat.one_pos
  | parentheses before tree after => exact Nat.succ_pos _
  | operation op left before after right => exact Nat.succ_pos _

/-- The parenthesis after a tree. -/
theorem splitParenthesis_parentheses (h : tree.WellWritten) (before after : Nat) :
    splitParenthesis 0 (spaces before ++ (tree.text ++ (spaces after ++ [ch ')']))) =
      some (spaces before ++ (tree.text ++ spaces after), []) := by
  rw [splitParenthesis_spaces, splitParenthesis_tree h, splitParenthesis_spaces,
    show splitParenthesis 0 [ch ')'] = some ([], []) from rfl]
  simp only [Option.map_some, List.append_nil]

/-- A tree evaluates to its value, with spaces around it. -/
theorem evalCondition_tree (hreplace : ∀ tree : CondTree, tree.WellWritten → replaceVars tree.text = .ok tree.text)
    {rounds : Nat} (h : tree.WellWritten) (hrounds : tree.size < rounds) (before after : Nat) :
    evalExpressionCondition library replaceVars rounds (spaces before ++ (tree.text ++ spaces after)) =
      .ok (some (tree.value library EvalComparison.isRegex)) := by
  induction rounds generalizing tree before after with
  | zero => exact absurd hrounds (Nat.not_lt_zero _)
  | succ rounds ih =>
    have htree : ∀ {tree : CondTree}, tree.WellWritten → tree.size < rounds →
        evalExpressionCondition library replaceVars rounds tree.text =
          .ok (some (tree.value library EvalComparison.isRegex)) := fun h hrounds => by
      have hih := ih h hrounds 0 0
      rwa [spaces, List.replicate_zero, List.nil_append, List.append_nil] at hih
    rw [evalExpressionCondition, trim_spaces h.trimmed, if_neg h.trimmed.ne_nil]
    have hpos := tree.size_pos
    obtain ⟨rounds, rfl⟩ : ∃ n, rounds = n + 1 := ⟨rounds - 1, by omega⟩
    cases tree with
    | word w =>
      have hhead : w.head? ≠ some (ch '(') := fun hhead => (h.chars _ (List.mem_of_mem_head? hhead)).2.1 rfl
      rw [searchLogicalOp_none h (Nat.le_succ 2), searchComparison_none h (Nat.le_refl 3)]
      dsimp only
      rw [evalParentheses, text, if_neg hhead, show replaceVars w = .ok w from hreplace (word w) h]
      rfl
    | parentheses before tree after =>
      have hinner : tree.WellWritten := h
      rw [searchLogicalOp_none h (Nat.le_succ 2), searchComparison_none h (Nat.le_refl 3)]
      dsimp only
      rw [evalParentheses, text, if_pos List.head?_cons, List.tail_cons, splitParenthesis_parentheses hinner]
      dsimp only
      rw [ih hinner (Nat.lt_of_succ_lt_succ hrounds) before after]
      rfl
    | operation op left before after right =>
      rcases op with logic | comp
      · obtain ⟨left', before', after', right', hcut⟩ :=
          @exists_cut _ library EvalComparison.isRegex logic h rfl
        obtain ⟨hsubleft, hsubright⟩ := subExpr_operands hcut.leftWritten.trimmed hcut.rightWritten.trimmed logic.text
          before' after'
        have hsize := hcut.size_lt
        have hvalue : (operation (.logical logic) left before after right).value library EvalComparison.isRegex =
            evalStr (logic.apply (left'.isTrue library EvalComparison.isRegex)
              (right'.isTrue library EvalComparison.isRegex)) := by
          rw [← hcut.isTrue_eq, isTrue_logical]
          rfl
        rw [searchLogicalOp_cut h rfl hcut, hvalue, hcut.text_eq]
        dsimp only
        rw [hsubleft, hsubright, htree hcut.leftWritten (by omega), htree hcut.rightWritten (by omega),
          ok_bind, ok_bind]
        change (if (left'.isTrue library EvalComparison.isRegex = false ∧ logic = .and) ∨
            (left'.isTrue library EvalComparison.isRegex = true ∧ logic = .or) then
          Except.ok (some (evalStr (left'.isTrue library EvalComparison.isRegex)))
          else Except.ok (some (evalStr (right'.isTrue library EvalComparison.isRegex)))) = _
        cases logic with
        | or => cases left'.isTrue library EvalComparison.isRegex <;> rfl
        | and => cases left'.isTrue library EvalComparison.isRegex <;> rfl
      · obtain ⟨⟨hleft, hright⟩, -, -⟩ := id h
        obtain ⟨hsubleft, hsubright⟩ := subExpr_operands hleft.trimmed hright.trimmed comp.text before after
        rw [searchLogicalOp_none h (Nat.le_refl 2), searchComparison_cut comp h]
        dsimp only
        rw [text, show (CondOp.comparison comp).text = comp.text from rfl, hsubleft, hsubright, value]
        simp only [size] at hrounds
        cases hregex : comp.isRegex with
        | true =>
          rw [if_pos rfl, if_pos rfl, hreplace left hleft, hreplace right hright]
          rfl
        | false =>
          rw [if_neg Bool.false_ne_true, if_neg Bool.false_ne_true, htree hleft (by omega), htree hright (by omega)]
          rfl

end

end CondTree

open CondTree

/-- With the default prefix and suffix, a condition without variables evaluates to the
truth of its tree; the operands of `=~` and `!~` are compared as they are written. -/
theorem evalExpression_condition (context : EvalContext) (hmarks : context.marks = evalDefaultMarks) (tree : CondTree)
    (h : tree.WellWritten) (before after : Nat) (extraVars : ExtraVars) :
    ∃ needed, ∀ rounds, needed ≤ rounds →
      evalExpression context rounds extraVars true (spaces before ++ (tree.text ++ spaces after)) =
        .ok (evalStr (tree.isTrue context.library EvalComparison.isRegex)) := by
  refine ⟨tree.size + 1, fun rounds hrounds => ?_⟩
  have hreplace : ∀ tree : CondTree, tree.WellWritten →
      evalReplaceVars context rounds evalDepthMax extraVars tree.text = .ok tree.text := fun tree h =>
    replaceVars_noMarks hmarks rounds 30 extraVars h.noDefaultMarks
  rw [evalExpression, if_pos rfl, evalCondition_tree hreplace h hrounds]
  rfl

/-- The words without operators, from the lists of operators. -/
theorem isPlainWord_of {w : Str} (hne : w ≠ []) (hchars : ∀ c ∈ w, c ≠ ch ' ' ∧ c ≠ ch '(' ∧ c ≠ ch ')')
    (hlogical : ∀ logic ∈ [EvalLogicalOp.or, .and], ¬ logic.text <:+: w)
    (hcomparison : ∀ comp ∈ evalComparisons, ¬ comp.text <:+: w) (hreference : ¬ lit "$\x7b" <:+: w) :
    IsPlainWord w where
  ne_nil := hne
  chars := hchars
  operator op := by
    cases op with
    | logical logic => exact hlogical logic (by cases logic <;> decide)
    | comparison comp => exact hcomparison comp (by cases comp <;> decide)
  reference := hreference

/-- Integers as numbers, and regular expressions made of characters and groups. -/
def plainLibrary : EvalLibrary where
  regexMatches string regex := some (strstr string (regex.filter fun c => c ≠ ch '(' ∧ c ≠ ch ')')).isSome
  Double := Int
  strtod s := if s ≠ [] ∧ (strtol s).2 = [] then some (strtol s).1 else none
  lt value1 value2 := value1 < value2

def plainContext : EvalContext := ⟨plainLibrary, evalDefaultMarks, false, fun _ => []⟩

/-- `(1 < 2)&&a==b`. -/
def plainTree : CondTree :=
  operation (.logical .and)
    (parentheses 0 (operation (.comparison .less) (word (lit "1")) 1 1 (word (lit "2"))) 0) 0 0
    (operation (.comparison .equal) (word (lit "a")) 0 0 (word (lit "b")))

set_option maxRecDepth 10000 in
theorem evalExpression_condition_plain :
    ∃ needed, ∀ rounds, needed ≤ rounds →
      evalExpression plainContext rounds (fun _ => none) true (spaces 1 ++ (plainTree.text ++ spaces 0)) =
        .ok (evalStr (plainTree.isTrue plainLibrary EvalComparison.isRegex)) := by
  have hword : ∀ w ∈ [lit "1", lit "2", lit "a", lit "b"], IsCondWord w := fun w hw => by
    simp only [List.mem_cons, List.not_mem_nil, or_false] at hw
    rcases hw with rfl | rfl | rfl | rfl
    all_goals exact ⟨isPlainWord_of (by decide) (by decide) (by decide) (by decide) (by decide), by decide⟩
  exact evalExpression_condition plainContext rfl plainTree
    ⟨⟨⟨⟨hword _ (by decide), hword _ (by decide)⟩, ⟨by decide, by decide⟩, ⟨by decide, by decide⟩⟩,
      ⟨hword _ (by decide), hword _ (by decide)⟩, ⟨by decide, by decide⟩, ⟨by decide, by decide⟩⟩,
      ⟨by decide, by decide⟩, ⟨by decide, by decide⟩⟩ 1 0 fun _ => none

/-- `(1 == 2) =~ (1)`. -/
def regexTree : CondTree :=
  operation (.comparison .regexMatching)
    (parentheses 0 (operation (.comparison .equal) (word (lit "1")) 1 1 (word (lit "2"))) 0) 1 1
    (parentheses 0 (word (lit "1")) 0)

/-- The operands of `=~` are not evaluated, `\$` is read as `$`, and an operator is found
earlier in `0&&&b`, where it stands next to a word that ends with one of its characters. -/
theorem evalExpression_condition_fails :
    (evalExpression plainContext 10 (fun _ => none) true regexTree.text = .ok (lit "1") ∧
      regexTree.isTrue plainLibrary (fun _ => false) = false) ∧
    (IsPlainWord (lit "\\$") ∧
      evalExpression plainContext 10 (fun _ => none) true
          (operation (.comparison .equal) (word (lit "\\$")) 1 1 (word (lit "$"))).text = .ok (lit "1") ∧
        (operation (.comparison .equal) (word (lit "\\$")) 1 1 (word (lit "$"))).isTrue plainLibrary (fun _ => false) =
          false) ∧
    (IsPlainWord (lit "0&") ∧
      evalExpression plainContext 10 (fun _ => none) true
          (operation (.logical .and) (word (lit "0&")) 0 0 (word (lit "b"))).text = .ok (lit "0") ∧
        (operation (.logical .and) (word (lit "0&")) 0 0 (word (lit "b"))).isTrue plainLibrary (fun _ => false) =
          true) := by
  refine ⟨⟨by decide +kernel, by decide⟩, ⟨?_, by decide +kernel, by decide⟩,
    ⟨?_, by decide +kernel, by decide⟩⟩
  · exact isPlainWord_of (by decide) (by decide) (by decide) (by decide) (by decide)
  · exact isPlainWord_of (by decide) (by decide) (by decide) (by decide) (by decide)

end Wirc

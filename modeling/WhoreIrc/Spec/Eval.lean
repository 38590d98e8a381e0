import Mathlib.Data.List.Chain
import WhoreIrc.Impl.Eval

/-!
# What a condition means

A condition is a tree of words, comparisons and logical operators, with the
parentheses and the spaces that are written.
-/

namespace Wirc

/-! ## Trees -/

inductive CondOp
  | logical (logic : EvalLogicalOp)
  | comparison (comp : EvalComparison)
  deriving DecidableEq

def CondOp.text : CondOp → Str
  | .logical logic => logic.text
  | .comparison comp => comp.text

/-- `||` before `&&` before comparisons: the last bind tightest. -/
def CondOp.precedence : CondOp → Nat
  | .logical .or => 0
  | .logical .and => 1
  | .comparison _ => 2

/-- The least precedence of an operand: there is no comparison of comparisons. -/
def CondOp.operandPrecedence : CondOp → Nat
  | .logical logic => (CondOp.logical logic).precedence
  | .comparison _ => 3

/-- A condition with the numbers of spaces before and after what is written in it. -/
inductive CondTree
  | word (w : Str)
  | parentheses (before : Nat) (tree : CondTree) (after : Nat)
  | operation (op : CondOp) (left : CondTree) (before after : Nat) (right : CondTree)

def spaces (count : Nat) : Str := List.replicate count (ch ' ')

namespace CondTree

def text : CondTree → Str
  | word w => w
  | parentheses before tree after => ch '(' :: (spaces before ++ (tree.text ++ (spaces after ++ [ch ')'])))
  | operation op left before after right =>
    left.text ++ (spaces before ++ (op.text ++ (spaces after ++ right.text)))

def precedence : CondTree → Nat
  | word _ => 3
  | parentheses _ _ _ => 3
  | operation op _ _ _ _ => op.precedence

end CondTree

/-! ## What is written -/

def isOperatorChar (c : Byte) : Bool := c ∈ lit "|&=!~*<>"

/-- A word without spaces, parentheses, operators and variables. -/
structure IsPlainWord (w : Str) : Prop where
  ne_nil : w ≠ []
  chars : ∀ c ∈ w, c ≠ ch ' ' ∧ c ≠ ch '(' ∧ c ≠ ch ')'
  operator : ∀ op : CondOp, ¬ op.text <:+: w
  reference : ¬ lit "$\x7b" <:+: w

/-- A word without escaped variables. -/
structure IsCondWord (w : Str) : Prop extends IsPlainWord w where
  escape : ¬ lit "\\$" <:+: w

/-- No other operator can be read where an operator stands next to its operands. -/
structure OperatorApart (left : Str) (before after : Nat) (right : Str) : Prop where
  left : before = 0 → ∀ c ∈ left.getLast?, isOperatorChar c = false
  right : after = 0 → ∀ c ∈ right.head?, isOperatorChar c = false

/-- Operands are in parentheses where the precedence asks for it. -/
def CondTree.WellWritten : CondTree → Prop
  | word w => IsCondWord w
  | parentheses _ tree _ => tree.WellWritten
  | operation op left before after right =>
    (left.WellWritten ∧ right.WellWritten) ∧
      (op.operandPrecedence ≤ left.precedence ∧ op.operandPrecedence ≤ right.precedence) ∧
        OperatorApart left.text before after right.text

/-! ## The meaning -/

def EvalLogicalOp.apply : EvalLogicalOp → Bool → Bool → Bool
  | .or, a, b => a || b
  | .and, a, b => a && b

/-- The value of a condition. The operands of a comparison are its values, or what is
written. -/
def CondTree.value (library : EvalLibrary) (asWritten : EvalComparison → Bool) : CondTree → Str
  | word w => w
  | parentheses _ tree _ => tree.value library asWritten
  | operation (.logical logic) left _ _ right =>
    evalStr (logic.apply (evalIsTrue (some (left.value library asWritten)))
      (evalIsTrue (some (right.value library asWritten))))
  | operation (.comparison comp) left _ _ right =>
    if asWritten comp then evalStr (evalCompareRc library left.text comp right.text)
    else evalStr (evalCompareRc library (left.value library asWritten) comp (right.value library asWritten))

def CondTree.isTrue (library : EvalLibrary) (asWritten : EvalComparison → Bool) (tree : CondTree) : Bool :=
  evalIsTrue (some (tree.value library asWritten))

/-! ## Variables in a condition -/

/-- No `${` and no `\$`. -/
def NoDefaultMarks (s : Str) : Prop :=
  s.IsChain fun c d => ¬ (c = ch '$' ∧ d = ch '\x7b') ∧ ¬ (c = ch '\\' ∧ d = ch '$')

/-- A character of a condition, or a reference to a variable. -/
inductive CondPart
  | char (c : Byte)
  | reference (name : Str)
  deriving DecidableEq

/-- The text of parts, with a text for each reference. -/
def renderParts (f : Str → Str) : List CondPart → Str
  | [] => []
  | .char c :: parts => c :: renderParts f parts
  | .reference name :: parts => f name ++ renderParts f parts

def referenceText (name : Str) : Str := lit "$\x7b" ++ (name ++ lit "\x7d")

/-- No parenthesis and no operator. -/
structure NoSyntax (s : Str) : Prop where
  parentheses : ∀ c ∈ s, c ≠ ch '(' ∧ c ≠ ch ')'
  operator : ∀ op : CondOp, ¬ op.text <:+: s

/-- A text that is not read as syntax wherever it is put in a condition. -/
structure IsCondData (value : Str) : Prop extends NoSyntax value where
  ne_nil : value ≠ []
  head : ∀ c ∈ value.head?, c ≠ ch ' ' ∧ isOperatorChar c = false
  last : ∀ c ∈ value.getLast?, c ≠ ch ' ' ∧ isOperatorChar c = false

/-- Parts that follow each other without another reference or an escaped one. -/
def PartsApart : CondPart → CondPart → Prop
  | .char c, .char d => ¬ (c = ch '$' ∧ d = ch '\x7b') ∧ ¬ (c = ch '\\' ∧ d = ch '$')
  | .char c, .reference _ => c ≠ ch '\\'
  | .reference _, _ => True

section

variable (context : EvalContext) (extraVars : ExtraVars)

def EvalContext.valueOf (name : Str) : Str := (extraVars name).getD (context.otherVar name)

/-- A name of a variable, in a reference that has no other in it. -/
structure IsReferenceName (name : Str) : Prop extends NoSyntax name where
  marks : NoDefaultMarks name
  closing : ch '\x7d' ∉ name
  found : extraVars name ≠ none ∨ startsWith name (lit "eval:") = false ∧ startsWith name (lit "if:") = false

/-- The values of the variables are not read as syntax. -/
structure DataParts (parts : List CondPart) : Prop where
  apart : parts.IsChain PartsApart
  name : ∀ name, .reference name ∈ parts → IsReferenceName extraVars name
  value : ∀ name, .reference name ∈ parts → IsCondData (context.valueOf extraVars name)
  marks : NoDefaultMarks (renderParts (context.valueOf extraVars) parts)

end

/-!
## Levels of a text

A text is read from left to right. At each position stands a prefix, a suffix,
what is searched, or a byte: the prefixes and suffixes make the level.
-/

/-- What stands at a position. -/
inductive LevelToken
  | char
  | pfx
  | sfx
  | found
  deriving DecidableEq

/-- A position that is read: the byte before it, the level, the string from there on, and what stands there. -/
structure LevelRound where
  previous : Byte
  level : Nat
  string : Str
  token : LevelToken
  deriving DecidableEq

section

variable (marks : ReplaceMarks)

/-- The positions of a string that are read, when `token` says what stands there. -/
def levelRounds (token : Byte → Nat → Str → LevelToken) (previous : Byte) (level : Nat) (string : Str) :
    List LevelRound :=
  match string with
  | [] => []
  | c :: s =>
    ⟨previous, level, c :: s, token previous level (c :: s)⟩ ::
      match token previous level (c :: s) with
      | .char => levelRounds token c level s
      | .pfx =>
        levelRounds token (marks.pfx.getLast marks.pfx_ne_nil) (level + 1) ((c :: s).drop marks.pfx.length)
      | .sfx =>
        levelRounds token (marks.sfx.getLast marks.sfx_ne_nil) (level - 1) ((c :: s).drop marks.sfx.length)
      | .found => []
termination_by string.length
decreasing_by
  · exact Nat.lt_succ_self _
  · have := List.length_pos_of_ne_nil marks.pfx_ne_nil
    rw [List.length_drop, List.length_cons]
    omega
  · have := List.length_pos_of_ne_nil marks.sfx_ne_nil
    rw [List.length_drop, List.length_cons]
    omega

/-- Where the search ends. -/
def levelFound (rounds : List LevelRound) : Option Str := (rounds.find? (·.token = .found)).map (·.string)

/-- A prefix counts when there is no backslash before it. -/
def unescapedToken (search : Str) (previous : Byte) (level : Nat) (string : Str) : LevelToken :=
  if previous ≠ ch '\\' && startsWith string marks.pfx then .pfx
  else if startsWith string marks.sfx then .sfx
  else if level = 0 && startsWith string search then .found
  else .char

/-- The positions of a string that are read, up to the first occurrence of `search` at level 0. -/
def unescapedRounds (search string : Str) : List LevelRound := levelRounds marks (unescapedToken marks search) 0 0 string

end

end Wirc

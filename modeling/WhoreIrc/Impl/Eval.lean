import Mathlib.Data.List.DropRight
import Mathlib.Logic.Function.Basic
import WhoreIrc.Impl.StringMatch
import WhoreIrc.Impl.StringReplace

/-!
# Evaluation of expressions (`core/wee-eval.c`)

The evaluation of a condition and the replacement of variables call each other.
The replacement is bounded by `EVAL_RECURSION_MAX`; the evaluation of a condition
and its loop on parentheses are bounded here by a number of rounds, and have no
result if it is too small. Regular expressions, `strtod`, and the variables that
are read in other parts of the program are parameters.
-/

namespace Wirc

/-! ## Operators -/

inductive EvalLogicalOp
  | or
  | and
  deriving DecidableEq

/-- `logical_ops`. -/
def EvalLogicalOp.text : EvalLogicalOp → Str
  | .or => lit "||"
  | .and => lit "&&"

inductive EvalComparison
  | regexMatching
  | regexNotMatching
  | stringMatching
  | stringNotMatching
  | equal
  | notEqual
  | lessEqual
  | less
  | greaterEqual
  | greater
  deriving DecidableEq

/-- `comparisons`. -/
def EvalComparison.text : EvalComparison → Str
  | .regexMatching => lit "=~"
  | .regexNotMatching => lit "!~"
  | .stringMatching => lit "=*"
  | .stringNotMatching => lit "!*"
  | .equal => lit "=="
  | .notEqual => lit "!="
  | .lessEqual => lit "<="
  | .less => lit "<"
  | .greaterEqual => lit ">="
  | .greater => lit ">"

def evalComparisons : List EvalComparison :=
  [.regexMatching, .regexNotMatching, .stringMatching, .stringNotMatching, .equal, .notEqual, .lessEqual, .less,
    .greaterEqual, .greater]

/-- A comparison with a regular expression. -/
def EvalComparison.isRegex : EvalComparison → Bool
  | .regexMatching => true
  | .regexNotMatching => true
  | _ => false

/-- `eval_is_true`. -/
def evalIsTrue : Option Str → Bool
  | some value => value ≠ [] && value ≠ lit "0"
  | none => false

/-- `EVAL_STR_TRUE` and `EVAL_STR_FALSE`. -/
def evalStr (rc : Bool) : Str := if rc then lit "1" else lit "0"

/-- `eval_strstr_level`, from a level on. -/
def evalStrstrLevel (marks : ReplaceMarks) (escape : Bool) (search : Str) (level : Nat) (string : Str) : Option Str :=
  match string with
  | [] => none
  | c :: ptrString =>
    if escape && isEscapedMark marks c ptrString then evalStrstrLevel marks escape search level ptrString
    else if startsWith (c :: ptrString) marks.pfx then
      evalStrstrLevel marks escape search (level + 1) ((c :: ptrString).drop marks.pfx.length)
    else if startsWith (c :: ptrString) marks.sfx then
      evalStrstrLevel marks escape search (level - 1) ((c :: ptrString).drop marks.sfx.length)
    else if level = 0 && startsWith (c :: ptrString) search then some (c :: ptrString)
    else evalStrstrLevel marks escape search level ptrString
termination_by string.length
decreasing_by
  all_goals have hpfx := List.length_pos_of_ne_nil marks.pfx_ne_nil
  all_goals have hsfx := List.length_pos_of_ne_nil marks.sfx_ne_nil
  · exact Nat.lt_succ_self _
  · rw [List.length_drop, List.length_cons]
    omega
  · rw [List.length_drop, List.length_cons]
    omega
  · exact Nat.lt_succ_self _

/-! ## Conditions -/

/-- `string_regcomp` with `regexec`, `none` if the regular expression is not valid,
and `strtod`, `none` if something is left after the number. -/
structure EvalLibrary where
  regexMatches : Str → Str → Option Bool
  Double : Type
  strtod : Str → Option Double
  lt : Double → Double → Bool

/-- Begins and ends with a double quote, or is empty. -/
def isQuoted (expr : Str) : Bool := expr = [] || expr.head? = some (ch '"') && expr.getLast? = some (ch '"')

section

variable (library : EvalLibrary)

/-- The comparison of two expressions as numbers, or else as strings; only the sign counts. -/
def evalCompareValues (expr1 expr2 : Str) : Int :=
  if isQuoted expr1 && isQuoted expr2 then strcmp expr1 expr2
  else
    match library.strtod expr1, library.strtod expr2 with
    | some value1, some value2 => if library.lt value1 value2 then -1 else if library.lt value2 value1 then 1 else 0
    | _, _ => strcmp expr1 expr2

/-- The result of `eval_compare`, for two expressions that are not NULL. -/
def evalCompareRc (expr1 : Str) (comparison : EvalComparison) (expr2 : Str) : Bool :=
  match comparison with
  | .regexMatching => (library.regexMatches expr1 expr2).getD false
  | .regexNotMatching => ((library.regexMatches expr1 expr2).map not).getD false
  | .stringMatching => stringMatch expr1 expr2 false
  | .stringNotMatching => !stringMatch expr1 expr2 false
  | .equal => evalCompareValues library expr1 expr2 = 0
  | .notEqual => evalCompareValues library expr1 expr2 ≠ 0
  | .lessEqual => evalCompareValues library expr1 expr2 ≤ 0
  | .less => evalCompareValues library expr1 expr2 < 0
  | .greaterEqual => evalCompareValues library expr1 expr2 ≥ 0
  | .greater => evalCompareValues library expr1 expr2 > 0

/-- `eval_compare`. -/
def evalCompare (comparison : EvalComparison) : Option Str → Option Str → Str
  | some expr1, some expr2 => evalStr (evalCompareRc library expr1 comparison expr2)
  | _, _ => evalStr false

/-- The prefix and the suffix of sub-expressions. -/
def parenthesisMarks : ReplaceMarks := ⟨lit "(", lit ")", by decide, by decide⟩

/-- The logical operator where an expression is cut; it is not at the beginning. -/
def searchLogicalOp (expr2 : Str) : Option (EvalLogicalOp × Str) :=
  [EvalLogicalOp.or, .and].findSome? fun logic =>
    ((evalStrstrLevel parenthesisMarks false logic.text 0 expr2).filter fun pos => 0 < off expr2 pos).map fun pos =>
      (logic, pos)

/-- The comparison where an expression is cut. -/
def searchComparison (expr2 : Str) : Option (EvalComparison × Str) :=
  evalComparisons.findSome? fun comp =>
    (evalStrstrLevel parenthesisMarks false comp.text 0 expr2).map fun pos => (comp, pos)

/-- What is before a pointer, without spaces at the end. -/
def subExprBefore (expr2 pos : Str) : Str := (strndup expr2 (off expr2 pos)).rdropWhile (· = ch ' ')

/-- The sub-expression that a parenthesis closes, and what is after the parenthesis. -/
def splitParenthesis : (level : Nat) → Str → Option (Str × Str)
  | _, [] => none
  | level, c :: pos =>
    if c = ch ')' && level = 0 then some ([], pos)
    else
      let level := if c = ch '(' then level + 1 else if c = ch ')' then level - 1 else level
      (splitParenthesis level pos).map fun split => (c :: split.1, split.2)

-- `eval_replace_vars`, whose result is never NULL
variable (replaceVars : Str → Except EvalStop Str)

/-- The loop on sub-expressions between parentheses, with their evaluation. -/
def evalParentheses (evaluate : Str → Except EvalStop (Option Str)) :
    (rounds : Nat) → Str → Except EvalStop (Option Str)
  | 0, _ => .error .rounds
  | rounds + 1, expr2 =>
    if expr2.head? = some (ch '(') then
      match splitParenthesis 0 expr2.tail with
      -- closing parenthesis not found
      | none => .ok none
      | some (subExpr, pos) => do
        let value ← evaluate subExpr
        if pos = [] then return value
        else evalParentheses evaluate rounds (value.getD [] ++ ch ' ' :: pos)
    else return some (← replaceVars expr2)

/-- `eval_expression_condition`, `none` for NULL. -/
def evalExpressionCondition : (rounds : Nat) → Str → Except EvalStop (Option Str)
  | 0, _ => .error .rounds
  | rounds + 1, expr =>
    let expr2 := (skipSpaces expr).rdropWhile (· = ch ' ')
    if expr2 = [] then .ok (some [])
    else
      match searchLogicalOp expr2 with
      | some (logic, pos) => do
        let rc := evalIsTrue (← evalExpressionCondition rounds (subExprBefore expr2 pos))
        if (rc = false ∧ logic = .and) ∨ (rc = true ∧ logic = .or) then return some (evalStr rc)
        else
          let rc := evalIsTrue (← evalExpressionCondition rounds (skipSpaces (pos.drop logic.text.length)))
          return some (evalStr rc)
      | none =>
        match searchComparison expr2 with
        | some (comp, pos) => do
          let subExpr := subExprBefore expr2 pos
          let pos := skipSpaces (pos.drop comp.text.length)
          if comp.isRegex then
            -- for regex: just replace vars in both expressions
            return some (evalCompare library comp (some (← replaceVars subExpr)) (some (← replaceVars pos)))
          else
            return some (evalCompare library comp (← evalExpressionCondition rounds subExpr)
              (← evalExpressionCondition rounds pos))
        | none => evalParentheses replaceVars (evalExpressionCondition rounds) rounds expr2

end

/-! ## Variables -/

/-- The table of extra variables. -/
abbrev ExtraVars := Str → Option Str

/-- What does not change during an evaluation. -/
structure EvalContext where
  library : EvalLibrary
  marks : ReplaceMarks
  extraVarsEval : Bool
  /-- The value of all that is no extra variable, `eval:` or `if:`. -/
  otherVar : Str → Str

/-- `EVAL_DEFAULT_PREFIX` and `EVAL_DEFAULT_SUFFIX`. -/
def evalDefaultMarks : ReplaceMarks := ⟨lit "$\x7b", lit "\x7d", by decide, by decide⟩

section

variable (context : EvalContext)

/-- The value of `if:`, with the functions that it calls. -/
def evalIf (replaceVars : Str → Except EvalStop Str) (evaluate : Str → Except EvalStop (Option Str)) (text : Str) :
    Except EvalStop Str := do
  let pos := evalStrstrLevel context.marks true (lit "?") 0 text
  let pos2 := pos.bind fun pos => evalStrstrLevel context.marks true (lit ":") 0 pos.tail
  let condition := (pos.map fun pos => strndup text (off text pos)).getD text
  if evalIsTrue (← evaluate (← replaceVars condition)) then
    match pos with
    | some pos => replaceVars ((pos2.map fun pos2 => strndup pos.tail (off pos.tail pos2)).getD pos.tail)
    | none => return evalStr true
  else
    match pos2 with
    | some pos2 => replaceVars pos2.tail
    | none => return if pos = none then evalStr false else []

/-- `eval_replace_vars_cb`, with `eval_replace_vars` and `eval_expression_condition`. -/
def evalReplaceVarsCb (replaceVars : ExtraVars → Str → Except EvalStop Str)
    (evaluate : ExtraVars → Str → Except EvalStop (Option Str)) (extraVars : ExtraVars) (text : Str) :
    Except EvalStop Str :=
  match extraVars text with
  | some value =>
    -- the variable is removed, and set again after the evaluation
    if context.extraVarsEval then replaceVars (Function.update extraVars text none) value else .ok value
  | none =>
    if startsWith text (lit "eval:") then replaceVars extraVars (text.drop 5)
    else if startsWith text (lit "if:") then evalIf context (replaceVars extraVars) (evaluate extraVars) (text.drop 3)
    else .ok (context.otherVar text)

/-- `eval_replace_vars`, with `EVAL_RECURSION_MAX - 1 - recursion_count`. -/
def evalReplaceVars (rounds : Nat) : (depth : Nat) → ExtraVars → Str → Except EvalStop Str
  | 0, _, _ => .ok []
  | depth + 1, extraVars, expr => do
    let evaluate := fun extraVars => evalExpressionCondition context.library (evalReplaceVars rounds depth extraVars) rounds
    let callback := fun text => some <$> evalReplaceVarsCb context (evalReplaceVars rounds depth) evaluate extraVars text
    return (← stringReplaceWithCallback context.marks [lit "if:"] callback expr).1

/-- `EVAL_RECURSION_MAX - 1`. -/
def evalDepthMax : Nat := 31

/-- `eval_expression`, for a condition or not. -/
def evalExpression (rounds : Nat) (extraVars : ExtraVars) (condition : Bool) (expr : Str) : Except EvalStop Str :=
  let replaceVars := evalReplaceVars context rounds evalDepthMax extraVars
  if condition then do
    return evalStr (evalIsTrue (← evalExpressionCondition context.library replaceVars rounds expr))
  else replaceVars expr

end

end Wirc

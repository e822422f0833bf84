import MetricSql.Expr.Token
import MetricSql.Text.NameSet

namespace MetricSql.Expr

open Text

/-- Whether the parenthesis that `depth` counts closes at the very end. -/
def closesAtEnd : (depth : Nat) → List Char → Bool
  | _, [] => false
  | depth, c :: r =>
    if c = '(' then closesAtEnd (depth + 1) r
    else if c = ')' then if depth = 1 then r.isEmpty else closesAtEnd (depth - 1) r
    else closesAtEnd depth r

def isWrapped : List Char → Bool
  | '(' :: r => closesAtEnd 1 r
  | _ => false

def operators : List Char := ['+', '-', '*', '/', '%', '<', '>', '=', '|']

def hasOperator (depth : Int) : List Char → Bool
  | [] => false
  | c :: r =>
    if c = '\'' ∨ c = '"' then hasOperator depth (quotedSpan c r).2
    else if c = '(' then hasOperator (depth + 1) r
    else if c = ')' then hasOperator (depth - 1) r
    else operators.contains c && depth == 0 || hasOperator depth r
termination_by s => s.length
decreasing_by
  · exact Nat.lt_succ_of_le (quotedSpan_length_le _ _)
  all_goals simp

def occurs (word : List Char) : List Char → Bool
  | [] => word.isEmpty
  | c :: r => word.isPrefixOf (c :: r) || occurs word r

def isCompound (s : List Char) : Bool :=
  !isWrapped s && (hasOperator 0 s || occurs " and ".toList (foldCase s) ||
    occurs " or ".toList (foldCase s))

/-- The text put in the place of a reference; `whole` says that nothing else is there. -/
def place (whole : Bool) (s : List Char) : List Char :=
  if !whole && isCompound s then '(' :: (s ++ [')']) else s

def references : List Token → List String
  | [] => []
  | t :: r => (reference? t r).toList ++ references r

def rewriteTokens (sub : String → Option String) : (blankBefore : Bool) → List Token → List Char
  | _, [] => []
  | blankBefore, t :: r =>
    (match (reference? t r).bind sub with
      | some s => place (blankBefore && r.all Token.isBlank) (trim s.toList)
      | none => t.text) ++
    rewriteTokens sub (blankBefore && t.isBlank) r

def columnRefs (expr : String) : NameSet := .ofList (references (scan expr.toList))

def rewrite (sub : String → Option String) (expr : String) : String :=
  .ofList (rewriteTokens sub true (scan expr.toList))

end MetricSql.Expr

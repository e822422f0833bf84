import MetricSql.Text.Blank
import MetricSql.Text.Case
import MetricSql.Text.Literal

namespace MetricSql.Expr

open Text

/-- The lexical pieces of an expression. Names may be written bare or between backticks. -/
inductive Token
  | literal (text : List Char)
  | quoted (name : List Char) (closed : Bool)
  | number (text : List Char)
  | word (text : List Char)
  | other (c : Char)
  deriving DecidableEq

def backtick : Char := '\x60'

def isWordChar (c : Char) : Bool := c.isAlphanum || c == '_' || c == '.'

def isWordStart (c : Char) : Bool := c.isAlpha || c == '_'

namespace Token

def text : Token → List Char
  | literal t => t
  | quoted n closed => backtick :: (n ++ if closed then [backtick] else [])
  | number t => t
  | word t => t
  | other c => [c]

def name? : Token → Option (List Char)
  | quoted n _ => some n
  | word t => some t
  | _ => none

def isBlank : Token → Bool
  | other c => Text.isBlank c
  | _ => false

end Token

def scan : List Char → List Token
  | [] => []
  | c :: r =>
    if c = '\'' ∨ c = '"' then
      .literal (c :: (quotedSpan c r).1) :: scan (quotedSpan c r).2
    else if c = backtick then
      .quoted (r.takeWhile (· != backtick)) (r.contains backtick)
        :: scan ((r.dropWhile (· != backtick)).drop 1)
    else if c.isDigit then
      .number (c :: r.takeWhile isWordChar) :: scan (r.dropWhile isWordChar)
    else if isWordStart c then
      .word (c :: r.takeWhile isWordChar) :: scan (r.dropWhile isWordChar)
    else .other c :: scan r
termination_by s => s.length
decreasing_by
  · exact Nat.lt_succ_of_le (quotedSpan_length_le _ _)
  · have h := (List.dropWhile_suffix (l := r) (· != backtick)).length_le
    simp only [List.length_drop, List.length_cons]
    omega
  · exact Nat.lt_succ_of_le (List.dropWhile_suffix _).length_le
  · exact Nat.lt_succ_of_le (List.dropWhile_suffix _).length_le
  · simp

/-- Words of the SQL language, in lower case. They name nothing, in any case and in backticks. -/
def keywords : List String :=
  ["and", "or", "not", "in", "is", "null", "case", "when", "then", "else", "end", "distinct",
    "as", "between", "like", "true", "false", "interval", "over", "partition", "by", "asc",
    "desc", "if"]

def isKeyword (name : List Char) : Bool := keywords.contains (String.ofList (foldCase name))

def opensCall : List Token → Bool
  | .other c :: r => if isAsciiBlank c then opensCall r else c == '('
  | _ => false

def reference? (t : Token) (rest : List Token) : Option String :=
  match t.name? with
  | some n => if isKeyword n || opensCall rest then none else some (String.ofList n)
  | none => none

end MetricSql.Expr

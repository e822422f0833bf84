import MetricSql.Json.Printer
import MetricSql.Query.Basic
import MetricSql.Text.Literal

namespace MetricSql

open Text Json

mutual

/-- The SQL literal of a value, or the literals of an array. An object is a literal of its text. -/
def literalText : Value → String
  | .null => "NULL"
  | .bool b => if b then "true" else "false"
  | .number n => .ofList n.chars
  | .string s => literal s
  | .array items => ", ".intercalate (literalTexts items)
  | .object fields => literal (Value.object fields).compact

def literalTexts : List Value → List String
  | [] => []
  | v :: r => literalText v :: literalTexts r

end

def Comparison.text : Comparison → String
  | eq => "="
  | neq => "<>"
  | gt => ">"
  | gte => ">="
  | lt => "<"
  | lte => "<="
  | isIn => "IN"
  | notIn => "NOT IN"
  | like => "LIKE"

namespace Filter

def memberTexts : Value → List String
  | .array items => literalTexts items
  | v => [literalText v]

def text (f : Filter) : String :=
  let start := f.field ++ " " ++ f.op.text ++ " "
  match f.op with
  | .isIn | .notIn => start ++ "(" ++ ", ".intercalate (memberTexts f.value) ++ ")"
  | _ => start ++ literalText f.value

def joinText (fs : List Filter) : String := " AND ".intercalate (fs.map text)

end Filter

end MetricSql

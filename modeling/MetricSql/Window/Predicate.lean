import MetricSql.Text.Literal

namespace MetricSql

open Text

/-- A condition on a date column. Its values are compared as texts. -/
inductive DatePredicate
  | between (column start stop : String)
  | oneOf (column : String) (dates : List String)
  | never
  deriving DecidableEq

namespace DatePredicate

def text : DatePredicate → String
  | between col start stop =>
    col ++ " >= " ++ literal start ++ " and " ++ col ++ " <= " ++ literal stop
  | oneOf col dates => "(" ++ col ++ " in (" ++ ",".intercalate (dates.map literal) ++ "))"
  | never => "1 = 0"

def optionText (p : Option DatePredicate) : String := (p.map text).getD ""

end DatePredicate

end MetricSql

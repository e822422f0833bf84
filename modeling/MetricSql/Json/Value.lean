import MetricSql.Decimal.Shortest

namespace MetricSql.Json

/-- A number. Integers of 64 bits, with or without a sign, are kept as they are; all others are
rounded to binary floating point. -/
inductive Number
  | integer (n : Int)
  | real (negative : Bool) (magnitude : Binary)
  deriving DecidableEq

inductive Value
  | null
  | bool (b : Bool)
  | number (n : Number)
  | string (s : String)
  | array (items : List Value)
  | object (fields : List (String × Value))

namespace Value

def ofNat (n : Nat) : Value := .number (.integer n)

def ofOption : Option String → Value
  | some s => .string s
  | none => .null

def strings (l : List String) : Value := .array (l.map .string)

end Value

end MetricSql.Json

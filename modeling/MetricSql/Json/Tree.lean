namespace MetricSql.Json

structure Lexeme where
  negative : Bool
  whole : List Char
  fraction : List Char
  exponent : Option (Bool × List Char)
  deriving DecidableEq

/-- A JSON text as it is written. Keys keep their order and may repeat, and a string is missing its
value when its escapes leave a surrogate without a partner. -/
inductive Tree
  | null
  | bool (b : Bool)
  | number (l : Lexeme)
  | text (s : Option String)
  | array (items : List Tree)
  | object (fields : List (Option String × Tree))

end MetricSql.Json

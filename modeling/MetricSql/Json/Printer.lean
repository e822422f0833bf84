import MetricSql.Json.Value

namespace MetricSql.Json

def intChars (n : Int) : List Char :=
  if n < 0 then '-' :: Nat.toDigits 10 n.natAbs else Nat.toDigits 10 n.natAbs

def Number.chars : Number → List Char
  | .integer n => intChars n
  | .real negative b => (if negative then ['-'] else []) ++ b.chars {}

def hexDigits (n : Nat) : List Char :=
  let digits := Nat.toDigits 16 n
  List.replicate (4 - digits.length) '0' ++ digits

def escape (c : Char) : List Char :=
  if c = '"' then ['\\', '"']
  else if c = '\\' then ['\\', '\\']
  else if c = '\n' then ['\\', 'n']
  else if c = '\t' then ['\\', 't']
  else if c = '\r' then ['\\', 'r']
  else if c = '\x08' then ['\\', 'b']
  else if c = '\x0c' then ['\\', 'f']
  else if c.toNat < 0x20 then '\\' :: 'u' :: hexDigits c.toNat
  else [c]

def stringChars (s : String) : List Char := '"' :: (s.toList.flatMap escape ++ ['"'])

namespace Value

mutual

def chars : Value → List Char
  | null => "null".toList
  | bool b => if b then "true".toList else "false".toList
  | number n => n.chars
  | string s => stringChars s
  | array items => '[' :: (itemChars items ++ [']'])
  | object fields => '{' :: (fieldChars fields ++ ['}'])

def itemChars : List Value → List Char
  | [] => []
  | [v] => v.chars
  | v :: w :: r => v.chars ++ ',' :: itemChars (w :: r)

def fieldChars : List (String × Value) → List Char
  | [] => []
  | [(k, v)] => stringChars k ++ ':' :: v.chars
  | (k, v) :: f :: r => stringChars k ++ ':' :: (v.chars ++ ',' :: fieldChars (f :: r))

end

def compact (v : Value) : String := .ofList v.chars

end Value

end MetricSql.Json

import MetricSql.Calendar.Date
import MetricSql.Decimal.Binary
import MetricSql.Toml.Table

namespace MetricSql.Toml

/-- Digits, between which single underscores may stand. -/
def digits? (isDigit : Char → Bool) : List Char → Option (List Char)
  | [] => none
  | [c] => if isDigit c then some [c] else none
  | c :: '_' :: r => if isDigit c then (digits? isDigit r).map (c :: ·) else none
  | c :: r => if isDigit c then (digits? isDigit r).map (c :: ·) else none

def splitSign : List Char → Bool × List Char
  | '-' :: r => (true, r)
  | '+' :: r => (false, r)
  | r => (false, r)

/-- The digits of a decimal integer without its sign; none stand behind a leading zero. -/
def decimal? (s : List Char) : Option (List Char) := do
  let digits ← digits? Char.isDigit s
  if digits.head? = some '0' ∧ s.length ≠ 1 then none else some digits

def fits (n : Int) : Bool := -Int.pow 2 63 ≤ n && n < Int.pow 2 63

def digitValue (c : Char) : Nat :=
  if c.isDigit then c.toNat - '0'.toNat else c.toLower.toNat - 'a'.toNat + 10

def isHexDigit (c : Char) : Bool := c.isDigit || ('a' ≤ c && c ≤ 'f') || ('A' ≤ c && c ≤ 'F')

def inBase? (base : Nat) (isDigit : Char → Bool) (s : List Char) : Option Int :=
  (digits? isDigit s).map fun ds => (ds.foldl (fun n c => n * base + digitValue c) 0 : Nat)

def integer? (s : List Char) : Option Value := do
  let n ←
    match s with
    | '0' :: 'x' :: r => inBase? 16 isHexDigit r
    | '0' :: 'o' :: r => inBase? 8 (fun c => '0' ≤ c && c ≤ '7') r
    | '0' :: 'b' :: r => inBase? 2 (fun c => c == '0' || c == '1') r
    | s =>
      let (negative, s) := splitSign s
      (decimal? s).map fun ds =>
        let n : Int := Nat.ofDigitChars 10 ds 0
        if negative then -n else n
  if fits n then some (.integer n) else none

def isHuge (digits : List Char) (exponent : Int) : Bool :=
  let digits := digits.dropWhile (· == '0')
  let size := digits.length + exponent
  if digits.isEmpty ∨ size < 300 then false
  else if 400 < size then true
  else
    let n := Nat.ofDigitChars 10 digits 0
    (Binary.nearest? (n * Nat.pow 10 exponent.toNat) (Nat.pow 10 (-exponent).toNat)).isNone

def splitAtChar (p : Char → Bool) (s : List Char) : List Char × Option (List Char) :=
  match s.dropWhile (!p ·) with
  | [] => (s.takeWhile (!p ·), none)
  | _ :: r => (s.takeWhile (!p ·), some r)

/-- A number with a fraction or an exponent. It may be too large only below zero. -/
def real? (s : List Char) : Option Value := do
  let (negative, s) := splitSign s
  if s = "inf".toList ∨ s = "nan".toList then return .real
  let (mantissa, exponent) := splitAtChar (fun c => c == 'e' || c == 'E') s
  let (whole, fraction) := splitAtChar (· == '.') mantissa
  if exponent.isNone ∧ fraction.isNone then none
  let whole ← decimal? whole
  let fraction ←
    match fraction with
    | some f => digits? Char.isDigit f
    | none => some []
  let exponent ←
    match exponent with
    | some e =>
      let (negative, e) := splitSign e
      (digits? Char.isDigit e).map fun ds =>
        let n : Int := Nat.ofDigitChars 10 ds 0
        if negative then -n else n
    | none => some 0
  if !negative && isHuge (whole ++ fraction) (exponent - fraction.length) then none
  else return .real

def fixed? (k : Nat) (s : List Char) : Option Nat :=
  if s.length = k ∧ s.all Char.isDigit then some (Nat.ofDigitChars 10 s 0) else none

def isDay (s : List Char) : Bool :=
  match s with
  | [a, b, c, d, '-', e, f, '-', g, h] =>
    match fixed? 4 [a, b, c, d], fixed? 2 [e, f], fixed? 2 [g, h] with
    | some y, some m, some d => 1 ≤ m && m ≤ 12 && 1 ≤ d && d ≤ Calendar.daysInMonth y m
    | _, _, _ => false
  | _ => false

def isHourMinute (s : List Char) : Bool :=
  match s with
  | [a, b, ':', c, d] =>
    match fixed? 2 [a, b], fixed? 2 [c, d] with
    | some h, some m => h ≤ 23 && m ≤ 59
    | _, _ => false
  | _ => false

def isTime (s : List Char) : Bool :=
  isHourMinute (s.take 5) &&
    match s.drop 5 with
    | ':' :: a :: b :: r =>
      (match fixed? 2 [a, b] with
        | some n => n ≤ 60
        | none => false) &&
      (match r with
        | [] => true
        | '.' :: f => !f.isEmpty && f.all Char.isDigit
        | _ => false)
    | _ => false

def isOffsetTime (s : List Char) : Bool :=
  match s.reverse with
  | c :: r =>
    if c = 'Z' ∨ c = 'z' then isTime r.reverse
    else
      let (time, offset) := splitAtChar (fun c => c == '+' || c == '-') s
      match offset with
      | some o => isTime time && isHourMinute o
      | none => isTime time
  | [] => false

def dateTime? (s : List Char) : Option Value :=
  if isTime s then some .dateTime
  else if isDay (s.take 10) then
    match s.drop 10 with
    | [] => some .dateTime
    | c :: r => if (c = 'T' ∨ c = 't' ∨ c = ' ') ∧ isOffsetTime r then some .dateTime else none
  else none

def scalar? (s : List Char) : Option Value :=
  if s = "true".toList then some (.bool true)
  else if s = "false".toList then some (.bool false)
  else integer? s <|> real? s <|> dateTime? s

def isScalarChar (c : Char) : Bool :=
  c.isAlphanum || c == '+' || c == '-' || c == '_' || c == '.' || c == ':'

/-- Reads a value without quotes and brackets. One blank may stand between a date and a time. -/
def readScalar (s : List Char) : Option (Value × List Char) := do
  let first := s.takeWhile isScalarChar
  let rest := s.dropWhile isScalarChar
  match rest with
  | ' ' :: d :: r =>
    if isDay first ∧ d.isDigit then
      let second := (d :: r).takeWhile isScalarChar
      let v ← scalar? (first ++ ' ' :: second)
      return (v, (d :: r).dropWhile isScalarChar)
    else return (← scalar? first, rest)
  | _ => return (← scalar? first, rest)

end MetricSql.Toml

import MetricSql.Calendar.Date
import MetricSql.Text.Blank

namespace MetricSql.Date

open Text

def padded (width n : Nat) : List Char := (Nat.toDigits 10 n).leftpad width '0'

/-- Four digits; a year outside 0 to 9999 has its sign, and more digits where needed. -/
def yearText (y : Int) : List Char :=
  if y < 0 then '-' :: padded 4 y.natAbs
  else if y ≤ 9999 then padded 4 y.natAbs
  else '+' :: padded 4 y.natAbs

def chars (d : Date) : List Char :=
  yearText d.year ++ '-' :: (padded 2 d.month ++ '-' :: padded 2 d.day)

def text (d : Date) : String := .ofList d.chars

/-- Reads at most `limit` digits, and at least one. -/
def readDigits (limit : Nat) (s : List Char) : Option (Nat × List Char) :=
  let digits := (s.take limit).takeWhile Char.isDigit
  if digits.isEmpty then none
  else some (Nat.ofDigitChars 10 digits 0, s.drop digits.length)

/-- A year has at most four digits, or a sign and any number of digits. -/
def readYear (s : List Char) : Option (Int × List Char) :=
  match s with
  | '-' :: r => (readDigits r.length r).map fun p => (-(p.1 : Int), p.2)
  | '+' :: r => (readDigits r.length r).map fun p => ((p.1 : Int), p.2)
  | r => (readDigits 4 r).map fun p => ((p.1 : Int), p.2)

def readHyphen : List Char → Option (List Char)
  | '-' :: r => some r
  | _ => none

/-- Reads a year, a month and a day with hyphens between them. Blanks may stand around the text and
in front of each number, and nothing may be left over. -/
def ofChars? (s : List Char) : Option Date := do
  let (year, s) ← readYear (trimStart (trim s))
  let s ← readHyphen s
  let (month, s) ← readDigits 2 (trimStart s)
  let s ← readHyphen s
  let (day, s) ← readDigits 2 (trimStart s)
  if s.isEmpty then make? year month day else none

def ofText? (s : String) : Option Date := ofChars? s.toList

end MetricSql.Date

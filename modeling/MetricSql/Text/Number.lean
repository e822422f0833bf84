import MetricSql.Text.Case

namespace MetricSql.Text

def dropSign : List Char → List Char
  | '+' :: r => r
  | '-' :: r => r
  | r => r

def isExponent : List Char → Bool
  | [] => true
  | c :: r =>
    let digits := dropSign r
    c.toLower == 'e' && !digits.isEmpty && digits.all Char.isDigit

/-- Whether a text is digits, with a point before, behind or among them perhaps, and an exponent
perhaps. -/
def isUnsignedNumber (s : List Char) : Bool :=
  let whole := s.takeWhile Char.isDigit
  match s.dropWhile Char.isDigit with
  | '.' :: r =>
    !(whole.isEmpty && (r.takeWhile Char.isDigit).isEmpty) && isExponent (r.dropWhile Char.isDigit)
  | r => !whole.isEmpty && isExponent r

/-- Words for what is no finite number, in lower case. -/
def numberWords : List String := ["inf", "infinity", "nan"]

def isFloat (s : List Char) : Bool :=
  isUnsignedNumber (dropSign s) || numberWords.contains (.ofList (foldCase (dropSign s)))

end MetricSql.Text

import MetricSql.Json.Tree
import MetricSql.Json.Value

namespace MetricSql.Json

/-- The most digits, up to a limit on the number they make, and those that are left. -/
def absorb (limit acc : Nat) : List Char → Nat × List Char
  | [] => (acc, [])
  | c :: r =>
    let next := acc * 10 + (c.toNat - '0'.toNat)
    if limit < next then (acc, c :: r) else absorb limit next r

namespace Lexeme

def significandLimit : Nat := Nat.pow 2 64 - 1

def exponentLimit : Nat := Nat.pow 2 31 - 1

def isInteger (l : Lexeme) : Bool := l.fraction.isEmpty && l.exponent.isNone

def significand (l : Lexeme) : Nat × Int :=
  let (n, left) := absorb significandLimit 0 l.whole
  let (n, ignored) := absorb significandLimit n l.fraction
  (n, left.length - (l.fraction.length - ignored.length : Nat))

def real? (l : Lexeme) : Option Binary :=
  let (n, e) := l.significand
  match l.exponent with
  | none => Binary.ofDecimal? n e
  | some (negative, digits) =>
    let x := Nat.ofDigitChars 10 digits 0
    if exponentLimit < x then if n = 0 ∨ negative then some ⟨0, 0⟩ else none
    else Binary.ofDecimal? n (if negative then e - x else e + x)

/-- The number a text stands for; there is none when it is too large. Minus zero is no integer. -/
def number? (l : Lexeme) : Option Number :=
  let n := Nat.ofDigitChars 10 l.whole 0
  if l.isInteger && !l.negative && n ≤ significandLimit then some (.integer n)
  else if l.isInteger && l.negative && n ≠ 0 && n ≤ Nat.pow 2 63 then some (.integer (-n))
  else l.real?.map (.real l.negative)

end Lexeme

namespace Value

def insertField (k : String) (v : Value) : List (String × Value) → List (String × Value)
  | [] => [(k, v)]
  | f :: r =>
    if k < f.1 then (k, v) :: f :: r
    else if f.1 < k then f :: insertField k v r
    else (k, v) :: r

mutual

def ofTree? : (depth : Nat) → Tree → Option Value
  | _, .null => some .null
  | _, .bool b => some (.bool b)
  | _, .number l => l.number?.map .number
  | _, .text s => s.map .string
  | 0, .array _ => none
  | 0, .object _ => none
  | depth + 1, .array items => (ofTrees? depth items).map .array
  | depth + 1, .object fields => (ofFields? depth [] fields).map .object

def ofTrees? : (depth : Nat) → List Tree → Option (List Value)
  | _, [] => some []
  | depth, t :: r => do
    let v ← ofTree? depth t
    let vs ← ofTrees? depth r
    return v :: vs

/-- Adds fields, the later ones in the place of earlier ones with their keys. -/
def ofFields? : (depth : Nat) → List (String × Value) → List (Option String × Tree) →
    Option (List (String × Value))
  | _, done, [] => some done
  | _, _, (none, _) :: _ => none
  | depth, done, (some k, t) :: r => do
    let v ← ofTree? depth t
    ofFields? depth (insertField k v done) r

end

end Value

end MetricSql.Json

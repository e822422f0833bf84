import MetricSql.Decimal.Binary

namespace MetricSql.Binary

structure Decimal where
  digits : Nat
  exponent : Int
  deriving DecidableEq

def digitCount (n : Nat) : Nat := (Nat.toDigits 10 n).length

def leadingExponent (n d : Nat) : Int :=
  if d ≤ n then digitCount (n / d) - 1 else -digitCount ((d - 1) / n)

/-- The numbers that round to `b`, as `lower ≤ x ≤ upper` in quarters of its last bit. -/
def lowerQuarters (b : Binary) : Nat :=
  4 * b.mantissa -
    if b.mantissa = Nat.pow 2 (precision - 1) ∧ leastExponent < b.exponent then 1 else 2

def upperQuarters (b : Binary) : Nat := 4 * b.mantissa + 2

/-- Whether `c * 10 ^ e` rounds to `b`. The ends of the interval count for an even mantissa. -/
def reads (b : Binary) (c : Nat) (e : Int) : Bool :=
  let x := 4 * c * Nat.pow 10 e.toNat * Nat.pow 2 (-b.exponent).toNat
  let unit := Nat.pow 10 (-e).toNat * Nat.pow 2 b.exponent.toNat
  let lower := b.lowerQuarters * unit
  let upper := b.upperQuarters * unit
  if b.mantissa % 2 = 0 then lower ≤ x && x ≤ upper else lower < x && x < upper

def neighbour? (b : Binary) (e : Int) : Option Nat :=
  let n := b.ratio.1 * Nat.pow 10 (-e).toNat
  let d := b.ratio.2 * Nat.pow 10 e.toNat
  let c := n / d
  match b.reads c e, b.reads (c + 1) e with
  | true, true => some (roundDiv n d)
  | true, false => some c
  | false, true => some (c + 1)
  | false, false => none

/-- Tries the grids with `k`, `k - 1`, … fewer decimal places than `e`. -/
def firstNeighbour (b : Binary) (e : Int) : (k : Nat) → Decimal
  | 0 => ⟨b.ratio.1, 0⟩
  | k + 1 =>
    match b.neighbour? e with
    | some c => ⟨c, e⟩
    | none => firstNeighbour b (e - 1) k

def shortest (b : Binary) : Decimal := firstNeighbour b (leadingExponent b.ratio.1 b.ratio.2) 17

/-- Notation of numbers: positional where the exponent of the first digit is at least `least` and
less than `greatest`, else with an exponent. -/
structure Layout where
  least : Int := -5
  greatest : Int := 16

def zeros (n : Nat) : List Char := List.replicate n '0'

/-- The digits of a number after its point, of which there is at least one. -/
def pointed (whole fraction : List Char) : List Char :=
  whole ++ '.' :: if fraction.isEmpty then ['0'] else fraction

def positional (digits : List Char) (lead : Int) : List Char :=
  if lead < 0 then pointed ['0'] (zeros (lead.natAbs - 1) ++ digits)
  else
    let places := lead.natAbs + 1
    pointed (digits.take places ++ zeros (places - digits.length)) (digits.drop places)

def scientific (digits : List Char) (lead : Int) : List Char :=
  let fraction := digits.drop 1
  digits.take 1 ++ (if fraction.isEmpty then [] else '.' :: fraction) ++
    'e' :: (if lead < 0 then '-' else '+') :: Nat.toDigits 10 lead.natAbs

def dropZeros (digits : List Char) : List Char := (digits.reverse.dropWhile (· == '0')).reverse

def chars (layout : Layout) (b : Binary) : List Char :=
  if b.isZero then pointed ['0'] []
  else
    let s := b.shortest
    let all := Nat.toDigits 10 s.digits
    let lead := s.exponent + (all.length - 1)
    let digits := dropZeros all
    if layout.least ≤ lead ∧ lead < layout.greatest then positional digits lead
    else scientific digits lead

end MetricSql.Binary

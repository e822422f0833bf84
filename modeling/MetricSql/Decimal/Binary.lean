namespace MetricSql

/-- The number `mantissa * 2 ^ exponent`, one of the finite numbers of binary floating point with a
53-bit mantissa. -/
structure Binary where
  mantissa : Nat
  exponent : Int
  deriving DecidableEq

namespace Binary

def precision : Nat := 53

def leastExponent : Int := -1074

def greatestExponent : Int := 971

def ratio (b : Binary) : Nat × Nat :=
  (b.mantissa * Nat.pow 2 b.exponent.toNat, Nat.pow 2 (-b.exponent).toNat)

def isZero (b : Binary) : Bool := b.mantissa == 0

/-- The nearest integer to `n / d`; a half goes to the even neighbour. -/
def roundDiv (n d : Nat) : Nat :=
  let q := n / d
  let r := n % d
  if 2 * r < d then q else if d < 2 * r then q + 1 else q + q % 2

def roundScaled (n d : Nat) (e : Int) : Nat :=
  roundDiv (n * Nat.pow 2 (-e).toNat) (d * Nat.pow 2 e.toNat)

/-- The exponent for which `n / d` needs all bits of the mantissa. -/
def scaleOf (n d : Nat) : Int :=
  let e : Int := Nat.log2 n - Nat.log2 d - (precision - 1)
  let e :=
    if n * Nat.pow 2 (-e).toNat < d * Nat.pow 2 e.toNat * Nat.pow 2 (precision - 1) then e - 1 else e
  max e leastExponent

def nearest? (n d : Nat) : Option Binary :=
  let e := scaleOf n d
  let m := roundScaled n d e
  let b : Binary :=
    if m = Nat.pow 2 precision then ⟨Nat.pow 2 (precision - 1), e + 1⟩ else ⟨m, e⟩
  if greatestExponent < b.exponent then none else some b

def mul? (a b : Binary) : Option Binary :=
  nearest? (a.ratio.1 * b.ratio.1) (a.ratio.2 * b.ratio.2)

def div? (a b : Binary) : Option Binary :=
  nearest? (a.ratio.1 * b.ratio.2) (a.ratio.2 * b.ratio.1)

def ofNat? (n : Nat) : Option Binary := nearest? n 1

def greatestPower : Nat := 308

def powerOfTen? (n : Nat) : Option Binary := ofNat? (Nat.pow 10 n)

def divTimes? (b : Binary) : (k : Nat) → Option Binary
  | 0 => some b
  | k + 1 =>
    if b.isZero then some b
    else
      match (powerOfTen? greatestPower).bind b.div? with
      | some c => c.divTimes? k
      | none => none

def divPower? (b : Binary) (n : Nat) : Option Binary := do
  let k := (n - 1) / greatestPower
  let c ← b.divTimes? k
  let p ← powerOfTen? (n - k * greatestPower)
  c.div? p

/-- The significand is rounded first, and then its product or quotient with the power of ten. -/
def ofDecimal? (significand : Nat) (exponent : Int) : Option Binary := do
  let b ← ofNat? significand
  if exponent < 0 then b.divPower? exponent.natAbs
  else if exponent.natAbs ≤ greatestPower then (powerOfTen? exponent.natAbs).bind b.mul?
  else if b.isZero then some b
  else none

end Binary

end MetricSql

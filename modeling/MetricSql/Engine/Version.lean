import MetricSql.Text.Blank

namespace MetricSql

open Text

structure Version where
  components : List Nat
  deriving DecidableEq

namespace Version

def splitDots : List Char → List (List Char)
  | [] => [[]]
  | c :: r =>
    if c = '.' then [] :: splitDots r
    else
      match splitDots r with
      | [] => [[c]]
      | piece :: pieces => (c :: piece) :: pieces

/-- Components are kept up to this number; larger ones count as zero. -/
def componentLimit : Nat := Nat.pow 2 64 - 1

def leadingNumber (piece : List Char) : Nat :=
  let n := Nat.ofDigitChars 10 ((trim piece).takeWhile Char.isDigit) 0
  if n ≤ componentLimit then n else 0

def ofText (s : String) : Version := ⟨(splitDots s.toList).map leadingNumber⟩

/-- Compares component by component; missing ones count as zero. -/
def compareComponents : List Nat → List Nat → Ordering
  | [], [] => .eq
  | [], y :: ys => (compare 0 y).then (compareComponents [] ys)
  | x :: xs, [] => (compare x 0).then (compareComponents xs [])
  | x :: xs, y :: ys => (compare x y).then (compareComponents xs ys)

def compare (a b : Version) : Ordering := compareComponents a.components b.components

end Version

end MetricSql

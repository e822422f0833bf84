namespace MetricSql

namespace Calendar

def isLeap (y : Int) : Bool := y % 4 == 0 && (y % 100 != 0 || y % 400 == 0)

def daysInMonth (y : Int) (m : Nat) : Nat :=
  if m = 2 then if isLeap y then 29 else 28
  else if m = 4 ∨ m = 6 ∨ m = 9 ∨ m = 11 then 30 else 31

theorem daysInMonth_pos (y : Int) (m : Nat) : 28 ≤ daysInMonth y m := by
  unfold daysInMonth
  split
  · split <;> omega
  · split <;> omega

def daysBeforeYear (y : Int) : Int :=
  365 * (y - 1) + (y - 1) / 4 - (y - 1) / 100 + (y - 1) / 400

def daysBeforeMonth (y : Int) (m : Nat) : Nat :=
  (367 * m - 362) / 12 - if m ≤ 2 then 0 else if isLeap y then 1 else 2

theorem daysBeforeMonth_succ (y : Int) {m : Nat} (h : 1 ≤ m ∧ m ≤ 11) :
    daysBeforeMonth y (m + 1) = daysBeforeMonth y m + daysInMonth y m := by
  obtain rfl | rfl | rfl | rfl | rfl | rfl | rfl | rfl | rfl | rfl | rfl :
      m = 1 ∨ m = 2 ∨ m = 3 ∨ m = 4 ∨ m = 5 ∨ m = 6 ∨ m = 7 ∨ m = 8 ∨ m = 9 ∨ m = 10 ∨ m = 11 := by
    omega
  all_goals cases hy : isLeap y <;> simp [daysBeforeMonth, daysInMonth, hy]

def minYear : Int := -262143

def maxYear : Int := 262142

end Calendar

open Calendar

/-- A day of the proleptic Gregorian calendar, within the years that are kept. -/
structure Date where
  year : Int
  month : Nat
  day : Nat
  year_range : minYear ≤ year ∧ year ≤ maxYear
  month_range : 1 ≤ month ∧ month ≤ 12
  day_range : 1 ≤ day ∧ day ≤ daysInMonth year month
  deriving DecidableEq

namespace Date

def make? (year : Int) (month day : Nat) : Option Date :=
  if hy : minYear ≤ year ∧ year ≤ maxYear then
    if hm : 1 ≤ month ∧ month ≤ 12 then
      if hd : 1 ≤ day ∧ day ≤ daysInMonth year month then some ⟨year, month, day, hy, hm, hd⟩
      else none
    else none
  else none

def earliest : Date := ⟨-262143, 1, 1, by decide, by decide, by decide⟩

def latest : Date := ⟨262142, 12, 31, by decide, by decide, by decide⟩

/-- Counts days; the first of January of year 1 is day 1, a Monday. -/
def dayNumber (d : Date) : Int := daysBeforeYear d.year + daysBeforeMonth d.year d.month + d.day

instance : LE Date := ⟨fun a b => a.dayNumber ≤ b.dayNumber⟩

instance : LT Date := ⟨fun a b => a.dayNumber < b.dayNumber⟩

instance (a b : Date) : Decidable (a ≤ b) := inferInstanceAs (Decidable (a.dayNumber ≤ b.dayNumber))

instance (a b : Date) : Decidable (a < b) := inferInstanceAs (Decidable (a.dayNumber < b.dayNumber))

theorem le_def {a b : Date} : a ≤ b ↔ a.dayNumber ≤ b.dayNumber := Iff.rfl

theorem lt_def {a b : Date} : a < b ↔ a.dayNumber < b.dayNumber := Iff.rfl

def yearOf (n : Int) : Int :=
  let y := n * 400 / 146097
  if daysBeforeYear (y + 2) < n then y + 2
  else if daysBeforeYear (y + 1) < n then y + 1
  else y

def monthOf (y : Int) (ordinal : Nat) : (m : Nat) → Nat
  | 0 => 1
  | m + 1 => if daysBeforeMonth y (m + 1) < ordinal then m + 1 else monthOf y ordinal m

def ofDayNumber? (n : Int) : Option Date :=
  let y := yearOf n
  let ordinal := (n - daysBeforeYear y).toNat
  let m := monthOf y ordinal 12
  make? y m (ordinal - daysBeforeMonth y m)

/-- The date `n` days earlier, or the earliest one. -/
def minusDays (d : Date) (n : Nat) : Date := (ofDayNumber? (d.dayNumber - n)).getD earliest

def daysFromMonday (d : Date) : Nat := ((d.dayNumber - 1) % 7).toNat

def monthNumber (d : Date) : Int := 12 * d.year + (d.month - 1)

def ofMonthNumber? (n : Int) : Option Date := make? (n / 12) ((n % 12).toNat + 1) 1

def firstOfMonth (d : Date) : Date :=
  { d with day := 1, day_range := ⟨Nat.le_refl 1, Nat.le_trans (by decide) (daysInMonth_pos _ _)⟩ }

def lastOfMonth (d : Date) : Date :=
  { d with
    day := daysInMonth d.year d.month
    day_range := ⟨Nat.le_trans (by decide) (daysInMonth_pos _ _), Nat.le_refl _⟩ }

def min (a b : Date) : Date := if a ≤ b then a else b

def max (a b : Date) : Date := if a ≤ b then b else a

def clampTo (lo? : Option Date) (d : Date) : Date :=
  match lo? with
  | some lo => d.max lo
  | none => d

end Date

end MetricSql

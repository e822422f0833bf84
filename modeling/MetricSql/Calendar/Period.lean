import MetricSql.Calendar.Date

namespace MetricSql

inductive Period
  | day
  | week
  | month
  | quarter
  | year
  deriving DecidableEq

namespace Period

open Calendar

def countLimit : Nat := Nat.pow 2 32 - 1

def saturate (n : Nat) : Nat := min n countLimit

def yearWord? (n : Int) : Option Int :=
  if -2147483648 ≤ n ∧ n ≤ 2147483647 then some n else none

def newYear? (stop : Date) (back : Nat) : Option Date := do
  let back ← yearWord? back
  let year ← yearWord? (stop.year - back)
  Date.make? year 1 1

theorem yearWord?_eq_some_iff {n : Int} :
    yearWord? n = some n ↔ -2147483648 ≤ n ∧ n ≤ 2147483647 := by
  simp [yearWord?]

theorem yearWord?_eq_none_iff {n : Int} :
    yearWord? n = none ↔ n < -2147483648 ∨ 2147483647 < n := by
  unfold yearWord?
  split
  · next h => simp only [reduceCtorEq, false_iff]; omega
  · next h => simp only [true_iff]; omega

theorem newYear?_eq_make? (stop : Date) (back : Nat) :
    newYear? stop back = Date.make? (stop.year - back) 1 1 := by
  have hyear := stop.year_range
  simp only [minYear, maxYear] at hyear
  have hnone : stop.year - back < minYear → Date.make? (stop.year - back) 1 1 = none :=
    fun h => dif_neg fun k => Int.not_lt.mpr k.1 h
  unfold minYear at hnone
  by_cases hback : (back : Int) ≤ 2147483647
  · have hword : yearWord? back = some (back : Int) := yearWord?_eq_some_iff.mpr (by omega)
    rw [newYear?, hword]
    by_cases hfits : -2147483648 ≤ stop.year - back
    · have hword' : yearWord? (stop.year - back) = some (stop.year - back) :=
        yearWord?_eq_some_iff.mpr (by omega)
      simp only [hword', Option.bind_eq_bind, Option.bind_some]
    · have hword' : yearWord? (stop.year - back) = none := yearWord?_eq_none_iff.mpr (by omega)
      simp only [hword', hnone (by omega), Option.bind_eq_bind, Option.bind_some, Option.bind_none]
  · have hword : yearWord? back = none := yearWord?_eq_none_iff.mpr (by omega)
    simp only [newYear?, hword, hnone (by omega), Option.bind_eq_bind, Option.bind_none]

/-- The first day of a window of `n` periods, the last of which contains `stop`. A window that
would begin before the earliest date begins there. -/
def windowStart (stop : Date) (p : Period) (n : UInt32) : Date :=
  let back := n.toNat - 1
  match p with
  | day => stop.minusDays back
  | week => (stop.minusDays stop.daysFromMonday).minusDays (saturate (back * 7))
  | month => (Date.ofMonthNumber? (stop.monthNumber - back)).getD .earliest
  | quarter =>
    let intoQuarter := (stop.month - 1) % 3
    let months := saturate (intoQuarter + saturate (back * 3))
    (Date.ofMonthNumber? (stop.monthNumber - months)).getD .earliest
  | year => (newYear? stop back).getD .earliest

end Period

end MetricSql

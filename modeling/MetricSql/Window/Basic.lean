import MetricSql.Calendar.Period
import MetricSql.Calendar.Text

namespace MetricSql

inductive WindowMode
  | list
  | between
  | available
  | recent
  deriving DecidableEq

/-- A requested date window. A `list` reads its dates, `between` its bounds, and `recent` and
`available` the number and the kind of their periods. -/
structure Window where
  mode : WindowMode
  dateField : Option String := none
  startDate : Option String := none
  endDate : Option String := none
  dateList : List String := []
  unit : UInt32 := 0
  period : Period := .day
  deriving DecidableEq

/-- The dates for which data is known to exist. A bound that is missing is unknown. -/
structure Availability where
  itemId : Option String := none
  startDate : Option String := none
  endDate : Option String := none
  deriving DecidableEq

structure DateColumns where
  day : String := "sys_imp_date"
  week : String := "sys_imp_week"
  month : String := "sys_imp_month"
  defaultRecentUnit : UInt32 := 1
  deriving DecidableEq

/-- What a window is read against. Recent windows end on the day before `today`. -/
structure DateRules where
  columns : DateColumns := {}
  today : Date

/-- A text that is present and not empty. -/
def given? (s : Option String) : Option String := s.filter (· != "")

namespace Availability

def isEmpty (a : Availability) : Bool :=
  (given? a.startDate).isNone && (given? a.endDate).isNone

def start? (a : Availability) : Option Date := a.startDate.bind Date.ofText?

def stop? (a : Availability) : Option Date := a.endDate.bind Date.ofText?

end Availability

namespace DateRules

def yesterday (r : DateRules) : Date := r.today.minusDays 1

def lastDay (r : DateRules) (a : Availability) : Date := a.stop?.getD r.yesterday

/-- The number of periods of a recent window; it is never zero. -/
def recentUnit (r : DateRules) (w : Window) : UInt32 :=
  if w.unit = 0 then if r.columns.defaultRecentUnit = 0 then 1 else r.columns.defaultRecentUnit
  else w.unit

/-- The date column of a window. It is empty when neither the window nor its period names one. -/
def column (r : DateRules) (w : Window) : String :=
  (given? w.dateField).getD <|
    match w.period with
    | .day => r.columns.day
    | .week => r.columns.week
    | .month => r.columns.month
    | .quarter | .year => ""

theorem recentUnit_ne_zero (r : DateRules) (w : Window) : r.recentUnit w ≠ 0 := by
  unfold recentUnit
  split
  · split
    · decide
    · assumption
  · assumption

end DateRules

end MetricSql

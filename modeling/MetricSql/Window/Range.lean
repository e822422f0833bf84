import MetricSql.Window.Recent

namespace MetricSql

open Text

structure EffectiveRange where
  column : String := ""
  start : String := ""
  stop : String := ""
  deriving DecidableEq

namespace EffectiveRange

def isEmpty (e : EffectiveRange) : Bool := e.column == "" && e.start == "" && e.stop == ""

def ofBounds (column : String) : Option (String × String) → EffectiveRange
  | some (start, stop) => ⟨column, start, stop⟩
  | none => {}

end EffectiveRange

namespace DateRules

variable (r : DateRules) (w : Window)

def reportedRecent (column : String) : Option Availability → EffectiveRange
  | none =>
    let stop := r.yesterday
    ⟨column, (stop.minusDays ((r.recentUnit w).toNat - 1)).text, stop.text⟩
  | some a =>
    match w.period with
    | .quarter | .year => {}
    | _ => .ofBounds column (r.recentRange a w)

def reportedRange (a : Option Availability) : EffectiveRange :=
  let col := r.column w
  if col = "" then {}
  else
    match w.mode with
    | .available | .between => ⟨col, w.startDate.getD "", w.endDate.getD ""⟩
    | .list =>
      .ofBounds col do
        let start ← leastOf id w.dateList
        let stop ← greatestOf id w.dateList
        return (start, stop)
    | .recent => r.reportedRecent w col a

end DateRules

end MetricSql

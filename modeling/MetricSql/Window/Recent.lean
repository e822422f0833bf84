import MetricSql.Text.Order
import MetricSql.Window.Basic
import MetricSql.Window.Predicate

namespace MetricSql

open Text

abbrev DateSpan := Date × Date

namespace DateSpan

def texts (s : DateSpan) : String × String := (s.1.text, s.2.text)

end DateSpan

/-- The parts in single months of the days up to `stop`, from `n` months on, the last of which
begins on `start?`. Days before `lo?` are left out. -/
def monthSpans (lo? : Option Date) (stop : Date) :
    (n : Nat) → (start? : Option Date) → List DateSpan → List DateSpan
  | 0, _, later => later
  | _ + 1, none, later => later
  | n + 1, some start, later =>
    let first := start.clampTo lo?
    let last := start.lastOfMonth.min stop
    let spans := if first ≤ last then (first, last) :: later else later
    if start < first then spans
    else monthSpans lo? stop n (Date.ofMonthNumber? (start.monthNumber - 1)) spans

namespace DateRules

variable (r : DateRules) (a : Availability) (w : Window)

def recentSpan (p : Period) : DateSpan :=
  let stop := r.lastDay a
  ((p.windowStart stop (r.recentUnit w)).clampTo a.start?, stop)

def recentDay : DateSpan := r.recentSpan a w .day

def recentWeek : DateSpan := r.recentSpan a w .week

def recentMonths : List DateSpan :=
  let stop := r.lastDay a
  monthSpans a.start? stop (r.recentUnit w).toNat (some stop.firstOfMonth) []

def monthRange : Option (String × String) := do
  let spans := r.recentMonths a w
  let start ← leastOf (·.1.text) spans
  let stop ← greatestOf (·.2.text) spans
  return (start, stop)

def recentRange : Option (String × String) :=
  match w.period with
  | .day => some (r.recentDay a w).texts
  | .week => some (r.recentWeek a w).texts
  | .month => r.monthRange a w
  | .quarter | .year => some (r.recentSpan a w w.period).texts

def recentWhere : Option DatePredicate :=
  let col := r.column w
  if col = "" then none
  else
    match r.recentRange a w with
    | some (start, stop) => if start ≤ stop then some (.between col start stop) else some .never
    | none => some .never

/-- The recent window that ends yesterday. -/
def defaultRecent : Option DatePredicate :=
  let col := r.column w
  if col = "" then none
  else
    let stop := r.yesterday
    some (.between col (w.period.windowStart stop (r.recentUnit w)).text stop.text)

end DateRules

end MetricSql

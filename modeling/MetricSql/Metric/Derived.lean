import MetricSql.Metric.Expansion

namespace MetricSql.Registry

variable (r : Registry) (option : AggOption)

def derivedMetric? (column : String) : Option Metric :=
  (r.findMetric? column).filter (·.defineType = .metric)

/-- The expansions of the columns that are derived metrics, added to those already `done`. -/
def expandColumns (done : List (String × String)) :
    (columns : List String) → Context → Except Cycle (List (String × String)) × Context
  | [], c => (.ok done, c)
  | column :: columns, c =>
    if (done.lookup column).isSome then expandColumns done columns c
    else
      match r.derivedMetric? column with
      | none => expandColumns done columns c
      | some m =>
        match r.expandMetric option m c with
        | (.ok text, c) => expandColumns ((column, text) :: done) columns c
        | (.error e, c) => (.error e, c)

end MetricSql.Registry

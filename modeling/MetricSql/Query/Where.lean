import MetricSql.Query.Filter
import MetricSql.Window.Range
import MetricSql.Window.Where

namespace MetricSql.Query

variable (q : Query) (r : DateRules)

/-- Joins the date condition and that of the filters. Where both are missing, the default recent
window of the query stands in. -/
def mergeWhere (fromFilters fromDate : String) : String :=
  if fromDate = "" then
    if fromFilters = "" then DatePredicate.optionText (q.window.bind r.defaultRecent)
    else fromFilters
  else if fromFilters = "" then fromDate
  else fromDate ++ " AND (" ++ fromFilters ++ ")"

def dateText (a : Option Availability) : String :=
  DatePredicate.optionText (q.window.bind (r.dateWhere · a))

def whereText (a : Option Availability) (filterText : List Filter → String) : String :=
  q.mergeWhere r (filterText q.filters) (q.dateText r a)

def effectiveRange (a : Option Availability) : EffectiveRange :=
  match q.window with
  | some w => r.reportedRange w a
  | none => {}

end MetricSql.Query

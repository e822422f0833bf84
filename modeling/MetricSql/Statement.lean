import MetricSql.Engine.Basic
import MetricSql.Metric.Derived
import MetricSql.Query.Clause
import MetricSql.Query.Where

namespace MetricSql

open Text

structure Statement where
  select : String
  whereClause : String
  groupBy : String
  orderBy : String
  limit : String
  measures : NameSet
  dimensions : NameSet
  range : EffectiveRange

structure Compiler where
  rules : DateRules
  aggOption : AggOption := .default
  filterText : List Filter → String := Filter.joinText

def Compiler.compile (k : Compiler) (r : Registry) (q : Query) (a : Option Availability) :
    Except Cycle Statement :=
  let columns := q.aggregators.map (·.column) ++ q.orders.map (·.column)
  match r.expandColumns k.aggOption [] columns {} with
  | (.error e, _) => .error e
  | (.ok texts, c) =>
    .ok {
      select := q.selectText fun n => (texts.lookup n).map (· ++ " AS " ++ n)
      whereClause := q.whereText k.rules a k.filterText
      groupBy := q.groupByText
      orderBy := q.orderByText fun n => texts.lookup n
      limit := q.limitText
      measures := c.measures
      dimensions := c.dimensions
      range := q.effectiveRange k.rules a }

namespace Statement

variable (s : Statement)

def sql (source : String) : String :=
  "select " ++ .ofList (trimEnd s.select.toList) ++ " from " ++ source ++
    (if s.whereClause = "" then "" else " where " ++ s.whereClause) ++
    (if s.groupBy = "" then "" else " " ++ s.groupBy) ++
    (if s.orderBy = "" then "" else " " ++ s.orderBy) ++ s.limit

def sourceAlias : String := "t"

/-- The statement over a source query, in a `WITH` clause where that can be used. -/
def wrapped (source : String) (useWith : Bool) : String :=
  if useWith then "with " ++ sourceAlias ++ " as (" ++ source ++ ") " ++ s.sql sourceAlias
  else s.sql ("(" ++ source ++ ") " ++ sourceAlias)

end Statement

end MetricSql

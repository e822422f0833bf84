import MetricSql.Data.Named
import MetricSql.Json.Value
import MetricSql.Window.Basic

namespace MetricSql

inductive AggregateFunction
  | max
  | min
  | avg
  | sum
  | count
  | countDistinct
  | distinct
  | topn
  | percentile
  deriving DecidableEq

def AggregateFunction.name : AggregateFunction → String
  | max => "max"
  | min => "min"
  | avg => "avg"
  | sum => "sum"
  | count => "count"
  | countDistinct => "count_distinct"
  | distinct => "distinct"
  | topn => "topn"
  | percentile => "percentile"

instance : Named AggregateFunction :=
  ⟨AggregateFunction.name,
    [.max, .min, .avg, .sum, .count, .countDistinct, .distinct, .topn, .percentile]⟩

structure Aggregator where
  func : AggregateFunction
  column : String
  args : List String := []
  deriving DecidableEq

inductive SortDirection
  | asc
  | desc
  deriving DecidableEq

instance : Named SortDirection :=
  ⟨fun | .asc => "asc" | .desc => "desc", [.asc, .desc]⟩

structure Order where
  column : String
  direction : SortDirection
  deriving DecidableEq

inductive Comparison
  | eq
  | neq
  | gt
  | gte
  | lt
  | lte
  | isIn
  | notIn
  | like
  deriving DecidableEq

instance : Named Comparison :=
  ⟨fun
    | .eq => "eq"
    | .neq => "neq"
    | .gt => "gt"
    | .gte => "gte"
    | .lt => "lt"
    | .lte => "lte"
    | .isIn => "in"
    | .notIn => "not_in"
    | .like => "like",
    [.eq, .neq, .gt, .gte, .lt, .lte, .isIn, .notIn, .like]⟩

structure Filter where
  field : String
  op : Comparison
  value : Json.Value

instance : Named WindowMode :=
  ⟨fun
    | .list => "list"
    | .between => "between"
    | .available => "available"
    | .recent => "recent",
    [.list, .between, .available, .recent]⟩

instance : Named Period :=
  ⟨fun
    | .day => "day"
    | .week => "week"
    | .month => "month"
    | .quarter => "quarter"
    | .year => "year",
    [.day, .week, .month, .quarter, .year]⟩

/-- What is asked for: groups, aggregates, conditions, a date window, an order and a limit. -/
structure Query where
  groups : List String := []
  aggregators : List Aggregator := []
  filters : List Filter := []
  window : Option Window := none
  orders : List Order := []
  limit : Option Int64 := none

end MetricSql

import MetricSql.Query.Basic

namespace MetricSql

/-- What the names in the expression of a metric stand for. -/
inductive DefineType
  | metric
  | measure
  | field
  deriving DecidableEq

instance : Named DefineType :=
  ⟨fun
    | .metric => "metric"
    | .measure => "measure"
    | .field => "field",
    [.metric, .measure, .field]⟩

structure Metric where
  bizName : String
  defineType : DefineType := .measure
  expr : String
  description : Option String := none
  deriving DecidableEq

structure Measure where
  bizName : String
  agg : AggregateFunction
  expr : Option String := none
  description : Option String := none
  deriving DecidableEq

structure Dimension where
  bizName : String
  expr : Option String := none
  description : Option String := none
  deriving DecidableEq

def Measure.column (m : Measure) : String := (given? m.expr).getD m.bizName

/-- How measures are written in expressions. Native ones are columns that hold aggregates. -/
inductive AggOption
  | default
  | native
  | aggregation
  deriving DecidableEq

instance : Named AggOption :=
  ⟨fun
    | .default => "default"
    | .native => "native"
    | .aggregation => "aggregation",
    [.default, .native, .aggregation]⟩

def Measure.text (m : Measure) (option : AggOption) : String :=
  if option = .native then m.bizName
  else if m.agg = .countDistinct then "count(distinct " ++ m.column ++ ")"
  else m.agg.name ++ "(" ++ m.column ++ ")"

structure Document where
  name : Option String := none
  metrics : List Metric := []
  measures : List Measure := []
  dimensions : List Dimension := []
  fields : List String := []
  deriving DecidableEq

end MetricSql

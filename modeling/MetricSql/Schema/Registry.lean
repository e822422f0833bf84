import MetricSql.Schema.Basic
import MetricSql.Text.Case
import MetricSql.Text.NameSet

namespace MetricSql

open Text

/-- The definitions that a query can use. No two measures have the same name. -/
structure Registry where
  metrics : List Metric := []
  measures : List Measure := []
  dimensions : List Dimension := []
  fields : NameSet := .empty

namespace Registry

def putMeasure (ms : List Measure) (m : Measure) : List Measure :=
  m :: ms.filter (·.bizName != m.bizName)

def merge (r : Registry) (d : Document) : Registry where
  metrics := r.metrics ++ d.metrics
  measures := d.measures.foldl putMeasure r.measures
  dimensions := r.dimensions ++ d.dimensions
  fields := r.fields.insertAll d.fields

def ofDocument (d : Document) : Registry := ({} : Registry).merge d

variable (r : Registry) (name : String)

/-- The first metric with the name, whatever the case of its letters. -/
def findMetric? : Option Metric := r.metrics.find? fun m => sameName m.bizName name

def findMeasure? : Option Measure := r.measures.find? (·.bizName == name)

def findDimension? : Option Dimension := r.dimensions.find? (·.bizName == name)

def hasField : Bool :=
  r.fields.contains name || (r.findMeasure? name).isSome || (r.findDimension? name).isSome

theorem sameName_of_findMetric? {r : Registry} {name : String} {m : Metric}
    (h : r.findMetric? name = some m) : sameName m.bizName name = true :=
  List.find?_some (p := fun m : Metric => sameName m.bizName name) h

theorem mem_of_findMetric? {r : Registry} {name : String} {m : Metric}
    (h : r.findMetric? name = some m) : m ∈ r.metrics :=
  List.mem_of_find?_eq_some h

end Registry

end MetricSql

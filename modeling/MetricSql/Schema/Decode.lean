import MetricSql.Data.Node
import MetricSql.Schema.Basic

namespace MetricSql

open DataNode

variable {ν : Type} [DataNode ν]

def Metric.fieldNames : List String := ["biz_name", "define_type", "expr", "description"]

def Metric.decode? (n : ν) : Option Metric := do
  let f ← fields? Metric.fieldNames false n
  return {
    bizName := ← f.required "biz_name" text?
    defineType := ← f.withDefault "define_type" .measure named?
    expr := ← f.required "expr" text?
    description := ← f.optional "description" text? }

def Measure.fieldNames : List String := ["biz_name", "agg", "expr", "description"]

def Measure.decode? (n : ν) : Option Measure := do
  let f ← fields? Measure.fieldNames false n
  return {
    bizName := ← f.required "biz_name" text?
    agg := ← f.required "agg" named?
    expr := ← f.optional "expr" text?
    description := ← f.optional "description" text? }

def Dimension.fieldNames : List String := ["biz_name", "expr", "description"]

def Dimension.decode? (n : ν) : Option Dimension := do
  let f ← fields? Dimension.fieldNames false n
  return {
    bizName := ← f.required "biz_name" text?
    expr := ← f.optional "expr" text?
    description := ← f.optional "description" text? }

/-- Reads a document, which has no fields but the known ones. -/
def Document.decode? (n : ν) : Option Document := do
  let f ← fields? ["name", "metrics", "measures", "dimensions", "fields"] true n
  return {
    name := ← f.optional "name" text?
    metrics := ← f.withDefault "metrics" [] (list? Metric.decode?)
    measures := ← f.withDefault "measures" [] (list? Measure.decode?)
    dimensions := ← f.withDefault "dimensions" [] (list? Dimension.decode?)
    fields := ← f.withDefault "fields" [] texts? }

end MetricSql

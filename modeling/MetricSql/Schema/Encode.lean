import MetricSql.Query.Encode
import MetricSql.Schema.Basic

namespace MetricSql

open Json

def Metric.encode (m : Metric) : Value :=
  .object [
    ("biz_name", .string m.bizName),
    ("define_type", encodeName m.defineType),
    ("expr", .string m.expr),
    ("description", .ofOption m.description)]

def Measure.encode (m : Measure) : Value :=
  .object [
    ("biz_name", .string m.bizName),
    ("agg", encodeName m.agg),
    ("expr", .ofOption m.expr),
    ("description", .ofOption m.description)]

def Dimension.encode (d : Dimension) : Value :=
  .object [
    ("biz_name", .string d.bizName),
    ("expr", .ofOption d.expr),
    ("description", .ofOption d.description)]

end MetricSql

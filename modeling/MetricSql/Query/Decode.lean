import MetricSql.Json.Decode
import MetricSql.Json.Node
import MetricSql.Json.Reader
import MetricSql.Query.Basic

namespace MetricSql

open DataNode Json

namespace Aggregator

def decode? (t : Tree) : Option Aggregator := do
  let f ← fields? ["func", "column", "args"] false t
  return {
    func := ← f.required "func" named?
    column := ← f.required "column" text?
    args := ← f.withDefault "args" [] texts? }

end Aggregator

namespace Order

def decode? (t : Tree) : Option Order := do
  let f ← fields? ["column", "direction"] false t
  return {
    column := ← f.required "column" text?
    direction := ← f.required "direction" named? }

end Order

namespace Filter

/-- How deep the value of a filter may nest: 127 levels, less the three around it. -/
def valueDepth : Nat := 124

def decode? (t : Tree) : Option Filter := do
  let f ← fields? ["field", "op", "value"] false t
  return {
    field := ← f.required "field" text?
    op := ← f.required "op" named?
    value := ← f.required "value" (Value.ofTree? valueDepth) }

end Filter

namespace Window

def decode? (t : Tree) : Option Window := do
  let f ← fields? ["date_mode", "date_field", "start_date", "end_date", "date_list", "unit",
    "period"] false t
  return {
    mode := ← f.required "date_mode" named?
    dateField := ← f.optional "date_field" text?
    startDate := ← f.optional "start_date" text?
    endDate := ← f.optional "end_date" text?
    dateList := ← f.withDefault "date_list" [] texts?
    unit := ← f.withDefault "unit" 0 word32?
    period := ← f.withDefault "period" .day named? }

end Window

namespace Availability

def decode? (t : Tree) : Option Availability := do
  let f ← fields? ["item_id", "start_date", "end_date"] false t
  return {
    itemId := ← f.optional "item_id" text?
    startDate := ← f.optional "start_date" text?
    endDate := ← f.optional "end_date" text? }

end Availability

namespace Query

def decode? (t : Tree) : Option Query := do
  let f ← fields? ["groups", "aggregators", "dimension_filters", "date_info", "orders",
    "limit"] false t
  return {
    groups := ← f.withDefault "groups" [] texts?
    aggregators := ← f.withDefault "aggregators" [] (list? Aggregator.decode?)
    filters := ← f.withDefault "dimension_filters" [] (list? Filter.decode?)
    window := ← f.optional "date_info" Window.decode?
    orders := ← f.withDefault "orders" [] (list? Order.decode?)
    limit := ← f.optional "limit" int64? }

def ofText? (s : String) : Option Query := (Tree.ofText? s).bind decode?

end Query

end MetricSql

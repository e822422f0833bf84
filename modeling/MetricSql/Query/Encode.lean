import MetricSql.Json.Printer
import MetricSql.Query.Basic

namespace MetricSql

open Json

def encodeName {α : Type} [Named α] (a : α) : Value := .string (Named.name a)

def Aggregator.encode (a : Aggregator) : Value :=
  .object [("func", encodeName a.func), ("column", .string a.column), ("args", .strings a.args)]

def Order.encode (o : Order) : Value :=
  .object [("column", .string o.column), ("direction", encodeName o.direction)]

def Filter.encode (f : Filter) : Value :=
  .object [("field", .string f.field), ("op", encodeName f.op), ("value", f.value)]

def Window.encode (w : Window) : Value :=
  .object [
    ("date_mode", encodeName w.mode),
    ("date_field", .ofOption w.dateField),
    ("start_date", .ofOption w.startDate),
    ("end_date", .ofOption w.endDate),
    ("date_list", .strings w.dateList),
    ("unit", .ofNat w.unit.toNat),
    ("period", encodeName w.period)]

def encodeLimit : Option Int64 → Value
  | some n => .number (.integer n.toInt)
  | none => .null

def Query.encode (q : Query) : Value :=
  .object [
    ("groups", .strings q.groups),
    ("aggregators", .array (q.aggregators.map Aggregator.encode)),
    ("dimension_filters", .array (q.filters.map Filter.encode)),
    ("date_info", (q.window.map Window.encode).getD .null),
    ("orders", .array (q.orders.map Order.encode)),
    ("limit", encodeLimit q.limit)]

def Query.text (q : Query) : String := q.encode.compact

end MetricSql

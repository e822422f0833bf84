import MetricSql.Data.Node
import MetricSql.Toml.Table

namespace MetricSql.Toml.Value

def text? : Value → Option String
  | text s => some s
  | _ => none

def integerOf? : Value → Option Int
  | integer n => some n
  | _ => none

def items? : Value → Option (List Value)
  | array items => some items
  | tables elements => some elements
  | _ => none

/-- A record is a table, or an array with its first fields in order. A date has none of them. -/
def fields? (names : List String) (closed : Bool) : Value → Option (Fields Value)
  | table _ entries =>
    (entries.foldlM (fun done e => DataNode.addField? names closed done e.1 e.2) []).map (⟨·, false⟩)
  | array items => some ⟨names.zip items, true⟩
  | tables elements => some ⟨names.zip elements, true⟩
  | dateTime => if closed then none else some ⟨[], false⟩
  | _ => none

instance : DataNode Value := ⟨text?, integerOf?, items?, text?, fun _ => some false, fields?⟩

end MetricSql.Toml.Value

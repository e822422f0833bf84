import MetricSql.Settings.Basic
import MetricSql.Toml.Node
import MetricSql.Toml.Reader

namespace MetricSql

def Settings.ofText? (s : String) : Option Settings := do
  decode? (Toml.Value.table .header (← Toml.Entries.ofText? s))

end MetricSql

import MetricSql.Schema.Load
import MetricSql.Settings.Load
import MetricSql.Statement

namespace MetricSql

def compileDirectory (d : Disk) (dir : String) (settingsPath : Option String) (today : Date)
    (q : Query) (a : Option Availability) : Except Failure Statement := do
  let r ← Registry.load d dir
  let settings := Settings.find d settingsPath
  let compiler : Compiler := { rules := ⟨settings.date, today⟩ }
  (compiler.compile r q a).mapError .cyclic

end MetricSql

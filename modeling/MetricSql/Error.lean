import MetricSql.Metric.Expansion

namespace MetricSql

inductive FileError
  | notFound
  | notDirectory
  | isDirectory
  | notText
  deriving DecidableEq

def FileError.message : FileError → String
  | notFound => "No such file or directory (os error 2)"
  | notDirectory => "Not a directory (os error 20)"
  | isDirectory => "Is a directory (os error 21)"
  | notText => "stream did not contain valid UTF-8"

inductive Failure
  | request
  | schema
  | settings
  | settingsFile (e : FileError)
  | schemaFile (e : FileError)
  | noSchemaDirectory (dir : String)
  | badPattern
  | cyclic (c : Cycle)
  deriving DecidableEq

/-- The message of a failure; those of malformed texts have none. -/
def Failure.message? : Failure → Option String
  | settingsFile e => some ("config error: failed to read config file: " ++ e.message)
  | schemaFile e => some ("io error: " ++ e.message)
  | noSchemaDirectory dir => some ("validation error: schema directory not found: " ++ dir)
  | cyclic c =>
    some ("cyclic metric definition involving " ++ c.name ++
      " (" ++ " -> ".intercalate c.path ++ ")")
  | request | schema | settings | badPattern => none

end MetricSql

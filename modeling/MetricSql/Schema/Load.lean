import MetricSql.Disk.Glob
import MetricSql.Schema.Decode
import MetricSql.Schema.Registry
import MetricSql.Yaml.Hops

namespace MetricSql

namespace Document

open Yaml

def hops (l : Located) : Nat :=
  let records (names : List String) (l : Located) :=
    l.listHops (·.recordHops (names.map (·, Located.hops)))
  l.recordHops [
    ("name", Located.hops),
    ("metrics", records Metric.fieldNames),
    ("measures", records Measure.fieldNames),
    ("dimensions", records Dimension.fieldNames),
    ("fields", (·.listHops Located.hops))]

def ofText? (s : String) : Option Document := do
  let l ← Located.ofText? s
  if l.hopLimit < hops l then none else decode? l

end Document

namespace Registry

def extensions : List String := ["yml", "yaml"]

/-- The places of the schema files in a directory, the name of which counts as a pattern. -/
def schemaPlaces (d : Disk) (dir : String) : (extensions : List String) → Except Failure (List Path)
  | [] => .ok []
  | e :: r =>
    match Glob.read? (dir ++ "/*." ++ e) with
    | some parts => return Glob.expand d parts ++ (← schemaPlaces d dir r)
    | none => .error .badPattern

def loadFile (d : Disk) (r : Registry) (p : Path) : Except Failure Registry :=
  match d.readPlace p with
  | .error e => .error (.schemaFile e)
  | .ok text =>
    match Document.ofText? text with
    | some doc => .ok (r.merge doc)
    | none => .error .schema

def load (d : Disk) (dir : String) : Except Failure Registry :=
  if d.exists? dir then do (← schemaPlaces d dir extensions).foldlM (loadFile d) {}
  else .error (.noSchemaDirectory dir)

end Registry

end MetricSql

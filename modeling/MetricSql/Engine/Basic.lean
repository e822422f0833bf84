import MetricSql.Data.Named
import MetricSql.Engine.Version

namespace MetricSql

inductive Engine
  | mysql
  | clickhouse
  | postgresql
  | duckdb
  | starrocks
  | doris
  | presto
  | trino
  | hive
  | h2
  | other
  deriving DecidableEq

instance : Named Engine :=
  ⟨fun
    | .mysql => "mysql"
    | .clickhouse => "clickhouse"
    | .postgresql => "postgresql"
    | .duckdb => "duckdb"
    | .starrocks => "starrocks"
    | .doris => "doris"
    | .presto => "presto"
    | .trino => "trino"
    | .hive => "hive"
    | .h2 => "h2"
    | .other => "other",
    [.mysql, .clickhouse, .postgresql, .duckdb, .starrocks, .doris, .presto, .trino, .hive, .h2,
      .other]⟩

/-- The versions without `WITH` clauses: those of MySQL that begin with the given text, and those of
ClickHouse before the given one. -/
structure EngineVersions where
  mysqlLow : String := "5."
  clickhouseLow : String := "20.4"
  deriving DecidableEq

/-- Whether an engine has `WITH` clauses. An unknown version is taken to have them. -/
def EngineVersions.supportsWith (v : EngineVersions) (engine : Engine) : Option String → Bool
  | none => true
  | some version =>
    match engine with
    | .mysql => !v.mysqlLow.toList.isPrefixOf version.toList
    | .clickhouse => (Version.ofText version).compare (.ofText v.clickhouseLow) != .lt
    | _ => true

end MetricSql

import MetricSql.Data.Node
import MetricSql.Engine.Basic
import MetricSql.Query.Encode
import MetricSql.Window.Basic

namespace MetricSql

open DataNode Json

structure Settings where
  engine : EngineVersions := {}
  date : DateColumns := {}
  deriving DecidableEq

variable {ν : Type} [DataNode ν]

/-- The defaults stand in for missing fields. -/
def EngineVersions.decode? (n : ν) : Option EngineVersions := do
  let d : EngineVersions := {}
  let f ← fields? ["mysql_low_version", "clickhouse_low_version"] false n
  return {
    mysqlLow := ← f.withDefault "mysql_low_version" d.mysqlLow text?
    clickhouseLow := ← f.withDefault "clickhouse_low_version" d.clickhouseLow text? }

def DateColumns.decode? (n : ν) : Option DateColumns := do
  let d : DateColumns := {}
  let f ← fields? ["day_column", "week_column", "month_column", "default_recent_unit"] false n
  return {
    day := ← f.withDefault "day_column" d.day text?
    week := ← f.withDefault "week_column" d.week text?
    month := ← f.withDefault "month_column" d.month text?
    defaultRecentUnit := ← f.withDefault "default_recent_unit" d.defaultRecentUnit word32? }

def Settings.decode? (n : ν) : Option Settings := do
  let f ← fields? ["engine", "date"] false n
  return {
    engine := ← f.withDefault "engine" {} EngineVersions.decode?
    date := ← f.withDefault "date" {} DateColumns.decode? }

def EngineVersions.encode (v : EngineVersions) : Value :=
  .object [
    ("mysql_low_version", .string v.mysqlLow),
    ("clickhouse_low_version", .string v.clickhouseLow)]

def DateColumns.encode (c : DateColumns) : Value :=
  .object [
    ("day_column", .string c.day),
    ("week_column", .string c.week),
    ("month_column", .string c.month),
    ("default_recent_unit", .ofNat c.defaultRecentUnit.toNat)]

def Settings.encode (s : Settings) : Value :=
  .object [("engine", s.engine.encode), ("date", s.date.encode)]

end MetricSql

import MetricSql.Text.Blank
import MetricSql.Text.Case
import MetricSql.Text.Literal
import MetricSql.Text.NameSet
import MetricSql.Text.Number
import MetricSql.Text.Order
import MetricSql.Expr.Token
import MetricSql.Expr.Rewrite
import MetricSql.Calendar.Date
import MetricSql.Calendar.Text
import MetricSql.Calendar.Period
import MetricSql.Window.Where
import MetricSql.Window.Range
import MetricSql.Decimal.Binary
import MetricSql.Decimal.Shortest
import MetricSql.Json.Value
import MetricSql.Json.Printer
import MetricSql.Json.Tree
import MetricSql.Json.Reader
import MetricSql.Json.Decode
import MetricSql.Data.Named
import MetricSql.Data.Node
import MetricSql.Json.Node
import MetricSql.Query.Basic
import MetricSql.Query.Decode
import MetricSql.Query.Encode
import MetricSql.Query.Clause
import MetricSql.Query.Filter
import MetricSql.Query.Where
import MetricSql.Schema.Basic
import MetricSql.Schema.Decode
import MetricSql.Schema.Encode
import MetricSql.Schema.Registry
import MetricSql.Metric.Expansion
import MetricSql.Engine.Version
import MetricSql.Engine.Basic
import MetricSql.Settings.Basic
import MetricSql.Metric.Derived
import MetricSql.Statement
import MetricSql.Error
import MetricSql.Toml.Table
import MetricSql.Toml.Text
import MetricSql.Toml.Scalar
import MetricSql.Toml.Reader
import MetricSql.Toml.Node
import MetricSql.Settings.Reader
import MetricSql.Disk.Basic
import MetricSql.Disk.Glob
import MetricSql.Settings.Load
import MetricSql.Yaml.Token
import MetricSql.Yaml.Cursor
import MetricSql.Yaml.Scalar
import MetricSql.Yaml.Tag
import MetricSql.Yaml.Lexer
import MetricSql.Yaml.Node
import MetricSql.Yaml.Record
import MetricSql.Yaml.Hops
import MetricSql.Schema.Load
import MetricSql.Directory
import MetricSql.Proofs.Expansion.Graph
import MetricSql.Proofs.Expansion.Plain
import MetricSql.Proofs.Expansion.Balance
import MetricSql.Proofs.Expansion.Memory
import MetricSql.Proofs.Expansion.Session
import MetricSql.Proofs.Text.Trim
import MetricSql.Proofs.Text.Extremes
import MetricSql.Proofs.Calendar.Order
import MetricSql.Proofs.Calendar.Arithmetic
import MetricSql.Proofs.Calendar.Digits
import MetricSql.Proofs.Calendar.TextForm
import MetricSql.Proofs.Calendar.DayNumbers
import MetricSql.Proofs.Window.Recent
import MetricSql.Proofs.Window.Reading
import MetricSql.Proofs.Window.Verified
import MetricSql.Proofs.Arithmetic.Grammar
import MetricSql.Proofs.Arithmetic.Lexing
import MetricSql.Proofs.Arithmetic.Compound
import MetricSql.Proofs.Arithmetic.Scanning
import MetricSql.Proofs.Arithmetic.Substitution
import MetricSql.Proofs.Calendar.Periods
import MetricSql.Proofs.Window.Months
import MetricSql.Proofs.Window.Selection
import MetricSql.Proofs.Window.Reported
import MetricSql.Proofs.Query.Literals
import MetricSql.Proofs.Expansion.Dependencies
import MetricSql.Proofs.Statement.Derived
import MetricSql.Proofs.Expansion.Retention
import MetricSql.Proofs.Statement.Permutation
import MetricSql.Proofs.Window.Requested
import MetricSql.Proofs.Query.Narrowing
import MetricSql.Proofs.Query.Pinned
import MetricSql.Proofs.Expression.Tokens
import MetricSql.Proofs.Expression.Replacement
import MetricSql.Proofs.Expression.Nesting
import MetricSql.Proofs.Expression.Parentheses
import MetricSql.Proofs.Json.Scalars
import MetricSql.Proofs.Json.Reading
import MetricSql.Proofs.Json.KeyOrder
import MetricSql.Proofs.Query.ReadBack
import MetricSql.Proofs.Window.Partition
import MetricSql.Proofs.Window.Clamping
import MetricSql.Proofs.Window.BoundTexts
import MetricSql.Proofs.Expansion.Merging
import MetricSql.Proofs.Expansion.Reports
import MetricSql.Proofs.Expansion.Spelling
import MetricSql.Proofs.Expression.Boundaries
import MetricSql.Proofs.Expression.QuotedNames
import MetricSql.Proofs.Expansion.NativeNames
import MetricSql.Proofs.Schema.Merged
import MetricSql.Proofs.Disk.Listing
import MetricSql.Proofs.Disk.Matching
import MetricSql.Proofs.Schema.Loading
import MetricSql.Proofs.Json.NumberForm
import MetricSql.Proofs.Query.Predicates
import MetricSql.Proofs.Query.Conditions
import MetricSql.Proofs.Text.Runs
import MetricSql.Proofs.Query.Arguments
import MetricSql.Proofs.Engine.VersionOrder
import MetricSql.Proofs.Engine.Components
import MetricSql.Proofs.Engine.Support
import MetricSql.Proofs.Calendar.YearOrder
import MetricSql.Proofs.Window.MonthRange

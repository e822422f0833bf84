import MetricSql.Json.Printer
import MetricSql.Query.Basic
import MetricSql.Text.Literal
import MetricSql.Text.Number

namespace MetricSql

open Text

/-- Whether a text is a number without any letters. Those outside ASCII are in no number, and need
not be looked for. -/
def isNumeric (s : List Char) : Bool := !s.isEmpty && !s.any Char.isAlpha && isFloat s

namespace Aggregator

/-- An argument stands bare when it is the column or a number, and as a literal otherwise. -/
def argText (a : Aggregator) (arg : String) : String :=
  if arg = a.column ∨ isNumeric arg.toList then arg else literal arg

def text (a : Aggregator) : String :=
  if a.func = .countDistinct then "count(distinct " ++ a.column ++ ") AS " ++ a.column ++ " "
  else
    let args := if a.args = [] then a.column else ",".intercalate (a.args.map a.argText)
    a.func.name ++ "( " ++ args ++ " ) AS " ++ a.column ++ " "

end Aggregator

def SortDirection.text : SortDirection → String
  | asc => "ASC"
  | desc => "DESC"

namespace Query

def joinItems (groups aggs : List String) : String := ",".intercalate (groups ++ aggs)

def selectText (q : Query) (derived : String → Option String) : String :=
  joinItems q.groups (q.aggregators.map fun a => (derived a.column).getD a.text)

def groupByText (q : Query) : String :=
  if q.groups = [] then "" else "group by " ++ ",".intercalate q.groups

def orderByText (q : Query) (derived : String → Option String) : String :=
  if q.orders = [] then ""
  else "order by " ++ ",".intercalate
    (q.orders.map fun o => (derived o.column).getD o.column ++ " " ++ o.direction.text)

def limitText (q : Query) : String :=
  match q.limit with
  | some n => if 0 < n.toInt then " limit " ++ .ofList (Json.intChars n.toInt) else ""
  | none => ""

/-- What follows the first double underscore, which ends the name of a joined model. -/
def fieldPart? : List Char → Option (List Char)
  | '_' :: '_' :: r => some r
  | _ :: r => fieldPart? r
  | [] => none

def fieldName (group : String) : String :=
  match fieldPart? group.toList with
  | some r => .ofList r
  | none => group

def unionSelectText (q : Query) : String :=
  joinItems (q.groups.map fieldName)
    (q.aggregators.mapIdx fun i a => a.column ++ " as value" ++ .ofList (Nat.toDigits 10 (i + 1)))

end Query

end MetricSql

import MetricSql.Window.Recent

namespace MetricSql

open Text

def laterBound : Option String → Option String → Option String
  | some a, some b => some (greater a b)
  | some a, none => some a
  | none, b => b

def earlierBound : Option String → Option String → Option String
  | some a, some b => some (lesser a b)
  | some a, none => some a
  | none, b => b

def Availability.admits (a : Availability) (d : String) : Bool :=
  (given? a.startDate).all (· ≤ d) && (given? a.endDate).all (d ≤ ·)

namespace DateRules

variable (r : DateRules) (w : Window)

def listWhere : Option DatePredicate :=
  let col := r.column w
  if col = "" ∨ w.dateList = [] then none else some (.oneOf col w.dateList)

def betweenWhere : Option DatePredicate :=
  let col := r.column w
  match w.startDate, w.endDate with
  | some start, some stop => if col = "" then none else some (.between col start stop)
  | _, _ => none

def restrictedWhere (a : Availability) : Option DatePredicate :=
  let col := r.column w
  if col = "" then none
  else
    match w.mode with
    | .between =>
      match laterBound w.startDate (given? a.startDate),
          earlierBound w.endDate (given? a.endDate) with
      | some start, some stop =>
        if start ≤ stop then some (.between col start stop) else some .never
      | _, _ => r.recentWhere a w
    | .list =>
      let dates := w.dateList.filter a.admits
      if dates = [] then some .never else some (.oneOf col dates)
    | .recent | .available => r.recentWhere a w

/-- The recent window, within the available days when there are any known. -/
def availableWhere (a : Option Availability) : Option DatePredicate :=
  match a.filter (!·.isEmpty) with
  | some a => r.recentWhere a w
  | none => r.defaultRecent w

/-- The condition for a window. Known availability restricts every mode. -/
def dateWhere (a : Option Availability) : Option DatePredicate :=
  match a.filter (!·.isEmpty) with
  | some a => r.restrictedWhere w a
  | none =>
    match w.mode with
    | .list => r.listWhere w
    | .between => r.betweenWhere w
    | .available => r.availableWhere w a
    | .recent => r.defaultRecent w

end DateRules

end MetricSql

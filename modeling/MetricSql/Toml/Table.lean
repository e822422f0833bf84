namespace MetricSql.Toml

/-- How a table came into being: by its own header, as part of the path of a longer one, by a
dotted key, or between braces. -/
inductive Origin
  | header
  | implied
  | dotted
  | inline
  deriving DecidableEq

inductive Value
  | text (s : String)
  | integer (n : Int)
  | bool (b : Bool)
  | real
  | dateTime
  | array (items : List Value)
  | table (origin : Origin) (entries : List (String × Value))
  | tables (elements : List Value)

abbrev Entries := List (String × Value)

namespace Entries

def put (k : String) (v : Value) : Entries → Entries
  | [] => [(k, v)]
  | e :: r => if e.1 = k then (k, v) :: r else e :: put k v r

/-- Changes what stands at a path of headers, which is not empty. Tables on the way are made where
they are missing, and of an array of tables it is the last one that counts. -/
def alterHeader? (change : Option Value → Option Value) : List String → Entries → Option Entries
  | [], _ => none
  | [k], es => (change (es.lookup k)).map fun v => put k v es
  | k :: path, es =>
    match es.lookup k with
    | none => (alterHeader? change path []).map fun sub => put k (.table .implied sub) es
    | some (.table .inline _) => none
    | some (.table o sub) => (alterHeader? change path sub).map fun sub => put k (.table o sub) es
    | some (.tables elements) =>
      match elements.getLast? with
      | some (.table o sub) =>
        (alterHeader? change path sub).map fun sub =>
          put k (.tables (elements.dropLast ++ [.table o sub])) es
      | _ => none
    | some _ => none

/-- Assigns a value to a dotted key. The table that takes it has to be made by dotted keys, and those
on the way may have no header of their own. -/
def assign? (v : Value) : List String → Entries → Option Entries
  | [], _ => none
  | [k], es => if (es.lookup k).isSome then none else some (put k v es)
  | k :: path, es =>
    match es.lookup k with
    | none => (assign? v path []).map fun sub => put k (.table .dotted sub) es
    | some (.table o sub) =>
      if o = .dotted ∨ (o = .implied ∧ path.length ≠ 1) then
        (assign? v path sub).map fun sub => put k (.table o sub) es
      else none
    | some (.tables elements) =>
      match elements.getLast? with
      | some (.table o sub) =>
        if path.length ≠ 1 then
          (assign? v path sub).map fun sub =>
            put k (.tables (elements.dropLast ++ [.table o sub])) es
        else none
      | _ => none
    | some _ => none

def openTable? (path : List String) (es : Entries) : Option Entries :=
  alterHeader?
    (fun
      | none => some (.table .header [])
      | some (.table .implied sub) => some (.table .header sub)
      | some _ => none)
    path es

def openElement? (path : List String) (es : Entries) : Option Entries :=
  alterHeader?
    (fun
      | none => some (.tables [.table .header []])
      | some (.tables elements) => some (.tables (elements ++ [.table .header []]))
      | some _ => none)
    path es

def assignUnder? (header path : List String) (v : Value) (es : Entries) : Option Entries :=
  if header = [] then assign? v path es
  else
    alterHeader?
      (fun
        | some (.table o sub) => (assign? v path sub).map (.table o)
        | some (.tables elements) =>
          match elements.getLast? with
          | some (.table o sub) =>
            (assign? v path sub).map fun sub => .tables (elements.dropLast ++ [.table o sub])
          | _ => none
        | _ => none)
      header es

end Entries

inductive Statement
  | assign (path : List String) (v : Value)
  | openTable (path : List String)
  | openElement (path : List String)

def Entries.ofStatements? : (header : List String) → Entries → List Statement → Option Entries
  | _, es, [] => some es
  | header, es, .assign path v :: r => do ofStatements? header (← assignUnder? header path v es) r
  | _, es, .openTable path :: r => do ofStatements? path (← openTable? path es) r
  | _, es, .openElement path :: r => do ofStatements? path (← openElement? path es) r

end MetricSql.Toml

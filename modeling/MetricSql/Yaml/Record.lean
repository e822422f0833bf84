import MetricSql.Data.Node
import MetricSql.Yaml.Node

namespace MetricSql.Yaml.Located

variable (l : Located)

/-- The nodes with the number of an alias; the one that begins last is what it stands for. -/
def target? (number : Nat) : Option Node :=
  let found := l.anchored.filter (·.number = number)
  let last := found.foldl (fun n a => max n a.order) 0
  (found.find? (·.order = last)).map (·.node)

def resolved : Node :=
  match l.node with
  | .alias number => (l.target? number).getD .empty
  | n => n

def withNode (n : Node) : Located := { l with node := n }

def text? : Option String :=
  match l.resolved with
  | .scalar _ _ text => some text
  | _ => none

def items? : Option (List Located) :=
  match l.resolved with
  | .sequence items => some (items.map l.withNode)
  | .scalar _ true "" => some []
  | _ => none

def isNullText (s : String) : Bool := s == "null" || s == "Null" || s == "NULL" || s == "~"

def nullTag : TagText := .ofString "tag:yaml.org,2002:null"

/-- A tag can say that a value is null; the text then has to say so too. -/
def isAbsent? : Option Bool :=
  match l.resolved with
  | .scalar none true text => some (text == "" || isNullText text)
  | .scalar (some tag) true text =>
    if tag ≠ nullTag then some false else if isNullText text then some true else none
  | _ => some false

def tagName? : TagText → Option String
  | [] => none
  | b :: r =>
    if b = '!'.toUInt8 then String.fromUTF8? ⟨(if r = [] then [b] else r).toArray⟩ else none

def choice? : Option String :=
  match l.resolved with
  | .scalar tag plain text =>
    match tag.bind tagName? with
    | some name => if plain && (text == "" || isNullText text) then some name else none
    | none => some text
  | _ => none

def addFields? (names : List String) (closed : Bool) :
    (done : List (String × Located)) → List (Node × Node) → Option (List (String × Located))
  | done, [] => some done
  | done, (k, v) :: r => do
    let done ← DataNode.addField? names closed done (← (l.withNode k).text?) (l.withNode v)
    addFields? names closed done r

def fields? (names : List String) (closed : Bool) : Option (Fields Located) :=
  match l.resolved with
  | .mapping entries => (l.addFields? names closed [] entries).map (⟨·, false⟩)
  | .scalar _ true "" => some ⟨[], false⟩
  | _ => none

instance : DataNode Located :=
  ⟨text?, fun _ => none, items?, choice?, isAbsent?, fun names closed l => l.fields? names closed⟩

end MetricSql.Yaml.Located

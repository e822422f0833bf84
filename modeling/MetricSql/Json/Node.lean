import MetricSql.Data.Node
import MetricSql.Json.Tree

namespace MetricSql.Json.Tree

def text? : Tree → Option String
  | text s => s
  | _ => none

def items? : Tree → Option (List Tree)
  | array items => some items
  | _ => none

/-- A choice is written as its name, or as an object with that name and nothing else. -/
def choice? : Tree → Option String
  | text s => s
  | object [(k, null)] => k
  | _ => none

def isAbsent? : Tree → Option Bool
  | null => some true
  | _ => some false

/-- An integer has neither fraction nor exponent, and minus zero is none. -/
def integer? : Tree → Option Int
  | number l =>
    let n := Nat.ofDigitChars 10 l.whole 0
    if !l.fraction.isEmpty || l.exponent.isSome || (l.negative && n == 0) then none
    else some (if l.negative then -n else n)
  | _ => none

def addFields? (names : List String) (closed : Bool) :
    (done : List (String × Tree)) → List (Option String × Tree) → Option (List (String × Tree))
  | done, [] => some done
  | _, (none, _) :: _ => none
  | done, (some k, t) :: r => do
    let done ← DataNode.addField? names closed done k t
    addFields? names closed done r

/-- A record is written as an object, or as an array of its fields in order. -/
def fields? (names : List String) (closed : Bool) : Tree → Option (Fields Tree)
  | object fields => (addFields? names closed [] fields).map (⟨·, false⟩)
  | array items => if names.length < items.length then none else some ⟨names.zip items, true⟩
  | _ => none

instance : DataNode Tree := ⟨text?, integer?, items?, choice?, isAbsent?, fields?⟩

end MetricSql.Json.Tree

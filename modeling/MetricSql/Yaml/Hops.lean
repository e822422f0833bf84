import MetricSql.Yaml.Record

namespace MetricSql.Yaml

namespace Node

mutual

def size : Node → Nat
  | .scalar _ _ _ => 1
  | .sequence items => itemsSize items + 2
  | .mapping entries => entriesSize entries + 2
  | .alias _ => 1

def itemsSize : List Node → Nat
  | [] => 0
  | n :: r => size n + itemsSize r

def entriesSize : List (Node × Node) → Nat
  | [] => 0
  | (k, v) :: r => size k + size v + entriesSize r

end

end Node

namespace Located

variable (l : Located)

/-- How often an alias is followed where a value is read that is no collection. -/
def hops : Nat :=
  match l.node with
  | .alias _ => 1
  | _ => 0

def listHops (item : Located → Nat) : Nat :=
  l.hops + ((l.items?.getD []).map item).foldr (· + ·) 0

def recordHops (fields : List (String × (Located → Nat))) : Nat :=
  let entryHops (e : Node × Node) :=
    let key := l.withNode e.1
    match key.text?.bind (List.lookup · fields) with
    | some value => key.hops + value (l.withNode e.2)
    | none => key.hops
  match l.resolved with
  | .mapping entries => l.hops + (entries.map entryHops).foldr (· + ·) 0
  | _ => l.hops

/-- How often aliases may be followed in all, which keeps a short text from standing for a huge value. -/
def hopLimit : Nat := 100 * l.node.size

end Located

end MetricSql.Yaml

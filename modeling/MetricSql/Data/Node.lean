import MetricSql.Data.Named

namespace MetricSql

variable {α ν : Type}

/-- The fields of a record in a data format. In a positional record the last ones may be missing. -/
structure Fields (ν : Type) where
  entries : List (String × ν)
  positional : Bool

class DataNode (ν : Type) where
  text? : ν → Option String
  integer? : ν → Option Int
  items? : ν → Option (List ν)
  /-- The name of a value that stands for one of finitely many. -/
  choice? : ν → Option String
  /-- Whether the value of an optional field means that there is none, unless it cannot stand there. -/
  isAbsent? : ν → Option Bool
  /-- The fields of a record of which the names are known. A closed record has no others. -/
  fields? : (names : List String) → (closed : Bool) → ν → Option (Fields ν)

namespace Fields

variable [DataNode ν] (f : Fields ν)

def find? (name : String) : Option ν := f.entries.lookup name

def required (name : String) (read : ν → Option α) : Option α := (f.find? name).bind read

def withDefault (name : String) (default : α) (read : ν → Option α) : Option α :=
  match f.find? name with
  | some n => read n
  | none => some default

def optional (name : String) (read : ν → Option α) : Option (Option α) :=
  match f.find? name with
  | some n => do if ← DataNode.isAbsent? n then return none else return some (← read n)
  | none => if f.positional then none else some none

end Fields

namespace DataNode

variable [DataNode ν]

def list? (read : ν → Option α) (n : ν) : Option (List α) := (items? n).bind (List.mapM read)

def texts? (n : ν) : Option (List String) := list? text? n

def named? [Named α] (n : ν) : Option α := (choice? n).bind ofName?

def word32? (n : ν) : Option UInt32 :=
  (integer? n).bind fun i => if 0 ≤ i ∧ i < Int.pow 2 32 then some (.ofNat i.toNat) else none

def int64? (n : ν) : Option Int64 :=
  (integer? n).bind fun i =>
    if -Int.pow 2 63 ≤ i ∧ i < Int.pow 2 63 then some (.ofInt i) else none

/-- Adds a field to those of a record, unless it repeats one or may not be there. -/
def addField? (names : List String) (closed : Bool) (done : List (String × ν)) (k : String) (n : ν) :
    Option (List (String × ν)) :=
  if names.contains k then
    if (done.lookup k).isSome then none else some (done ++ [(k, n)])
  else if closed then none
  else some done

end DataNode

end MetricSql

import MetricSql.Disk.Basic

namespace MetricSql

inductive GlobToken
  | char (c : Char)
  | anyChar
  | anySequence
  | within (ranges : List (Char × Char))
  | except (ranges : List (Char × Char))
  deriving DecidableEq

/-- A pattern for one name of a path, or for any number of directories. -/
inductive GlobPart
  | name (tokens : List GlobToken)
  | recursive
  deriving DecidableEq

namespace Glob

def classRanges : List Char → List (Char × Char)
  | a :: '-' :: b :: r => (a, b) :: classRanges r
  | a :: r => (a, a) :: classRanges r
  | [] => []

/-- The text of a class and what follows it. The class has at least one character, which may be a
closing bracket. -/
def splitClass? : List Char → Option (List Char × List Char)
  | [] => none
  | c :: r =>
    match r.dropWhile (· != ']') with
    | [] => none
    | _ :: rest => some (c :: r.takeWhile (· != ']'), rest)

/-- Reads a pattern for a name, in which no two stars may follow one another. -/
def readTokens? : (fuel : Nat) → List Char → Option (List GlobToken)
  | 0, _ => none
  | _ + 1, [] => some []
  | _ + 1, '*' :: '*' :: _ => none
  | fuel + 1, '*' :: r => (readTokens? fuel r).map (.anySequence :: ·)
  | fuel + 1, '?' :: r => (readTokens? fuel r).map (.anyChar :: ·)
  | fuel + 1, '[' :: '!' :: r => do
    let (text, rest) ← splitClass? r
    return .except (classRanges text) :: (← readTokens? fuel rest)
  | fuel + 1, '[' :: r => do
    let (text, rest) ← splitClass? r
    return .within (classRanges text) :: (← readTokens? fuel rest)
  | fuel + 1, c :: r => (readTokens? fuel r).map (.char c :: ·)

def readPart? (s : List Char) : Option GlobPart :=
  if s = ['*', '*'] then some .recursive else (readTokens? (s.length + 1) s).map .name

def read? (s : String) : Option (List GlobPart) :=
  (Disk.splitPath s).mapM fun part => readPart? part.toList

def inRanges (c : Char) (ranges : List (Char × Char)) : Bool :=
  ranges.any fun r => r.1 ≤ c && c ≤ r.2

def accepts : List GlobToken → List Char → Bool
  | [], s => s.isEmpty
  | .anySequence :: ts, [] => accepts ts []
  | .anySequence :: ts, c :: s => accepts ts (c :: s) || accepts (.anySequence :: ts) s
  | .char a :: ts, c :: s => a == c && accepts ts s
  | .anyChar :: ts, _ :: s => accepts ts s
  | .within ranges :: ts, c :: s => inRanges c ranges && accepts ts s
  | .except ranges :: ts, c :: s => !inRanges c ranges && accepts ts s
  | _ :: _, [] => false
termination_by ts s => ts.length + s.length

def fixedChar? : GlobToken → Option Char
  | .char c => some c
  | _ => none

def fixedName? (ts : List GlobToken) : Option String :=
  (ts.mapM fixedChar?).map String.ofList

/-- The names for the directory itself and the one around it, where a pattern begins with a dot. -/
def dotNames (ts : List GlobToken) : List String :=
  if ts.head? = some (.char '.') then ["..", "."].filter fun n => accepts ts n.toList else []

variable (d : Disk)

def follow? (p : Path) (name : String) : Option Path :=
  match d.walk p [name] with
  | .ok q => if (d.entry? q).isSome then some q else none
  | .error _ => none

mutual

def search : (fuel : Nat) → List GlobPart → Path → List Path
  | 0, _, _ => []
  | _ + 1, [], p => [p]
  | fuel + 1, .recursive :: parts, p =>
    if d.isDirectory p then
      (d.children p).flatMap fun name => searchBelow fuel parts (p ++ [name])
    else []
  | fuel + 1, .name ts :: parts, p =>
    match fixedName? ts with
    | some name =>
      match follow? d p name with
      | some q => search fuel parts q
      | none => []
    | none =>
      if d.isDirectory p then
        ((dotNames ts).filterMap (follow? d p)).flatMap (search fuel parts) ++
          ((d.children p).filter fun name => accepts ts name.toList).flatMap fun name =>
            search fuel parts (p ++ [name])
      else []

def searchBelow : (fuel : Nat) → List GlobPart → Path → List Path
  | 0, _, _ => []
  | fuel + 1, parts, p =>
    let here :=
      match parts.dropWhile (· == .recursive) with
      | .name ts :: rest =>
        if accepts ts (p.getLast?.getD "").toList then search fuel rest p else []
      | _ => []
    here ++
      if d.isDirectory p then
        (d.children p).flatMap fun name => searchBelow fuel parts (p ++ [name])
      else []

end

/-- Whether an empty name follows dots at the start of a pattern. Such a pattern leads nowhere. -/
def startsEmpty : List GlobPart → Bool
  | .name [.char '.'] :: .name [] :: _ => true
  | .name [.char '.'] :: r => startsEmpty r
  | _ => false

def expand (parts : List GlobPart) : List Path :=
  if startsEmpty parts then []
  else search d ((parts.length + 2) * (d.entries.length + 2)) parts []

end Glob

end MetricSql

import MetricSql.Toml.Scalar
import MetricSql.Toml.Text

namespace MetricSql.Toml

def isBareKeyChar (c : Char) : Bool := c.isAlphanum || c == '-' || c == '_'

def readKeyPart (s : List Char) : Option (String × List Char) :=
  match s with
  | '"' :: r => (readBasic (s.length + 1) r).map fun p => (.ofList p.1, p.2)
  | '\'' :: r => (readLiteral r).map fun p => (.ofList p.1, p.2)
  | s =>
    let name := s.takeWhile isBareKeyChar
    if name.isEmpty then none else some (.ofList name, s.dropWhile isBareKeyChar)

def readParts : (fuel : Nat) → List Char → Option (List String × List Char)
  | 0, _ => none
  | fuel + 1, s => do
    let (part, s) ← readKeyPart (skipSpace s)
    match skipSpace s with
    | '.' :: r =>
      let (parts, s) ← readParts fuel r
      return (part :: parts, s)
    | s => return ([part], s)

/-- Values may nest, and keys may have parts, less often than this. -/
def nestingLimit : Nat := 80

def readKey (s : List Char) : Option (List String × List Char) := do
  let (path, s) ← readParts (s.length + 1) s
  if path.length < nestingLimit then return (path, s) else none

mutual

def readValue : (fuel depth : Nat) → List Char → Option (Value × List Char)
  | 0, _, _ => none
  | _ + 1, _, [] => none
  | fuel + 1, depth, c :: r =>
    if c = '"' ∨ c = '\'' then (readString (c :: r)).map fun p => (.text p.1, p.2)
    else if c = '[' then
      if depth + 1 < nestingLimit then
        (readItems fuel (depth + 1) r).map fun p => (.array p.1, p.2)
      else none
    else if c = '{' then
      if depth + 1 < nestingLimit then
        match skipSpace r with
        | '}' :: r => some (.table .inline [], r)
        | _ => (readPairs fuel (depth + 1) [] r).map fun p => (.table .inline p.1, p.2)
      else none
    else readScalar (c :: r)

/-- Reads the items of an array and its closing bracket; a comma may stand in front of that. -/
def readItems : (fuel depth : Nat) → List Char → Option (List Value × List Char)
  | 0, _, _ => none
  | fuel + 1, depth, s => do
    let s ← skipLines? (s.length + 1) s
    match s with
    | ']' :: r => return ([], r)
    | s =>
      let (item, s) ← readValue fuel depth s
      let s ← skipLines? (s.length + 1) s
      match s with
      | ',' :: r =>
        let (items, s) ← readItems fuel depth r
        return (item :: items, s)
      | ']' :: r => return ([item], r)
      | _ => none

def readPairs : (fuel depth : Nat) → Entries → List Char → Option (Entries × List Char)
  | 0, _, _, _ => none
  | fuel + 1, depth, done, s => do
    let (path, s) ← readKey s
    let '=' :: r := s | none
    let (v, s) ← readValue fuel depth (skipSpace r)
    let done ← done.assign? v path
    match skipSpace s with
    | ',' :: r => readPairs fuel depth done r
    | '}' :: r => return (done, r)
    | _ => none

end

def readStatement (s : List Char) : Option (Statement × List Char) :=
  match s with
  | '[' :: '[' :: r => do
    let (path, s) ← readKey r
    let ']' :: ']' :: r := s | none
    return (.openElement path, ← endLine? r)
  | '[' :: r => do
    let (path, s) ← readKey r
    let ']' :: r := s | none
    return (.openTable path, ← endLine? r)
  | s => do
    let (path, s) ← readKey s
    let '=' :: r := s | none
    let (v, s) ← readValue (2 * s.length + 2) 0 (skipSpace r)
    return (.assign path v, ← endLine? s)

def readStatements : (fuel : Nat) → List Char → Option (List Statement)
  | 0, _ => none
  | fuel + 1, s => do
    let s ← skipLines? (s.length + 1) s
    if s.isEmpty then return []
    else
      let (statement, s) ← readStatement s
      return statement :: (← readStatements fuel s)

def dropMark : List Char → List Char
  | '\ufeff' :: r => r
  | r => r

def Entries.ofText? (s : String) : Option Entries := do
  let s := dropMark s.toList
  ofStatements? [] [] (← readStatements (s.length + 1) s)

end MetricSql.Toml

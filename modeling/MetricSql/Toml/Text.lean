import MetricSql.Json.Reader

namespace MetricSql.Toml

open Json (hexNumber?)

def isSpace (c : Char) : Bool := c == ' ' || c == '\t'

def skipSpace (s : List Char) : List Char := s.dropWhile isSpace

def newline? : List Char → Option (List Char)
  | '\n' :: r => some r
  | '\r' :: '\n' :: r => some r
  | _ => none

def skipBreaks : (fuel : Nat) → List Char → List Char
  | 0, s => s
  | fuel + 1, s =>
    match newline? (skipSpace s) with
    | some r => skipBreaks fuel r
    | none => skipSpace s

def isPrintable (c : Char) : Bool := c == '\t' || (0x20 ≤ c.toNat && c.toNat != 0x7F)

def skipComment? : List Char → Option (List Char)
  | '#' :: r =>
    let rest := r.dropWhile isPrintable
    if rest.isEmpty || (newline? rest).isSome then some rest else none
  | r => some r

def skipLines? : (fuel : Nat) → List Char → Option (List Char)
  | 0, _ => none
  | fuel + 1, s => do
    let s ← skipComment? (skipSpace s)
    match newline? s with
    | some r => skipLines? fuel r
    | none => return s

def endLine? (s : List Char) : Option (List Char) := do
  let s ← skipComment? (skipSpace s)
  if s.isEmpty then return s else newline? s

def charOf? (n : Nat) : Option Char := if n.isValidChar then some (Char.ofNat n) else none

def readEscape : List Char → Option (Char × List Char)
  | 'b' :: r => some ('\x08', r)
  | 't' :: r => some ('\t', r)
  | 'n' :: r => some ('\n', r)
  | 'f' :: r => some ('\x0c', r)
  | 'r' :: r => some ('\r', r)
  | '"' :: r => some ('"', r)
  | '\\' :: r => some ('\\', r)
  | 'u' :: r =>
    if r.length < 4 then none
    else ((hexNumber? (r.take 4)).bind charOf?).map fun c => (c, r.drop 4)
  | 'U' :: r =>
    if r.length < 8 then none
    else ((hexNumber? (r.take 8)).bind charOf?).map fun c => (c, r.drop 8)
  | _ => none

def readBasic : (fuel : Nat) → List Char → Option (List Char × List Char)
  | 0, _ => none
  | _ + 1, [] => none
  | _ + 1, '"' :: r => some ([], r)
  | fuel + 1, '\\' :: r => do
    let (c, r) ← readEscape r
    let (text, r) ← readBasic fuel r
    return (c :: text, r)
  | fuel + 1, c :: r =>
    if isPrintable c then do
      let (text, r) ← readBasic fuel r
      return (c :: text, r)
    else none

def readLiteral : List Char → Option (List Char × List Char)
  | [] => none
  | c :: r =>
    if c = '\'' then some ([], r)
    else if isPrintable c then do
      let (text, r) ← readLiteral r
      return (c :: text, r)
    else none

/-- Up to two quotes may stand in front of the three that close a long string. -/
def readExtraQuotes (q : Char) : List Char → List Char × List Char
  | a :: b :: r => if a = q then if b = q then ([a, b], r) else ([a], b :: r) else ([], a :: b :: r)
  | [a] => if a = q then ([a], []) else ([], [a])
  | [] => ([], [])

def startsWithThree (q : Char) (s : List Char) : Bool := [q, q, q].isPrefixOf s

/-- Reads a long basic string. A backslash at the end of a line drops all blanks after it. -/
def readLongBasic : (fuel : Nat) → List Char → Option (List Char × List Char)
  | 0, _ => none
  | _ + 1, [] => none
  | fuel + 1, c :: r =>
    if startsWithThree '"' (c :: r) then some (readExtraQuotes '"' (r.drop 2))
    else if c = '\\' then
      match newline? (skipSpace r) with
      | some r => readLongBasic fuel (skipBreaks r.length r)
      | none => do
        let (c, r) ← readEscape r
        let (text, r) ← readLongBasic fuel r
        return (c :: text, r)
    else
      match newline? (c :: r) with
      | some r => do
        let (text, r) ← readLongBasic fuel r
        return ('\n' :: text, r)
      | none =>
        if isPrintable c then do
          let (text, r) ← readLongBasic fuel r
          return (c :: text, r)
        else none

def readLongLiteral : (fuel : Nat) → List Char → Option (List Char × List Char)
  | 0, _ => none
  | _ + 1, [] => none
  | fuel + 1, c :: r =>
    if startsWithThree '\'' (c :: r) then some (readExtraQuotes '\'' (r.drop 2))
    else
      match newline? (c :: r) with
      | some r => do
        let (text, r) ← readLongLiteral fuel r
        return ('\n' :: text, r)
      | none =>
        if isPrintable c then do
          let (text, r) ← readLongLiteral fuel r
          return (c :: text, r)
        else none

def dropFirstBreak (s : List Char) : List Char := (newline? s).getD s

def readString (s : List Char) : Option (String × List Char) :=
  let found :=
    if startsWithThree '"' s then readLongBasic (s.length + 1) (dropFirstBreak (s.drop 3))
    else if startsWithThree '\'' s then readLongLiteral (s.length + 1) (dropFirstBreak (s.drop 3))
    else
      match s with
      | '"' :: r => readBasic (s.length + 1) r
      | '\'' :: r => readLiteral r
      | _ => none
  found.map fun p => (.ofList p.1, p.2)

end MetricSql.Toml

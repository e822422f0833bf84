import MetricSql.Json.Tree

namespace MetricSql.Json

def isSpace (c : Char) : Bool := c == ' ' || c == '\t' || c == '\n' || c == '\r'

def skipSpace (s : List Char) : List Char := s.dropWhile isSpace

inductive StringUnit
  | char (c : Char)
  | escaped (n : Nat)

def hexValue? (c : Char) : Option Nat :=
  if c.isDigit then some (c.toNat - '0'.toNat)
  else if 'a' ≤ c ∧ c ≤ 'f' then some (c.toNat - 'a'.toNat + 10)
  else if 'A' ≤ c ∧ c ≤ 'F' then some (c.toNat - 'A'.toNat + 10)
  else none

def hexNumber? (digits : List Char) : Option Nat :=
  digits.foldlM (fun n c => (hexValue? c).map (16 * n + ·)) 0

def simpleEscape? (c : Char) : Option Char :=
  if c = '"' ∨ c = '\\' ∨ c = '/' then some c
  else if c = 'b' then some '\x08'
  else if c = 'f' then some '\x0c'
  else if c = 'n' then some '\n'
  else if c = 'r' then some '\r'
  else if c = 't' then some '\t'
  else none

/-- Reads up to the closing quote. Control characters have to be escaped. -/
def readUnits : List Char → Option (List StringUnit × List Char)
  | [] => none
  | '"' :: r => some ([], r)
  | '\\' :: 'u' :: a :: b :: c :: d :: r => do
    let n ← hexNumber? [a, b, c, d]
    let (units, rest) ← readUnits r
    return (.escaped n :: units, rest)
  | '\\' :: c :: r => do
    let e ← simpleEscape? c
    let (units, rest) ← readUnits r
    return (.char e :: units, rest)
  | c :: r =>
    if c.toNat < 0x20 ∨ c = '\\' then none
    else do
      let (units, rest) ← readUnits r
      return (.char c :: units, rest)

def isHighSurrogate (n : Nat) : Bool := 0xD800 ≤ n && n < 0xDC00

def isLowSurrogate (n : Nat) : Bool := 0xDC00 ≤ n && n < 0xE000

/-- Joins surrogates that follow one another; one that is left alone is an error. -/
def joinUnits : List StringUnit → Option (List Char)
  | [] => some []
  | .char c :: r => (joinUnits r).map (c :: ·)
  | .escaped h :: .escaped l :: r =>
    if isHighSurrogate h then
      if isLowSurrogate l then
        (joinUnits r).map (Char.ofNat (0x10000 + (h - 0xD800) * 0x400 + (l - 0xDC00)) :: ·)
      else none
    else if isLowSurrogate h then none
    else (joinUnits (.escaped l :: r)).map (Char.ofNat h :: ·)
  | .escaped n :: r =>
    if isHighSurrogate n || isLowSurrogate n then none
    else (joinUnits r).map (Char.ofNat n :: ·)

def readString (s : List Char) : Option (Option String × List Char) :=
  (readUnits s).map fun p => ((joinUnits p.1).map String.ofList, p.2)

def takeDigits (s : List Char) : List Char × List Char :=
  (s.takeWhile Char.isDigit, s.dropWhile Char.isDigit)

def readSign : List Char → Bool × List Char
  | '-' :: r => (true, r)
  | r => (false, r)

def readFraction : List Char → Option (List Char × List Char)
  | '.' :: r => let (d, r) := takeDigits r; if d.isEmpty then none else some (d, r)
  | r => some ([], r)

def readExponent : List Char → Option (Option (Bool × List Char) × List Char)
  | [] => some (none, [])
  | c :: r =>
    if c = 'e' ∨ c = 'E' then
      let (negative, r) :=
        match r with
        | '+' :: r => (false, r)
        | r => readSign r
      let (d, r) := takeDigits r
      if d.isEmpty then none else some (some (negative, d), r)
    else some (none, c :: r)

/-- Reads a number. No zero may stand in front of other digits. -/
def readNumber (s : List Char) : Option (Lexeme × List Char) := do
  let (negative, s) := readSign s
  let (whole, s) := takeDigits s
  if whole.isEmpty || (whole.head? == some '0' && whole.length != 1) then none
  else
    let (fraction, s) ← readFraction s
    let (exponent, s) ← readExponent s
    return (⟨negative, whole, fraction, exponent⟩, s)

mutual

def readTree : (fuel : Nat) → List Char → Option (Tree × List Char)
  | 0, _ => none
  | _ + 1, [] => none
  | fuel + 1, c :: r =>
    if c = '"' then (readString r).map fun p => (.text p.1, p.2)
    else if c = '[' then
      match skipSpace r with
      | ']' :: r => some (.array [], r)
      | r => (readItems fuel r).map fun p => (.array p.1, p.2)
    else if c = '{' then
      match skipSpace r with
      | '}' :: r => some (.object [], r)
      | r => (readFields fuel r).map fun p => (.object p.1, p.2)
    else if "null".toList.isPrefixOf (c :: r) then some (.null, r.drop 3)
    else if "true".toList.isPrefixOf (c :: r) then some (.bool true, r.drop 3)
    else if "false".toList.isPrefixOf (c :: r) then some (.bool false, r.drop 4)
    else (readNumber (c :: r)).map fun p => (.number p.1, p.2)

def readItems : (fuel : Nat) → List Char → Option (List Tree × List Char)
  | 0, _ => none
  | fuel + 1, s => do
    let (item, s) ← readTree fuel s
    match skipSpace s with
    | ',' :: r =>
      let (items, s) ← readItems fuel (skipSpace r)
      return (item :: items, s)
    | ']' :: r => return ([item], r)
    | _ => none

def readFields : (fuel : Nat) → List Char → Option (List (Option String × Tree) × List Char)
  | 0, _ => none
  | fuel + 1, s => do
    let '"' :: r := s | none
    let (key, s) ← readString r
    let ':' :: r := skipSpace s | none
    let (item, s) ← readTree fuel (skipSpace r)
    match skipSpace s with
    | ',' :: r =>
      let (fields, s) ← readFields fuel (skipSpace r)
      return ((key, item) :: fields, s)
    | '}' :: r => return ([(key, item)], r)
    | _ => none

end

def Tree.ofText? (s : String) : Option Tree :=
  match readTree (2 * s.length + 2) (skipSpace s.toList) with
  | some (t, r) => if (skipSpace r).isEmpty then some t else none
  | none => none

end MetricSql.Json

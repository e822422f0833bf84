import MetricSql.Json.Reader
import MetricSql.Yaml.Cursor
import MetricSql.Yaml.Token

namespace MetricSql.Yaml

open Json (hexNumber?)

def isTagChar (verbatim : Bool) (c : Char) : Bool :=
  isNameChar c || ";/?:@&=+$.%!~*'()".contains c || (verbatim && ",[]".contains c)

def byteCount? (n : Nat) : Option Nat :=
  if n < 0x80 then some 1
  else if 0xC0 ≤ n ∧ n < 0xE0 then some 2
  else if 0xE0 ≤ n ∧ n < 0xF0 then some 3
  else if 0xF0 ≤ n ∧ n < 0xF8 then some 4
  else none

def percentByte? : List Char → Option (Nat × List Char)
  | '%' :: a :: b :: r => (hexNumber? [a, b]).map (·, r)
  | _ => none

def laterBytes? : (count : Nat) → List Char → Option (List Nat × List Char)
  | 0, s => some ([], s)
  | k + 1, s => do
    let (n, s) ← percentByte? s
    if n / 64 ≠ 2 then none
    else
      let (ns, s) ← laterBytes? k s
      return (n :: ns, s)

/-- Reads bytes that belong together. Whether they are those of a character does not matter. -/
def percentBytes? (s : List Char) : Option (TagText × List Char) := do
  let (first, r) ← percentByte? s
  let (later, r) ← laterBytes? ((← byteCount? first) - 1) r
  return ((first :: later).map UInt8.ofNat, r)

def readTagText? (verbatim : Bool) : (fuel : Nat) → List Char → Option (TagText × List Char)
  | 0, _ => none
  | _ + 1, [] => some ([], [])
  | fuel + 1, c :: r =>
    if !isTagChar verbatim c then some ([], c :: r)
    else do
      let (head, r) ← if c = '%' then percentBytes? (c :: r) else some ([c.toUInt8], r)
      let (text, r) ← readTagText? verbatim fuel r
      return (head ++ text, r)

/-- Reads the text of a tag, which has at least one byte with what stands in front. A zero byte ends
it. -/
def readTagRest? (verbatim : Bool) (front : List Char) (p : Cursor) : Option (TagText × Cursor) := do
  let (text, r) ← readTagText? verbatim (p.rest.length + 1) p.rest
  if text.isEmpty && front.isEmpty then none
  else
    let text := ((front.drop 1).map Char.toUInt8 ++ text).takeWhile (· != 0)
    return (text, p.skip (p.rest.length - r.length))

def readHandle? (p : Cursor) : Option (List Char × Cursor) :=
  match p.rest with
  | '!' :: r =>
    let name := r.takeWhile isNameChar
    let q := p.skip (name.length + 1)
    if q.rest.head? = some '!' then some ('!' :: (name ++ ['!']), q.skip 1)
    else some ('!' :: name, q)
  | _ => none

def isHandle (s : List Char) : Bool := s.length ≥ 2 && s.getLast? == some '!'

def readTag? (inFlow : Bool) (p : Cursor) : Option (String × TagText × Cursor) := do
  let (handle, rest, q) ←
    if (p.rest.drop 1).head? = some '<' then do
      let (text, q) ← readTagRest? true [] (p.skip 2)
      if q.rest.head? = some '>' then some ("", text, q.skip 1) else none
    else do
      let (head, q) ← readHandle? p
      if isHandle head then do
        let (text, q) ← readTagRest? false [] q
        some (String.ofList head, text, q)
      else do
        let (text, q) ← readTagRest? false head q
        some (if text = [] then ("", .ofString "!", q) else ("!", text, q))
  if Cursor.endsWord q.rest || (inFlow && q.rest.head? == some ',') then return (handle, rest, q)
  else none

def readVersionPart? (p : Cursor) : Option (Nat × Cursor) :=
  let digits := p.rest.takeWhile Char.isDigit
  if digits.isEmpty ∨ 9 < digits.length then none
  else some (Nat.ofDigitChars 10 digits 0, p.skip digits.length)

inductive Directive
  | version (major minor : Nat)
  | tag (handle : String) (start : TagText)

def readDirective? (p : Cursor) : Option (Directive × Cursor) := do
  let name := p.rest.takeWhile isNameChar
  let p := p.skip name.length
  if !Cursor.endsWord p.rest then none
  let p := p.skipWhile isBlank
  let (directive, p) ←
    if name = "YAML".toList then do
      let (major, p) ← readVersionPart? p
      if p.rest.head? ≠ some '.' then none
      let (minor, p) ← readVersionPart? (p.skip 1)
      some (Directive.version major minor, p)
    else if name = "TAG".toList then do
      let (handle, p) ← readHandle? p
      if handle ≠ ['!'] ∧ !isHandle handle then none
      if !p.atSpace then none
      let (start, p) ← readTagRest? true [] (p.skipWhile isBlank)
      if !Cursor.endsWord p.rest then none
      some (Directive.tag (.ofList handle) start, p)
    else none
  let p := p.skipWhile isBlank
  let p := if p.rest.head? = some '#' then p.skipWhile (!isBreak ·) else p
  if p.atLineEnd then return (directive, p.skipBreak) else none

end MetricSql.Yaml

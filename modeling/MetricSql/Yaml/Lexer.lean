import MetricSql.Yaml.Scalar
import MetricSql.Yaml.Tag
import MetricSql.Yaml.Token

namespace MetricSql.Yaml

/-- A place where a key without an indicator may have begun: how many tokens there are before it, and
whether nothing but a key can be there. -/
structure KeyPlace where
  count : Nat
  place : Cursor
  required : Bool

/-- What is known while a text of at most `size` characters is split into tokens. The newest tokens
come first, and there are `count` of them. -/
structure Lexer where
  cursor : Cursor
  size : Nat
  indent : Int := -1
  outerIndents : List Int := []
  flowDepth : Nat := 0
  keyAllowed : Bool := true
  keys : List (Option KeyPlace) := [none]
  tokens : List Token := []
  count : Nat := 0

namespace Lexer

variable (l : Lexer)

def inFlow : Bool := l.flowDepth != 0

def push (t : Token) : Lexer := { l with tokens := t :: l.tokens, count := l.count + 1 }

def insertAfter (n : Nat) (t : Token) : Lexer :=
  let later := l.count - n
  { l with tokens := l.tokens.take later ++ t :: l.tokens.drop later, count := l.count + 1 }

def pushSkip (t : Token) (n : Nat) : Lexer := { l.push t with cursor := l.cursor.skip n }

/-- How many bytes behind its start a key may end. -/
def keyLimit : Nat := 1024

def dropStaleKeys? : Option Lexer := do
  let keys ← l.keys.mapM fun
    | none => some none
    | some k =>
      if k.place.line < l.cursor.line ∨ k.place.index + keyLimit < l.cursor.index then
        if k.required then none else some none
      else some (some k)
  return { l with keys }

def dropKey? : Option Lexer :=
  match l.keys with
  | some k :: r => if k.required then none else some { l with keys := none :: r }
  | _ => some l

def noteKey? : Option Lexer := do
  if l.keyAllowed then
    let required := !l.inFlow && l.indent == l.cursor.column
    let dropped ← l.dropKey?
    return { dropped with
      keys := some ⟨l.count, l.cursor, required⟩ :: dropped.keys.drop 1 }
  else return l

def openBlock (column : Nat) (count : Nat) (t : Token) : Lexer :=
  if l.inFlow ∨ (column : Int) ≤ l.indent then l
  else { l.insertAfter count t with indent := column, outerIndents := l.indent :: l.outerIndents }

def closeBlocksFrom (column : Int) : (indent : Int) → List Int → Lexer → Lexer
  | indent, [], l => { l with indent, outerIndents := [] }
  | indent, outer :: r, l =>
    if column < indent then closeBlocksFrom column outer r (l.push .blockEnd)
    else { l with indent, outerIndents := outer :: r }

def closeBlocks (column : Int) : Lexer :=
  if l.inFlow then l else closeBlocksFrom column l.indent l.outerIndents l

/-- Skips blanks, comments and line breaks, and a byte order mark at the start of a line. Where a block
may begin, tabs are no blanks. -/
def skipGap : (fuel : Nat) → Lexer → Lexer
  | 0, l => l
  | fuel + 1, l =>
    let p := l.cursor.skipMark.skipWhile fun c => c == ' ' || (c == '\t' && (l.inFlow || !l.keyAllowed))
    let p := if p.rest.head? = some '#' then p.skipWhile (!isBreak ·) else p
    if p.atBreak then
      skipGap fuel { l with cursor := p.skipBreak, keyAllowed := l.keyAllowed || !l.inFlow }
    else { l with cursor := p }

def fetchDirective? : Option Lexer := do
  let l ← (l.closeBlocks (-1)).dropKey?
  let (directive, p) ← readDirective? (l.cursor.skip 1)
  let t :=
    match directive with
    | .version major minor => .version major minor
    | .tag handle start => .tagDirective handle start
  return { l.push t with cursor := p, keyAllowed := false }

def fetchDocumentMark? (t : Token) : Option Lexer := do
  let l ← (l.closeBlocks (-1)).dropKey?
  return { l.pushSkip t 3 with keyAllowed := false }

def fetchFlowStart? (t : Token) : Option Lexer := do
  let l ← l.noteKey?
  return { l.pushSkip t 1 with
    keys := none :: l.keys, flowDepth := l.flowDepth + 1, keyAllowed := true }

def fetchFlowEnd? (t : Token) : Option Lexer := do
  let l ← l.dropKey?
  let keys := if l.inFlow then l.keys.drop 1 else l.keys
  return { l.pushSkip t 1 with keys, flowDepth := l.flowDepth - 1, keyAllowed := false }

def fetchFlowEntry? : Option Lexer := do
  let l ← l.dropKey?
  return { l.pushSkip .flowEntry 1 with keyAllowed := true }

def openHere? (t : Token) : Option Lexer :=
  if l.inFlow then some l
  else if l.keyAllowed then some (l.openBlock l.cursor.column l.count t)
  else none

def fetchBlockEntry? : Option Lexer := do
  let l ← (← l.openHere? .blockSequenceStart).dropKey?
  return { l.pushSkip .blockEntry 1 with keyAllowed := true }

def fetchKey? : Option Lexer := do
  let l ← (← l.openHere? .blockMappingStart).dropKey?
  return { l.pushSkip .key 1 with keyAllowed := !l.inFlow }

/-- A value makes a key of what was noted at this depth. -/
def fetchValue? : Option Lexer :=
  match l.keys with
  | some k :: r =>
    let l := l.insertAfter k.count .key
    let l := l.openBlock k.place.column k.count .blockMappingStart
    some { l.pushSkip .value 1 with keys := none :: r, keyAllowed := false }
  | _ => do
    let l ← l.openHere? .blockMappingStart
    return { l.pushSkip .value 1 with keyAllowed := !l.inFlow }

def fetchAnchor? (make : String → Token) : Option Lexer := do
  let l ← l.noteKey?
  let p := l.cursor.skip 1
  let name := p.rest.takeWhile isNameChar
  let p := p.skip name.length
  if name.isEmpty || !(Cursor.endsWord p.rest || p.rest.head?.any ("?:,]\x7d%@\x60".contains ·)) then
    none
  else return { l.push (make (.ofList name)) with cursor := p, keyAllowed := false }

def fetchTag? : Option Lexer := do
  let l ← l.noteKey?
  let (handle, rest, p) ← readTag? l.inFlow l.cursor
  return { l.push (.tag handle rest) with cursor := p, keyAllowed := false }

def fetchBlockScalar? (folded : Bool) : Option Lexer := do
  let l ← l.dropKey?
  let (text, p) ← readBlock? folded l.indent (l.size + 1) (l.cursor.skip 1)
  return { l.push (.scalar false (.ofList text)) with cursor := p, keyAllowed := true }

def fetchQuoted? (single : Bool) : Option Lexer := do
  let l ← l.noteKey?
  let (text, p) ← readQuoted? single (l.size + 1) (l.cursor.skip 1)
  return { l.push (.scalar false (.ofList text)) with cursor := p, keyAllowed := false }

def fetchPlain? : Option Lexer := do
  let l ← l.noteKey?
  let (text, broken, p) ←
    readPlain? l.inFlow (l.indent + 1).toNat (l.size + 1) [] {} l.cursor
  return { l.push (.scalar true (.ofList text)) with cursor := p, keyAllowed := broken }

/-- The characters with which no plain scalar begins, but for some that no blank follows. -/
def indicators : String := "-?:,[]\x7b\x7d#&*!|>'\"%@\x60"

def startsPlain (inFlow : Bool) (c : Char) (r : List Char) : Bool :=
  !indicators.contains c || (c == '-' && !r.head?.any isBlank) ||
    (!inFlow && (c == '?' || c == ':') && !Cursor.endsWord r)

def fetch? (c : Char) (r : List Char) : Option Lexer :=
  let wordEnds := Cursor.endsWord r
  if c = '%' ∧ l.cursor.column = 0 then l.fetchDirective?
  else if l.cursor.atMark '-' then l.fetchDocumentMark? .documentStart
  else if l.cursor.atMark '.' then l.fetchDocumentMark? .documentEnd
  else if c = '[' then l.fetchFlowStart? .flowSequenceStart
  else if c = '\x7b' then l.fetchFlowStart? .flowMappingStart
  else if c = ']' then l.fetchFlowEnd? .flowSequenceEnd
  else if c = '\x7d' then l.fetchFlowEnd? .flowMappingEnd
  else if c = ',' then l.fetchFlowEntry?
  else if c = '-' ∧ wordEnds then l.fetchBlockEntry?
  else if c = '?' ∧ (l.inFlow ∨ wordEnds) then l.fetchKey?
  else if c = ':' ∧ (l.inFlow ∨ wordEnds) then l.fetchValue?
  else if c = '*' then l.fetchAnchor? .alias
  else if c = '&' then l.fetchAnchor? .anchor
  else if c = '!' then l.fetchTag?
  else if c = '|' ∧ !l.inFlow then l.fetchBlockScalar? false
  else if c = '>' ∧ !l.inFlow then l.fetchBlockScalar? true
  else if c = '\'' then l.fetchQuoted? true
  else if c = '"' then l.fetchQuoted? false
  else if !isBlank c && startsPlain l.inFlow c r then l.fetchPlain?
  else none

def run? : (fuel : Nat) → Lexer → Option (List Token)
  | 0, _ => none
  | fuel + 1, l => do
    let l ← (skipGap (l.size + 1) l).dropStaleKeys?
    let l := l.closeBlocks l.cursor.column
    match l.cursor.rest with
    | [] => return (← (l.closeBlocks (-1)).dropKey?).tokens.reverse
    | c :: r => run? fuel (← l.fetch? c r)

end Lexer

def Token.scan? (s : String) : Option (List Token) :=
  let s := s.toList
  if s.all isAllowed then Lexer.run? (s.length + 2) { cursor := { rest := s }, size := s.length } else none

end MetricSql.Yaml

namespace MetricSql.Yaml

def isBlank (c : Char) : Bool := c == ' ' || c == '\t'

def isBreak (c : Char) : Bool :=
  c == '\n' || c == '\r' || c == '\u0085' || c == '\u2028' || c == '\u2029'

def isAllowed (c : Char) : Bool :=
  let n := c.toNat
  c == '\t' || c == '\n' || c == '\r' || (0x20 ≤ n && n ≤ 0x7E) || n == 0x85 ||
    (0xA0 ≤ n && n ≤ 0xD7FF) || (0xE000 ≤ n && n ≤ 0xFFFD) || 0x10000 ≤ n

def isNameChar (c : Char) : Bool := c.isAlphanum || c == '_' || c == '-'

/-- The rest of a text, and where in the text that begins: how many bytes there are before it, its line
and its column. -/
structure Cursor where
  rest : List Char
  index : Nat := 0
  line : Nat := 0
  column : Nat := 0

namespace Cursor

def byteSize (s : List Char) : Nat := (s.map Char.utf8Size).foldr (· + ·) 0

def skip (p : Cursor) (n : Nat) : Cursor :=
  { p with rest := p.rest.drop n, index := p.index + byteSize (p.rest.take n), column := p.column + n }

def skipWhile (p : Cursor) (f : Char → Bool) : Cursor := p.skip (p.rest.takeWhile f).length

/-- Reads a line break, if one is next. Most of them count as the same one. -/
def readBreak (p : Cursor) : List Char × Cursor :=
  let next n rest : Cursor := ⟨rest, p.index + n, p.line + 1, 0⟩
  match p.rest with
  | '\r' :: '\n' :: r => (['\n'], next 2 r)
  | c :: r =>
    if c = '\u2028' ∨ c = '\u2029' then ([c], next c.utf8Size r)
    else if isBreak c then (['\n'], next c.utf8Size r)
    else ([], p)
  | [] => ([], p)

def skipBreak (p : Cursor) : Cursor := p.readBreak.2

/-- Skips a byte order mark, which may stand at the start of a line and takes a column. -/
def skipMark (p : Cursor) : Cursor :=
  if p.column = 0 ∧ p.rest.head? = some '\ufeff' then p.skip 1 else p

def atBreak (p : Cursor) : Bool := p.rest.head?.any isBreak

def atSpace (p : Cursor) : Bool := p.rest.head?.any isBlank

def atLineEnd (p : Cursor) : Bool := p.rest.head?.all isBreak

def endsWord (s : List Char) : Bool := s.head?.all fun c => isBlank c || isBreak c

/-- Whether `mark`, three times at the start of a line, stands here as a word of its own. -/
def atMark (p : Cursor) (mark : Char) : Bool :=
  p.column == 0 && [mark, mark, mark].isPrefixOf p.rest && endsWord (p.rest.drop 3)

def atDocumentMark (p : Cursor) : Bool := p.atMark '-' || p.atMark '.'

end Cursor

end MetricSql.Yaml

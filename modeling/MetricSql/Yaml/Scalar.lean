import MetricSql.Json.Reader
import MetricSql.Yaml.Cursor

namespace MetricSql.Yaml

open Json (hexNumber?)

/-- Blanks and line breaks between the words of a scalar. Where there are breaks, blanks around them
do not count. -/
structure Gap where
  blanks : List Char := []
  broken : Bool := false
  firstBreak : List Char := []
  moreBreaks : List Char := []

namespace Gap

/-- A single line break is folded to a blank, and of several the first one is dropped. -/
def text (g : Gap) : List Char :=
  if !g.broken then g.blanks
  else if g.firstBreak.head? = some '\n' then
    if g.moreBreaks.isEmpty then [' '] else g.moreBreaks
  else g.firstBreak ++ g.moreBreaks

def read? (indent : Nat) : (fuel : Nat) → Gap → Cursor → Option (Gap × Cursor)
  | 0, _, _ => none
  | fuel + 1, g, p =>
    match p.rest with
    | [] => some (g, p)
    | c :: _ =>
      if isBlank c then
        if g.broken then
          if c = '\t' ∧ p.column < indent then none else read? indent fuel g (p.skip 1)
        else read? indent fuel { g with blanks := g.blanks ++ [c] } (p.skip 1)
      else if isBreak c then
        let (b, p) := p.readBreak
        if g.broken then read? indent fuel { g with moreBreaks := g.moreBreaks ++ b } p
        else read? indent fuel { g with blanks := [], broken := true, firstBreak := b } p
      else some (g, p)

end Gap

def plainWord? (inFlow : Bool) : List Char → Option (List Char × List Char)
  | [] => some ([], [])
  | c :: r =>
    if isBlank c || isBreak c then some ([], c :: r)
    else if inFlow && c == ':' && r.head?.any (",?[]\x7b\x7d".contains ·) then none
    else if c == ':' && Cursor.endsWord r then some ([], c :: r)
    else if inFlow && ",[]\x7b\x7d".contains c then some ([], c :: r)
    else (plainWord? inFlow r).map fun p => (c :: p.1, p.2)

/-- Reads a plain scalar, the later lines of which begin at the column `indent` or behind it. Also
tells whether it ends with a line break. -/
def readPlain? (inFlow : Bool) (indent : Nat) : (fuel : Nat) → List Char → Gap → Cursor →
    Option (List Char × Bool × Cursor)
  | 0, _, _, _ => none
  | fuel + 1, text, gap, p =>
    if p.atDocumentMark || p.rest.head? == some '#' then some (text, gap.broken, p)
    else do
      let (word, _) ← plainWord? inFlow p.rest
      if word.isEmpty then return (text, gap.broken, p)
      else
        let text := text ++ gap.text ++ word
        let p := p.skip word.length
        let (gap, q) ← Gap.read? indent fuel {} p
        if q.index = p.index then return (text, false, p)
        else if !inFlow && q.column < indent then return (text, gap.broken, q)
        else readPlain? inFlow indent fuel text gap q

def escapeChar? (c : Char) : Option Char :=
  match c with
  | '0' => some '\x00'
  | 'a' => some '\x07'
  | 'b' => some '\x08'
  | 't' => some '\t'
  | '\t' => some '\t'
  | 'n' => some '\n'
  | 'v' => some '\x0b'
  | 'f' => some '\x0c'
  | 'r' => some '\r'
  | 'e' => some '\x1b'
  | ' ' => some ' '
  | '"' => some '"'
  | '/' => some '/'
  | '\\' => some '\\'
  | 'N' => some '\u0085'
  | '_' => some '\u00a0'
  | 'L' => some '\u2028'
  | 'P' => some '\u2029'
  | _ => none

def escapeDigits (c : Char) : Nat :=
  match c with
  | 'x' => 2
  | 'u' => 4
  | 'U' => 8
  | _ => 0

def escape? : List Char → Option (Char × Nat)
  | [] => none
  | c :: r =>
    let k := escapeDigits c
    if k = 0 then (escapeChar? c).map (·, 1)
    else do
      let digits := r.take k
      if digits.length ≠ k then none
      else
        let n ← hexNumber? digits
        if n.isValidChar then some (Char.ofNat n, k + 1) else none

/-- Reads a word up to a blank, a break or the closing quote. Tells whether an escaped line break
ended it. -/
def quotedWord? (single : Bool) : (fuel : Nat) → Cursor → Option (List Char × Bool × Cursor)
  | 0, _ => none
  | fuel + 1, p =>
    let more (c : Char) (n : Nat) : Option (List Char × Bool × Cursor) := do
      let (text, escaped, p) ← quotedWord? single fuel (p.skip n)
      return (c :: text, escaped, p)
    match p.rest with
    | [] => some ([], false, p)
    | c :: r =>
      if isBlank c || isBreak c then some ([], false, p)
      else if single then
        if c != '\'' then more c 1
        else if r.head? = some '\'' then more c 2
        else some ([], false, p)
      else if c = '"' then some ([], false, p)
      else if c != '\\' then more c 1
      else if r.head?.any isBreak then some ([], true, (p.skip 1).skipBreak)
      else (escape? r).bind fun e => more e.1 (e.2 + 1)

def readQuoted? (single : Bool) : (fuel : Nat) → Cursor → Option (List Char × Cursor)
  | 0, _ => none
  | fuel + 1, p =>
    if p.atDocumentMark || p.rest.isEmpty then none
    else do
      let (word, escaped, p) ← quotedWord? single fuel p
      if p.rest.head? = some (if single then '\'' else '"') then return (word, p.skip 1)
      else
        let (gap, p) ← Gap.read? 0 fuel { broken := escaped } p
        let (text, p) ← readQuoted? single fuel p
        return (word ++ gap.text ++ text, p)

inductive Chomping
  | strip
  | clip
  | keep
  deriving DecidableEq

def chomping? : Char → Option Chomping
  | '-' => some .strip
  | '+' => some .keep
  | _ => none

def blockHeader? (p : Cursor) : Option (Chomping × Nat × Cursor) :=
  let digit? (s : List Char) : Option Nat := (s.head?.filter Char.isDigit).map (·.toNat - '0'.toNat)
  let found : Chomping × Option Nat × Cursor :=
    match p.rest.head?.bind chomping? with
    | some c =>
      match digit? (p.rest.drop 1) with
      | some n => (c, some n, p.skip 2)
      | none => (c, none, p.skip 1)
    | none =>
      match digit? p.rest with
      | some n =>
        match (p.rest.drop 1).head?.bind chomping? with
        | some c => (c, some n, p.skip 2)
        | none => (.clip, some n, p.skip 1)
      | none => (.clip, none, p)
  let (c, n, p) := found
  let p := p.skipWhile isBlank
  let p := if p.rest.head? = some '#' then p.skipWhile (!isBreak ·) else p
  if n = some 0 ∨ !p.atLineEnd then none else some (c, n.getD 0, p.skipBreak)

/-- Reads empty lines, and the blanks in front of the next line up to the column `indent`, or all of
them when that is zero. Also gives the largest column that was met. -/
def blockBreaks? (indent : Nat) : (fuel : Nat) → (deepest : Nat) → List Char → Cursor →
    Option (List Char × Nat × Cursor)
  | 0, _, _, _ => none
  | fuel + 1, deepest, breaks, p =>
    let spaces := (p.rest.takeWhile (· == ' ')).length
    let p := p.skip (if indent = 0 then spaces else min spaces (indent - p.column))
    let deepest := max deepest p.column
    if (indent = 0 ∨ p.column < indent) ∧ p.rest.head? = some '\t' then none
    else if p.atBreak then
      let (b, p) := p.readBreak
      blockBreaks? indent fuel deepest (breaks ++ b) p
    else some (breaks, deepest, p)

/-- The lines of a block scalar as they are read: its text, the break of the last line, the breaks
of empty lines after it, and whether that line begins with a blank. -/
structure BlockLines where
  text : List Char := []
  lastBreak : List Char := []
  breaks : List Char := []
  leadingBlank : Bool := false

def blockLines? (folded : Bool) (indent : Nat) : (fuel : Nat) → BlockLines → Cursor →
    Option (BlockLines × Cursor)
  | 0, _, _ => none
  | fuel + 1, b, p =>
    if p.column = indent ∧ !p.rest.isEmpty then do
      let joined := folded && b.lastBreak.head? == some '\n' && !b.leadingBlank && !p.atSpace
      let start := if joined then if b.breaks.isEmpty then [' '] else [] else b.lastBreak
      let line := p.rest.takeWhile (!isBreak ·)
      let leadingBlank := p.atSpace
      let (lastBreak, p) := (p.skip line.length).readBreak
      let (breaks, _, p) ← blockBreaks? indent fuel 0 [] p
      blockLines? folded indent fuel
        { text := b.text ++ start ++ b.breaks ++ line, lastBreak, breaks, leadingBlank } p
    else some (b, p)

def readBlock? (folded : Bool) (outer : Int) (fuel : Nat) (p : Cursor) :
    Option (List Char × Cursor) := do
  let (chomping, increment, p) ← blockHeader? p
  let given : Nat := if increment = 0 then 0 else outer.toNat + increment
  let (breaks, deepest, p) ← blockBreaks? given fuel 0 [] p
  let indent := if given = 0 then max deepest (max (outer + 1).toNat 1) else given
  let (b, p) ← blockLines? folded indent fuel { breaks } p
  let tail :=
    match chomping with
    | .strip => []
    | .clip => b.lastBreak
    | .keep => b.lastBreak ++ b.breaks
  return (b.text ++ tail, p)

end MetricSql.Yaml

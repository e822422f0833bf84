import MetricSql.Yaml.Lexer

namespace MetricSql.Yaml

/-- A YAML value. An alias stands for the node that has its number. -/
inductive Node
  | scalar (tag : Option TagText) (plain : Bool) (text : String)
  | sequence (items : List Node)
  | mapping (entries : List (Node × Node))
  | alias (number : Nat)

namespace Node

def empty : Node := .scalar none true ""

end Node

structure Anchored where
  order : Nat
  number : Nat
  node : Node

/-- What is known while nodes are built: the tokens that are left, the meaning of tag handles, the
numbers of anchors, and their nodes. -/
structure Builder where
  tokens : List Token
  handles : List (String × TagText) := []
  numbers : List (String × Nat) := []
  count : Nat := 0
  anchored : List Anchored := []

abbrev Build := StateT Builder Option

namespace Build

def peek : Build (Option Token) := do return (← get).tokens.head?

def advance : Build Unit := modify fun b => { b with tokens := b.tokens.drop 1 }

def accept (t : Token) : Build Bool := do
  if (← peek) = some t then
    advance
    return true
  else return false

def expect (t : Token) : Build Unit := do if !(← accept t) then failure

def isNext (ts : List Token) : Build Bool := do
  match ← peek with
  | some t => return ts.contains t
  | none => return false

/-- The number of an anchor is that of the different names so far, itself left out. -/
def numberAnchor (name : String) : Build (Nat × Nat) :=
  modifyGet fun b =>
    let number := b.numbers.length
    ((b.count, number),
      { b with
        numbers := (name, number) :: b.numbers.filter (·.1 != name)
        count := b.count + 1 })

def keepAnchored (anchor : Option (Nat × Nat)) (node : Node) : Build Node := do
  match anchor with
  | some (order, number) => modify fun b => { b with anchored := ⟨order, number, node⟩ :: b.anchored }
  | none => pure ()
  return node

def tagText (handle : String) (rest : TagText) : Build TagText := do
  if handle = "" then return rest
  else
    let known := (← get).handles ++ [("!", .ofString "!"), ("!!", .ofString "tag:yaml.org,2002:")]
    match known.lookup handle with
    | some start => return start ++ rest
    | none => failure

def takeAnchor : Build (Option (Nat × Nat)) := do
  match ← peek with
  | some (.anchor name) => do
    advance
    return some (← numberAnchor name)
  | _ => return none

def takeTag : Build (Option (String × TagText)) := do
  match ← peek with
  | some (.tag handle rest) => do
    advance
    return some (handle, rest)
  | _ => return none

def properties : Build (Option (Nat × Nat) × Option TagText) := do
  let first ← takeAnchor
  let tag ← takeTag
  let anchor ← if first.isNone then takeAnchor else pure first
  match tag with
  | some (handle, rest) => return (anchor, some (← tagText handle rest))
  | none => return (anchor, none)

mutual

/-- Builds a node. In a block it may be a block collection, and `indentless` says that it may also be
a sequence that is not indented. -/
def node (block indentless : Bool) : (fuel : Nat) → Build Node
  | 0 => failure
  | fuel + 1 => do
    match ← peek with
    | some (.alias name) =>
      advance
      match (← get).numbers.lookup name with
      | some number => return .alias number
      | none => failure
    | _ =>
      let (anchor, tag) ← properties
      match ← peek with
      | some (.scalar plain text) =>
        advance
        keepAnchored anchor (.scalar tag plain text)
      | some .flowSequenceStart =>
        advance
        keepAnchored anchor (.sequence (← flowItems true fuel))
      | some .flowMappingStart =>
        advance
        keepAnchored anchor (.mapping (← flowPairs true fuel))
      | some .blockEntry =>
        if indentless then keepAnchored anchor (.sequence (← indentlessItems fuel))
        else bare anchor tag
      | some .blockSequenceStart =>
        if block then
          advance
          keepAnchored anchor (.sequence (← blockItems fuel))
        else bare anchor tag
      | some .blockMappingStart =>
        if block then
          advance
          keepAnchored anchor (.mapping (← blockPairs fuel))
        else bare anchor tag
      | _ => bare anchor tag

def bare (anchor : Option (Nat × Nat)) (tag : Option TagText) : Build Node :=
  if anchor.isSome ∨ tag.isSome then keepAnchored anchor (.scalar tag true "") else failure

def nodeUnless (stop : List Token) (block indentless : Bool) : (fuel : Nat) → Build Node
  | 0 => failure
  | fuel + 1 => do
    if (← peek).isNone then failure
    if ← isNext stop then return .empty else node block indentless fuel

def blockItems : (fuel : Nat) → Build (List Node)
  | 0 => failure
  | fuel + 1 => do
    if ← accept .blockEntry then
      let item ← nodeUnless [.blockEntry, .blockEnd] true false fuel
      return item :: (← blockItems fuel)
    else
      expect .blockEnd
      return []

def indentlessItems : (fuel : Nat) → Build (List Node)
  | 0 => failure
  | fuel + 1 => do
    if ← accept .blockEntry then
      let item ← nodeUnless [.blockEntry, .key, .value, .blockEnd] true false fuel
      return item :: (← indentlessItems fuel)
    else return []

def blockPairs : (fuel : Nat) → Build (List (Node × Node))
  | 0 => failure
  | fuel + 1 => do
    if ← accept .key then
      let key ← nodeUnless [.key, .value, .blockEnd] true true fuel
      let value ←
        if ← accept .value then nodeUnless [.key, .value, .blockEnd] true true fuel
        else pure .empty
      return (key, value) :: (← blockPairs fuel)
    else
      expect .blockEnd
      return []

/-- The items of a flow sequence up to its end. One with a key is a mapping of its own. -/
def flowItems (first : Bool) : (fuel : Nat) → Build (List Node)
  | 0 => failure
  | fuel + 1 => do
    if ← accept .flowSequenceEnd then return []
    else
      if !first then expect .flowEntry
      if ← accept .flowSequenceEnd then return []
      else
        let item ← if ← accept .key then flowPairItem fuel else node false false fuel
        return item :: (← flowItems false fuel)

def flowPairItem : (fuel : Nat) → Build Node
  | 0 => failure
  | fuel + 1 => do
    let key ←
      if ← isNext [.value, .flowEntry, .flowSequenceEnd] then
        advance
        pure .empty
      else node false false fuel
    let value ←
      if ← accept .value then nodeUnless [.flowEntry, .flowSequenceEnd] false false fuel
      else pure .empty
    return .mapping [(key, value)]

/-- The pairs of a flow mapping up to its end. A node without a key indicator has no value. -/
def flowPairs (first : Bool) : (fuel : Nat) → Build (List (Node × Node))
  | 0 => failure
  | fuel + 1 => do
    if ← accept .flowMappingEnd then return []
    else
      if !first then expect .flowEntry
      if ← accept .flowMappingEnd then return []
      else
        let pair ←
          if ← accept .key then
            let key ← nodeUnless [.value, .flowEntry, .flowMappingEnd] false false fuel
            let value ←
              if ← accept .value then nodeUnless [.flowEntry, .flowMappingEnd] false false fuel
              else pure .empty
            pure (key, value)
          else pure (← node false false fuel, .empty)
        return pair :: (← flowPairs false fuel)

end

/-- Reads the directives of a document. Each can be given once, and the version has to be 1.1 or 1.2. -/
def directives : (fuel : Nat) → (versionSeen : Bool) → Build Unit
  | 0, _ => failure
  | fuel + 1, versionSeen => do
    match ← peek with
    | some (.version major minor) =>
      if versionSeen ∨ major ≠ 1 ∨ (minor ≠ 1 ∧ minor ≠ 2) then failure
      advance
      directives fuel true
    | some (.tagDirective handle start) =>
      if ((← get).handles.lookup handle).isSome then failure
      modify fun b => { b with handles := (handle, start) :: b.handles }
      advance
      directives fuel versionSeen
    | _ => return

def isDirective : Token → Bool
  | .version _ _ => true
  | .tagDirective _ _ => true
  | _ => false

def document (fuel : Nat) : Build (Option Node) := do
  match ← peek with
  | none => return none
  | some t =>
    let root ←
      if t == .documentStart || isDirective t then
        directives fuel false
        expect .documentStart
        match ← peek with
        | none => pure Node.empty
        | some t =>
          if t == .documentStart || t == .documentEnd || isDirective t then pure Node.empty
          else node true false fuel
      else node true false fuel
    return some root

end Build

structure Located where
  anchored : List Anchored
  node : Node

namespace Located

/-- Builds the document of a text, in which nothing may follow it. A text without one counts as an
empty value. -/
def ofText? (s : String) : Option Located := do
  let tokens ← Token.scan? s
  let (root, b) ← (Build.document (3 * tokens.length + 3)).run { tokens }
  if b.tokens.all (· == .documentEnd) then return ⟨b.anchored, root.getD .empty⟩ else none

end Located

end MetricSql.Yaml

namespace MetricSql.Yaml

/-- The text of a tag, which may not be that of any characters. No byte of it is zero. -/
abbrev TagText := List UInt8

def TagText.ofString (s : String) : TagText := s.toUTF8.data.toList

/-- The lexical pieces of a YAML text. The starts and ends of block collections follow from the
indentation. A tag is a handle and what follows it. -/
inductive Token
  | version (major minor : Nat)
  | tagDirective (handle : String) (start : TagText)
  | documentStart
  | documentEnd
  | blockSequenceStart
  | blockMappingStart
  | blockEnd
  | flowSequenceStart
  | flowSequenceEnd
  | flowMappingStart
  | flowMappingEnd
  | blockEntry
  | flowEntry
  | key
  | value
  | alias (name : String)
  | anchor (name : String)
  | tag (handle : String) (rest : TagText)
  | scalar (plain : Bool) (text : String)
  deriving DecidableEq

end MetricSql.Yaml

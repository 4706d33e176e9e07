import TableDoc.Yaml.Cursor

/-!
# YAML tokens

The tokens of a YAML text. Besides those that are written there are those that follow from
indentation: the start and end of block collections, and a key whose colon comes after it. The text
of a tag is a series of bytes, which need not be UTF-8.
-/

namespace TableDoc.Yaml

/-- What a token is. -/
inductive Token.Kind where
  | streamEnd
  | versionDirective (major minor : Nat)
  | tagDirective (handle : List Char) (start : List UInt8)
  | documentStart
  | documentEnd
  | blockSequenceStart
  | blockMappingStart
  | blockEnd
  | flowSequenceStart
  | flowSequenceEnd
  | flowMappingStart
  | flowMappingEnd
  | blockEntry
  | flowEntry
  | key
  | value
  | alias (name : List Char)
  | anchor (name : List Char)
  | tag (handle : List Char) (suffix : List UInt8)
  | scalar (text : List Char) (plain : Bool)
  deriving DecidableEq, Repr

/-- A token and where it starts. -/
structure Token where
  kind : Token.Kind
  mark : Mark
  deriving DecidableEq, Repr

end TableDoc.Yaml

import TableDoc.Yaml.Token

/-!
# Names, tags and directives

How anchors and aliases, tags, and the directives before a document are read. Each reader gives what
it reads and where it ends, or the place at which it fails.
-/

namespace TableDoc.Yaml

/-- The characters that may stand right after a name. -/
def endsName (c : Char) : Bool :=
  isGap c || c = '?' || c = ':' || c = ',' || c = ']' || c = '\x7d' || c = '%' ||
    c = '@' || c = '\x60'

/-- The name of an anchor or alias, after its indicator. -/
def anchorName (c : Cursor) : Except Mark (List Char × Cursor) :=
  let (name, c) := c.span isNameChar
  if name = [] || ! c.rest.head?.all endsName then .error c.mark else .ok (name, c)

/-! ## Tags -/

/-- The characters of a tag; brackets and commas only if `verbatim`. -/
def isTagChar (verbatim : Bool) (c : Char) : Bool :=
  isNameChar c || (";/?:@&=+$.%!~*'()".toList.contains c) ||
    (verbatim && (c = ',' || c = '[' || c = ']'))

/-- How many bytes of a character follow its first byte in UTF-8. -/
def furtherBytes? (byte : UInt8) : Option Nat :=
  if byte < 0x80 then some 0
  else if byte / 32 = 6 then some 1
  else if byte / 16 = 14 then some 2
  else if byte / 8 = 30 then some 3
  else none

/-- Reads the bytes of a tag, last one first. A percent sign and two hexadecimal digits are a byte;
`missing` further bytes belong to the character at hand. Only the form of the bytes is looked at, so
they need not be those of a character. -/
def tagBytes (verbatim : Bool) (m : Mark) (missing : Nat) (read : List UInt8) :
    List Char → Except Mark (List UInt8 × Cursor)
  | '%' :: a :: b :: cs =>
    if isHex a && isHex b then
      let byte := UInt8.ofNat (ofHex [a, b])
      let past := ((m.step '%').step a).step b
      let still := match missing with
        | 0 => furtherBytes? byte
        | n + 1 => if byte / 64 = 2 then some n else none
      match still with
      | some n => tagBytes verbatim past n (byte :: read) cs
      | none => .error m
    else .error m
  | c :: cs =>
    if missing ≠ 0 || c = '%' then .error m
    else if isTagChar verbatim c then tagBytes verbatim (m.step c) 0 (c.toUInt8 :: read) cs
    else .ok (read, ⟨m, c :: cs⟩)
  | [] => if missing ≠ 0 then .error m else .ok (read, ⟨m, []⟩)

/-- The text of a tag after `start`, without its exclamation mark; together they must not be empty.
A zero byte ends the text, whatever is written after it. -/
def tagText (verbatim : Bool) (start : List Char) (c : Cursor) :
    Except Mark (List UInt8 × Cursor) := do
  let (read, past) ← tagBytes verbatim c.mark 0 [] c.rest
  if start = [] && read = [] then throw past.mark
  return (((start.drop 1).map Char.toUInt8 ++ read.reverse).takeWhile (· ≠ 0), past)

/-- A handle: an exclamation mark, name characters, and perhaps a second exclamation mark. -/
def tagHandle (c : Cursor) : Except Mark (List Char × Cursor) :=
  if c.at_ '!' then
    let (name, past) := (c.advance 1).span isNameChar
    if past.at_ '!' then .ok ('!' :: name ++ ['!'], past.advance 1) else .ok ('!' :: name, past)
  else .error c.mark

/-- Handle and suffix of a tag. A tag in angle brackets has no handle, and a lone exclamation mark
is a suffix without one. -/
def tag (inFlow : Bool) (c : Cursor) : Except Mark (Token.Kind × Cursor) := do
  let (handle, suffix, c) ←
    if (c.advance 1).at_ '<' then do
      let (suffix, c) ← tagText true [] (c.advance 2)
      if ! c.at_ '>' then throw c.mark
      pure ([], suffix, c.advance 1)
    else do
      let (handle, c) ← tagHandle c
      if handle.length > 1 && handle.getLast? = some '!' then
        let (suffix, c) ← tagText false [] c
        pure (handle, suffix, c)
      else
        let (suffix, c) ← tagText false handle c
        if suffix = [] then pure ([], ['!'.toUInt8], c) else pure (['!'], suffix, c)
  if (inFlow && c.at_ ',') || c.gapAfter 0 then return (.tag handle suffix, c) else throw c.mark

/-! ## Directives -/

/-- A number of a version. -/
def versionNumber (c : Cursor) : Except Mark (Nat × Cursor) :=
  let (ds, past) := c.span Char.isDigit
  if ds = [] then .error c.mark
  else if ds.length > 9 then .error (c.advance 9).mark
  else .ok (ds.foldl (fun n d => 10 * n + (d.toNat - 48)) 0, past)

/-- The version in a directive. -/
def versionDirective (c : Cursor) : Except Mark (Token.Kind × Cursor) := do
  let (major, c) ← versionNumber (c.skipWhile isBlank)
  if ! c.at_ '.' then throw c.mark
  let (minor, c) ← versionNumber (c.advance 1)
  return (.versionDirective major minor, c)

/-- The handle that a directive defines, and what it stands for. -/
def tagDirective (c : Cursor) : Except Mark (Token.Kind × Cursor) := do
  let (handle, c) ← tagHandle (c.skipWhile isBlank)
  if handle.getLast? ≠ some '!' then throw c.mark
  if ! c.rest.head?.any isBlank then throw c.mark
  let (start, c) ← tagText true [] (c.skipWhile isBlank)
  if ! c.gapAfter 0 then throw c.mark
  return (.tagDirective handle start, c)

/-- A directive, up to the end of its line. -/
def directive (c : Cursor) : Except Mark (Token.Kind × Cursor) := do
  let (name, c) := (c.advance 1).span isNameChar
  if name = [] || ! c.gapAfter 0 then throw c.mark
  let (kind, c) ←
    if name = "YAML".toList then versionDirective c
    else if name = "TAG".toList then tagDirective c
    else throw c.mark
  let c := c.skipComment
  if ! c.atLineEnd then throw c.mark
  return (kind, c.advance 1)

end TableDoc.Yaml

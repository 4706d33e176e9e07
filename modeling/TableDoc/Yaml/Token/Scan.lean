import TableDoc.Yaml.Token.Property
import TableDoc.Yaml.Token.Scalar

/-!
# From YAML text to tokens

`scan` gives the tokens of a text, or those up to a place where no token can be found. Whether a
token begins a key shows only when its colon comes: until then it is remembered as a possible key,
and its `key` token, perhaps with the start of a mapping, is put in front of it later. A possible
key ends with its line, or after 1024 bytes. Tokens from a possible key on are not settled, so of a
text that fails those before are all.

Some characters are not allowed in a text at all. A text is looked over a portion at a time, and
where a portion with such a character starts the tokens end, with a fault at the start of the text.
-/

namespace TableDoc.Yaml

/-- A token that may turn out to begin a key. -/
structure PossibleKey where
  /-- There is no other way to go on than that it is a key. -/
  required : Bool
  /-- The number of tokens before it. -/
  number : Nat
  mark : Mark

/-- The state of a scan. -/
structure Scan where
  cursor : Cursor
  /-- The tokens found, last one first. -/
  tokens : List Token := []
  /-- The indentation of the block at hand, negative outside of all. -/
  indent : Int := -1
  /-- The indentations of the blocks around it, innermost first. -/
  indents : List Int := []
  /-- The possible key at hand, inside the innermost brackets. -/
  key : Option PossibleKey := none
  /-- The possible keys outside of each open bracket, innermost first. -/
  outerKeys : List (Option PossibleKey) := []
  /-- A key may start here. -/
  keyAllowed : Bool := true

namespace Scan

/-- Some bracket is open. -/
def inFlow (s : Scan) : Bool := ! s.outerKeys.isEmpty

/-- The place at hand. -/
def mark (s : Scan) : Mark := s.cursor.mark

/-- The number of tokens found. -/
def count (s : Scan) : Nat := s.tokens.length

/-- Adds a token. -/
def add (s : Scan) (kind : Token.Kind) (mark : Mark) : Scan :=
  { s with tokens := ⟨kind, mark⟩ :: s.tokens }

/-- Puts a token in front of the one that has `number` tokens before it. -/
def insert (s : Scan) (number : Nat) (kind : Token.Kind) (mark : Mark) : Scan :=
  { s with tokens := s.tokens.insertIdx (s.count - number) ⟨kind, mark⟩ }

/-! ## Gaps between tokens -/

/-- The next token, past blanks, comments and line breaks. Tabs count as blanks only where no key
can start, and a byte order mark only at the start of a line; a line break outside of brackets
allows a key. -/
def skipGap (inFlow keyAllowed comment : Bool) (m : Mark) : List Char → Bool × Cursor
  | [] => (keyAllowed, ⟨m, []⟩)
  | c :: cs =>
    if isBreak c then skipGap inFlow (keyAllowed || ! inFlow) false (m.step c) cs
    else if comment || c = '#' then skipGap inFlow keyAllowed true (m.step c) cs
    else if c = ' ' || (c = '\t' && (inFlow || ! keyAllowed)) || (c = '\ufeff' && m.column = 0) then
      skipGap inFlow keyAllowed false (m.step c) cs
    else (keyAllowed, ⟨m, c :: cs⟩)

/-- Goes to the next token. -/
def toNextToken (s : Scan) : Scan :=
  let (keyAllowed, cursor) := skipGap s.inFlow s.keyAllowed false s.cursor.mark s.cursor.rest
  { s with keyAllowed, cursor }

/-! ## Possible keys -/

/-- The key cannot come here any more. -/
def isStale (here : Mark) (k : PossibleKey) : Bool :=
  k.mark.line < here.line || k.mark.offset + 1024 < here.offset

/-- Forgets the possible keys that have ended. -/
def forgetStale (s : Scan) : Except Mark Scan :=
  let stale := fun k : Option PossibleKey => k.any (isStale s.mark)
  if (s.key :: s.outerKeys).any fun k => stale k && k.any (·.required) then .error s.mark
  else
    let keep := fun k : Option PossibleKey => if stale k then none else k
    .ok { s with key := keep s.key, outerKeys := s.outerKeys.map keep }

/-- Forgets the possible key at hand. -/
def forgetKey (s : Scan) : Except Mark Scan :=
  if s.key.any (·.required) then .error s.mark else .ok { s with key := none }

/-- Remembers the next token as a possible key, if one may start here. -/
def saveKey (s : Scan) : Except Mark Scan :=
  if s.keyAllowed then do
    let required := ! s.inFlow && s.indent = s.mark.column
    let s' ← s.forgetKey
    return { s' with key := some ⟨required, s.count, s.mark⟩ }
  else .ok s

/-! ## Indentation -/

/-- How many blocks end at a column, and the indentations that remain. -/
def endedBlocks (column : Int) (indent : Int) : List Int → Nat × Int × List Int
  | [] => (0, indent, [])
  | outer :: indents =>
    if column < indent then
      let (n, indent, indents) := endedBlocks column outer indents
      (n + 1, indent, indents)
    else (0, indent, outer :: indents)

/-- Ends the blocks that are indented deeper than a column. -/
def unroll (s : Scan) (column : Int) : Scan :=
  if s.inFlow then s
  else
    let (n, indent, indents) := endedBlocks column s.indent s.indents
    { s with tokens := List.replicate n ⟨.blockEnd, s.mark⟩ ++ s.tokens, indent, indents }

/-- Begins a block at a column, if it is deeper than the block at hand, in front of the token that
has `number` tokens before it. -/
def roll (s : Scan) (number : Nat) (kind : Token.Kind) (mark : Mark) : Scan :=
  if s.inFlow ∨ mark.column ≤ s.indent then s
  else { s.insert number kind mark with indent := mark.column, indents := s.indent :: s.indents }

/-! ## Tokens -/

/-- Adds a token of `n` characters. -/
def take (s : Scan) (kind : Token.Kind) (n : Nat) : Scan :=
  { s.add kind s.mark with cursor := s.cursor.advance n }

/-- The end of the text. It counts as the start of a line. -/
def takeEnd (s : Scan) : Except Mark Scan := do
  let m := s.mark
  let m := if m.column = 0 then m else { m with line := m.line + 1, column := 0 }
  let s := { s with cursor := { s.cursor with mark := m } }
  let s ← (s.unroll (-1)).forgetKey
  return { s with keyAllowed := false }.add .streamEnd m

/-- A token that stands outside of all blocks. -/
def takeOuter (s : Scan) (read : Cursor → Except Mark (Token.Kind × Cursor)) :
    Except Mark Scan := do
  let s ← (s.unroll (-1)).forgetKey
  let (kind, cursor) ← read s.cursor
  return { s.add kind s.mark with cursor, keyAllowed := false }

/-- An opening bracket. -/
def openBracket (s : Scan) (kind : Token.Kind) : Except Mark Scan := do
  let s ← s.saveKey
  return { s.take kind 1 with key := none, outerKeys := s.key :: s.outerKeys, keyAllowed := true }

/-- A closing bracket. -/
def closeBracket (s : Scan) (kind : Token.Kind) : Except Mark Scan := do
  let s ← s.forgetKey
  let s := s.take kind 1
  return match s.outerKeys with
    | [] => { s with keyAllowed := false }
    | key :: outerKeys => { s with key, outerKeys, keyAllowed := false }

/-- A comma inside brackets. -/
def takeComma (s : Scan) : Except Mark Scan := do
  let s ← s.forgetKey
  return { s.take .flowEntry 1 with keyAllowed := true }

/-- A dash before an entry. -/
def takeDash (s : Scan) : Except Mark Scan := do
  if ! s.inFlow && ! s.keyAllowed then throw s.mark
  let s ← (s.roll s.count .blockSequenceStart s.mark).forgetKey
  return { s.take .blockEntry 1 with keyAllowed := true }

/-- A question mark before a key. -/
def takeQuestion (s : Scan) : Except Mark Scan := do
  if ! s.inFlow && ! s.keyAllowed then throw s.mark
  let s ← (s.roll s.count .blockMappingStart s.mark).forgetKey
  return { s.take .key 1 with keyAllowed := ! s.inFlow }

/-- A colon before a value; a possible key turns into one. -/
def takeColon (s : Scan) : Except Mark Scan :=
  match s.key with
  | some k =>
    let s := (s.insert k.number .key k.mark).roll k.number .blockMappingStart k.mark
    .ok { s.take .value 1 with key := none, keyAllowed := false }
  | none =>
    if ! s.inFlow && ! s.keyAllowed then .error s.mark
    else
      let s := s.roll s.count .blockMappingStart s.mark
      .ok { s.take .value 1 with keyAllowed := ! s.inFlow }

/-- A token that may begin a key. -/
def takeKeyLike (s : Scan) (read : Cursor → Except Mark (Token.Kind × Cursor)) :
    Except Mark Scan := do
  let s ← s.saveKey
  let (kind, cursor) ← read s.cursor
  return { s.add kind s.mark with cursor, keyAllowed := false }

/-- A block scalar. -/
def takeBlock (s : Scan) (literal : Bool) : Except Mark Scan := do
  let s ← s.forgetKey
  let (text, cursor) ← blockScalar literal s.indent (s.cursor.advance 1)
  return { s.add (.scalar text false) s.mark with cursor, keyAllowed := true }

/-- A plain scalar. If its line ends after it, a key may follow. -/
def takePlain (s : Scan) : Except Mark Scan := do
  let s ← s.saveKey
  let p ← plainFrom s.inFlow (s.indent + 1) s.mark none [] s.cursor.rest
  return { s.add (.scalar p.text.reverse true) s.mark with
    cursor := p.cursor, keyAllowed := p.broken }

/-- The character starts no plain scalar, or only if another follows. -/
def isIndicator (c : Char) : Bool :=
  isGap c || "-?:,[]\x7b\x7d#&*!|>'\x22%@\x60".toList.contains c

/-- A scalar between quotes. -/
def quotedScalar (quote : Char) (c : Cursor) : Except Mark (Token.Kind × Cursor) := do
  let (text, c) ← quotedFrom quote (c.mark.step quote) none [] c.rest.tail
  return (.scalar text false, c)

/-- An anchor or alias. -/
def named (kind : List Char → Token.Kind) (c : Cursor) : Except Mark (Token.Kind × Cursor) := do
  let (name, c) ← anchorName (c.advance 1)
  return (kind name, c)

/-- A line that begins or ends a document. -/
def documentMarker (c : Cursor) : Except Mark (Token.Kind × Cursor) :=
  .ok (if c.at_ '-' then .documentStart else .documentEnd, c.advance 3)

/-- The token that starts with the character `c`. -/
def takeToken (s : Scan) (c : Char) : Except Mark Scan :=
  let gap := s.cursor.gapAfter 1
  if s.mark.column = 0 ∧ c = '%' then s.takeOuter directive
  else if s.mark.column = 0 ∧ isDocumentMarker s.cursor.rest then s.takeOuter documentMarker
  else if c = '[' then s.openBracket .flowSequenceStart
  else if c = '\x7b' then s.openBracket .flowMappingStart
  else if c = ']' then s.closeBracket .flowSequenceEnd
  else if c = '\x7d' then s.closeBracket .flowMappingEnd
  else if c = ',' then s.takeComma
  else if c = '-' ∧ gap then s.takeDash
  else if c = '?' ∧ (s.inFlow ∨ gap) then s.takeQuestion
  else if c = ':' ∧ (s.inFlow ∨ gap) then s.takeColon
  else if c = '*' then s.takeKeyLike (named .alias)
  else if c = '&' then s.takeKeyLike (named .anchor)
  else if c = '!' then s.takeKeyLike (tag s.inFlow)
  else if c = '|' ∧ ! s.inFlow then s.takeBlock true
  else if c = '>' ∧ ! s.inFlow then s.takeBlock false
  else if c = '\'' ∨ c = '\x22' then s.takeKeyLike (quotedScalar c)
  else if ! isIndicator c ∨ c = '-' ∨ (! s.inFlow ∧ (c = '?' ∨ c = ':')) then s.takePlain
  else .error s.mark

/-- Finds the next token, and says whether it is the last. -/
def next (s : Scan) : Except Mark (Bool × Scan) := do
  let s ← s.toNextToken.forgetStale
  let s := s.unroll s.mark.column
  match s.cursor.rest with
  | [] => do
    let s ← s.takeEnd
    let s ← s.forgetStale
    return (true, s)
  | c :: _ => do
    let s ← s.takeToken c
    let s ← s.forgetStale
    return (false, s)

/-- The tokens before all possible keys. -/
def settled (s : Scan) : List Token :=
  let numbers := (s.key :: s.outerKeys).filterMap fun k => k.map (·.number)
  s.tokens.reverse.take (numbers.foldl min s.count)

/-- What ends here is not known before `limit`: up to four more characters have a say in it. -/
def isBeyond (limit : Option Nat) (m : Mark) : Bool := limit.any (· < m.offset + 4)

/-- Finds up to `n` more tokens before `limit`: all of them, or those up to a fault and its place.
-/
def run (limit : Option Nat) : Nat → Scan → List Token × Option Mark
  | 0, s => (s.tokens.reverse, none)
  | n + 1, s =>
    match s.next with
    | .error m => (s.settled, some (if isBeyond limit m then {} else m))
    | .ok (last, s') =>
      if isBeyond limit s'.mark then (s.settled, some {})
      else if last then (s'.tokens.reverse, none)
      else run limit n s'

end Scan

/-! ## Whole texts -/

/-- The characters that a text may have. -/
def isAllowed (c : Char) : Bool :=
  let n := c.toNat
  n = 9 || n = 10 || n = 13 || (0x20 ≤ n && n ≤ 0x7E) || n = 0x85 || (0xA0 ≤ n && n ≤ 0xFFFD) ||
    0x10000 ≤ n

/-- The number of bytes in a portion of a text, the last one apart. A character that does not fit
any more begins the next portion. -/
def portionSize : Nat := 16384

/-- Where the first portion with a character that is not allowed starts, in a text that goes on at
`here` inside the portion from `start` on. -/
def limit? (start here : Nat) : List Char → Option Nat
  | [] => none
  | c :: cs =>
    let past := here + c.utf8Size
    let start := if start + portionSize < past then here else start
    if isAllowed c then limit? start past cs else some start

/-- The tokens of a text: all of them, or those up to a fault and its place. Each token but the last
takes at least one character. -/
def scan (text : List Char) : List Token × Option Mark :=
  Scan.run (limit? 0 0 text) (text.length + 1) { cursor := ⟨{}, text⟩ }

end TableDoc.Yaml

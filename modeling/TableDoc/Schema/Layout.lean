import TableDoc.Document
import TableDoc.Schema.Basic
import TableDoc.Text.Bytes

/-!
# Where the entries of a schema stand

`EntryMap.ofLines` finds the entries of a front section by their indentation. Under a key `tables`
that is not indented, the first indented key sets the level of the tables. Deeper keys belong to the
last table: the first of them sets the level of its parts, and the first key that is deeper still
sets the level of the entries of a part. Entries that do not stand on lines of their own are not
found.
-/

namespace TableDoc

/-- What is known while going through the lines of a front section. -/
structure EntryScan where
  inTables : Bool := false
  tableIndent : Option Nat := none
  table : Option String := none
  partIndent : Option Nat := none
  part : Option Section := none
  entryIndent : Option Nat := none
  found : EntryMap := {}

namespace EntryScan

/-- The characters that a key without quotes does not start with. -/
def isPlainStart (c : Char) : Bool :=
  ! Text.isBlank c && c ≠ ':' && c ≠ '#' && c ≠ '\x22' && c ≠ '\'' && c ≠ '-'

/-- A colon after which the value may start, or the line ends. -/
def startsValue : List Char → Bool
  | ':' :: [] => true
  | ':' :: c :: _ => Text.isBlank c
  | _ => false

/-- The key of a line without blanks at its start: in quotes, or else up to the first colon; before
the colon there may be blanks. -/
def key? : List Char → Option (List Char)
  | [] => none
  | c :: cs =>
    if c = '\x22' ∨ c = '\'' then
      let key := cs.takeWhile (· ≠ c)
      let rest := (cs.drop key.length).tail
      if cs.contains c ∧ startsValue (Text.trimStart rest) ∧ key ≠ [] then some key else none
    else if isPlainStart c then
      let key := (c :: cs).takeWhile fun c => c ≠ ':' && c ≠ '#'
      if startsValue (cs.drop (key.length - 1)) then some (Text.trimEnd key) else none
    else none

/-- Takes in a key, its indentation and its place. -/
def feed (s : EntryScan) (indent : Nat) (key : String) (span : Span) : EntryScan :=
  if indent = 0 then { s with inTables := key = "tables", table := none }
  else if ! s.inTables then s
  else
    let tableLevel := s.tableIndent.getD indent
    let s := { s with tableIndent := some tableLevel }
    if indent < tableLevel then s
    else if indent = tableLevel then
      { s with
        found := { s.found with tables := (key, span) :: s.found.tables }
        table := some key, partIndent := none, part := none }
    else match s.table with
      | none => s
      | some table =>
        if s.partIndent.any (· < indent) then
          let entryLevel := s.entryIndent.getD indent
          let s := { s with entryIndent := some entryLevel }
          match s.part with
          | some part =>
            if indent = entryLevel then
              { s with found :=
                { s.found with entries := ((table, part, key), span) :: s.found.entries } }
            else s
          | none => s
        else { s with partIndent := some indent, part := Section.ofName? key, entryIndent := none }

/-- Takes in a line; blank lines, comments and lines without a key count for nothing. -/
def feedLine (s : EntryScan) (n : Nat) (line : List Char) : EntryScan :=
  let text := Text.trimStart line
  if text.head? = some '#' then s
  else match key? text with
    | none => s
    | some key =>
      s.feed (Text.byteLength (line.takeWhile Text.isBlank)) (.ofList key) (.ofLine n line)

end EntryScan

/-- Where the entries in these lines stand; the first is line `n`. -/
def EntryMap.ofLines (n : Nat) (lines : List (List Char)) : EntryMap :=
  ((lines.zipIdx n).foldl (fun (s : EntryScan) (line, i) => s.feedLine i line) {}).found

end TableDoc

import TableDoc.Yaml.Cursor

/-!
# YAML scalars

How the text of a scalar is read: plain, in quotes, or as an indented block. A line break inside a
plain or quoted scalar is folded (`Fold`): alone it becomes a space, with further ones after it only
these stay. Each reader gives the text and where it ends, or the place at which it fails.
-/

namespace TableDoc.Yaml

/-- A gap inside a scalar. -/
structure Fold where
  /-- The blanks before the first line break. -/
  blanks : List Char := []
  /-- There has been a line break. -/
  broken : Bool := false
  /-- The first line break, unless it does not count. -/
  first : List Char := []
  /-- The line breaks after the first. -/
  further : List Char := []

namespace Fold

/-- Takes in a blank or a line break. -/
def feed (f : Fold) (c : Char) : Fold :=
  if isBlank c then if f.broken then f else { f with blanks := f.blanks ++ [c] }
  else if f.broken then { f with further := f.further ++ [readBreak c] }
  else { f with blanks := [], broken := true, first := [readBreak c] }

/-- What the gap amounts to. -/
def text (f : Fold) : List Char :=
  if f.broken then
    if f.first = ['\n'] then if f.further = [] then [' '] else f.further
    else f.first ++ f.further
  else f.blanks

/-- Text read so far, last character first, and a gap after it. -/
def append (read : List Char) : Option Fold → List Char
  | none => read
  | some f => f.text.reverse ++ read

end Fold

/-! ## Plain scalars -/

/-- The characters that end a plain scalar inside brackets. -/
def isFlowIndicator (c : Char) : Bool :=
  c = ',' || c = '[' || c = ']' || c = '\x7b' || c = '\x7d'

/-- A plain scalar: what was read, last character first, whether a line break follows, and the rest.
-/
structure PlainText where
  text : List Char
  broken : Bool
  cursor : Cursor

/-- Reads on in a plain scalar. In block context the lines after the first have to be indented by at
least `indent`. -/
def plainFrom (inFlow : Bool) (indent : Int) (m : Mark) (fold : Option Fold) (read : List Char) :
    List Char → Except Mark PlainText
  | [] => .ok ⟨read, fold.any (·.broken), m, []⟩
  | c :: cs =>
    if isGap c then
      let f := fold.getD {}
      if c = '\t' ∧ f.broken ∧ m.column < indent then .error m
      else plainFrom inFlow indent (m.step c) (some (f.feed c)) read cs
    else
      let leaves := (! inFlow && m.column < indent) ||
        (m.column = 0 && isDocumentMarker (c :: cs)) || c = '#'
      let done := .ok ⟨read, fold.any (·.broken), m, c :: cs⟩
      if fold.isSome && leaves then done
      else if inFlow ∧ c = ':' ∧ cs.head?.any (fun d => isFlowIndicator d || d = '?') then .error m
      else if (c = ':' && cs.head?.all isGap) || (inFlow && isFlowIndicator c) then done
      else plainFrom inFlow indent (m.step c) none (c :: Fold.append read fold) cs

/-! ## Quoted scalars -/

/-- The characters that a backslash before a letter stands for. -/
def escaped? : Char → Option Char
  | '0' => some '\x00'
  | 'a' => some '\x07'
  | 'b' => some '\x08'
  | 't' => some '\t'
  | '\t' => some '\t'
  | 'n' => some '\n'
  | 'v' => some '\x0b'
  | 'f' => some '\x0c'
  | 'r' => some '\r'
  | 'e' => some '\x1b'
  | ' ' => some ' '
  | '\x22' => some '\x22'
  | '/' => some '/'
  | '\\' => some '\\'
  | 'N' => some '\u0085'
  | '_' => some '\u00a0'
  | 'L' => some '\u2028'
  | 'P' => some '\u2029'
  | _ => none

/-- The number of hexadecimal digits of a numbered character. -/
def codeLength? : Char → Option Nat
  | 'x' => some 2
  | 'u' => some 4
  | 'U' => some 8
  | _ => none

/-- The character with this number in hexadecimal digits. -/
def coded? (ds : List Char) : Option Char :=
  let n := ofHex ds
  if ds.all isHex ∧ n.isValidChar then some (.ofNat n) else none

/-- Reads on in a scalar between quotes `quote`; a backslash escapes only between double quotes. -/
def quotedFrom (quote : Char) (m : Mark) (fold : Option Fold) (read : List Char) :
    List Char → Except Mark (List Char × Cursor)
  | [] => .error m
  | c :: cs =>
    if isGap c then quotedFrom quote (m.step c) (some ((fold.getD {}).feed c)) read cs
    else if m.column = 0 ∧ isDocumentMarker (c :: cs) then .error m
    else
      let read := Fold.append read fold
      if c = quote then
        match cs with
        | d :: ds =>
          if quote = '\'' ∧ d = '\'' then
            quotedFrom quote ((m.step c).step d) none ('\'' :: read) ds
          else .ok (read.reverse, ⟨m.step c, cs⟩)
        | [] => .ok (read.reverse, ⟨m.step c, []⟩)
      else if c = '\\' ∧ quote = '\x22' then
        match cs with
        | [] => .error m
        | e :: es =>
          let next := (m.step c).step e
          if isBreak e then quotedFrom quote next (some { broken := true }) read es
          else match escaped? e, codeLength? e with
            | some x, _ => quotedFrom quote next none (x :: read) es
            | none, none => .error m
            | none, some n =>
              match if es.length < n then none else coded? (es.take n) with
              | none => .error next
              | some x =>
                let past := Cursor.advance ⟨next, es⟩ n
                quotedFrom quote past.mark none (x :: read) (es.drop n)
      else quotedFrom quote (m.step c) none (c :: read) cs
termination_by cs => cs.length
decreasing_by all_goals (simp only [List.length_cons, List.length_drop]; omega)

/-! ## Block scalars -/

/-- What becomes of the line breaks at the end of a block. -/
inductive Chomping where
  | strip
  | clip
  | keep

/-- The number of columns, the line breaks and the rest after the empty lines at the head of a text;
lines are indented by up to `indent` spaces, or any number if it is zero. -/
def emptyLines (indent : Nat) (m : Mark) (widest : Nat) (breaks : List Char) :
    List Char → Except Mark (Nat × List Char × Cursor)
  | [] => .ok (max widest m.column, breaks, ⟨m, []⟩)
  | c :: cs =>
    let indenting := indent = 0 || m.column < indent
    if c = ' ' && indenting then emptyLines indent (m.step c) widest breaks cs
    else if c = '\t' && indenting then .error m
    else
      let widest := max widest m.column
      if isBreak c then emptyLines indent (m.step c) widest (breaks ++ [readBreak c]) cs
      else .ok (widest, breaks, ⟨m, c :: cs⟩)

/-- A block scalar as far as it is read. -/
structure BlockText where
  /-- The lines so far, last character first. -/
  text : List Char := []
  /-- The line break after the last line. -/
  lineBreak : List Char := []
  /-- The line breaks after that one. -/
  further : List Char := []
  /-- The last line starts with a blank. -/
  startsBlank : Bool := false

namespace BlockText

/-- Takes in the first character of a line. In a folded block a single line break between lines that
do not start with a blank is a space. -/
def startLine (literal : Bool) (b : BlockText) (c : Char) : BlockText :=
  let folds := ! literal && b.lineBreak = ['\n'] && ! b.startsBlank && ! isBlank c
  let joint := if folds then if b.further = [] then [' '] else [] else b.lineBreak
  { text := c :: (b.further.reverse ++ joint ++ b.text), startsBlank := isBlank c }

/-- The whole text. -/
def finish (chomping : Chomping) (b : BlockText) : List Char :=
  b.text.reverse ++ match chomping with
    | .strip => []
    | .clip => b.lineBreak
    | .keep => b.lineBreak ++ b.further

end BlockText

/-- Reads on in a block scalar whose lines are indented by `indent`, inside a line or between lines.
-/
def blockFrom (literal : Bool) (indent : Nat) (inLine : Bool) (m : Mark) (b : BlockText) :
    List Char → Except Mark (BlockText × Cursor)
  | [] => .ok (b, ⟨m, []⟩)
  | c :: cs =>
    if inLine then
      if isBreak c then
        blockFrom literal indent false (m.step c) { b with lineBreak := [readBreak c] } cs
      else blockFrom literal indent true (m.step c) { b with text := c :: b.text } cs
    else if m.column < indent ∧ c = ' ' then blockFrom literal indent false (m.step c) b cs
    else if m.column < indent ∧ c = '\t' then .error m
    else if isBreak c then
      blockFrom literal indent false (m.step c) { b with further := b.further ++ [readBreak c] } cs
    else if m.column = indent then
      blockFrom literal indent true (m.step c) (b.startLine literal c) cs
    else .ok (b, ⟨m, c :: cs⟩)

/-- The chomping that a sign asks for. -/
def chomping? : Char → Option Chomping
  | '+' => some .keep
  | '-' => some .strip
  | _ => none

/-- The signs after the indicator of a block: chomping and indentation in any order. -/
def blockHeader (c : Cursor) : Except Mark (Chomping × Nat × Cursor) :=
  match c.rest with
  | a :: b :: _ =>
    match chomping? a, chomping? b with
    | some chomping, _ =>
      if b.isDigit then
        if b = '0' then .error (c.advance 1).mark else .ok (chomping, b.toNat - 48, c.advance 2)
      else .ok (chomping, 0, c.advance 1)
    | none, second =>
      if a.isDigit then
        if a = '0' then .error c.mark
        else match second with
          | some chomping => .ok (chomping, a.toNat - 48, c.advance 2)
          | none => .ok (.clip, a.toNat - 48, c.advance 1)
      else .ok (.clip, 0, c)
  | [a] =>
    match chomping? a with
    | some chomping => .ok (chomping, 0, c.advance 1)
    | none =>
      if a.isDigit then
        if a = '0' then .error c.mark else .ok (.clip, a.toNat - 48, c.advance 1)
      else .ok (.clip, 0, c)
  | [] => .ok (.clip, 0, c)

/-- Reads a block scalar after its indicator; `parent` is the indentation of what it stands in. -/
def blockScalar (literal : Bool) (parent : Int) (c : Cursor) :
    Except Mark (List Char × Cursor) := do
  let (chomping, increment, c) ← blockHeader c
  let c := c.skipComment
  if ! c.atLineEnd then throw c.mark
  let c := c.advance 1
  let declared := if increment = 0 then 0 else ((max parent 0) + increment).toNat
  let (widest, breaks, c) ← emptyLines declared c.mark 0 [] c.rest
  let indent := if declared = 0 then max widest (max (parent + 1).toNat 1) else declared
  let (b, c) ← blockFrom literal indent false c.mark { further := breaks } c.rest
  return (b.finish chomping, c)

end TableDoc.Yaml

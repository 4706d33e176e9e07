import TableDoc.Decimal.Layout

/-!
# JSON

`Json` keeps the members of an object in the order in which they are written, repeated names
included. `Json.compact` writes without spaces, `Json.pretty` with one item a line, indented by two
spaces.
-/

namespace TableDoc

/-- A JSON value; objects are lists of members. -/
inductive Json where
  | null
  | boolean (b : Bool)
  | natural (n : Nat)
  | number (x : Float)
  | text (s : String)
  | array (items : List Json)
  | object (members : List (String × Json))
  deriving Inhabited

namespace Json

/-- Numbers are positional from `0.00001` up to below `10 ^ 16`, whole ones end in `.0`, and a
positive exponent has its sign. -/
def numberLayout : Decimal.Layout := ⟨some (-5, 15), true, true, .even⟩

/-- A number, or `null` in place of a number that JSON cannot write. -/
def writeNumber (x : Float) : String :=
  if x.isFinite then .ofList (numberLayout.write x) else "null"

/-- A character as it stands in a string: quote, backslash and controls are escaped. -/
def escape (c : Char) : List Char :=
  if c = '\x22' then ['\\', '\x22']
  else if c = '\\' then ['\\', '\\']
  else if c = '\n' then ['\\', 'n']
  else if c = '\r' then ['\\', 'r']
  else if c = '\t' then ['\\', 't']
  else if c = '\x08' then ['\\', 'b']
  else if c = '\x0c' then ['\\', 'f']
  else if c.toNat < 0x20 then
    '\\' :: 'u' :: '0' :: '0' :: Nat.digitChar (c.toNat / 16) :: [Nat.digitChar (c.toNat % 16)]
  else [c]

/-- A string in its quotes. -/
def quote (s : String) : String :=
  .ofList ('\x22' :: s.toList.flatMap escape ++ ['\x22'])

mutual

/-- Without spaces. -/
def compact : Json → String
  | null => "null"
  | boolean b => if b then "true" else "false"
  | natural n => n.repr
  | number x => writeNumber x
  | text s => quote s
  | array items => "[" ++ ",".intercalate (compactItems items) ++ "]"
  | object members => "\x7b" ++ ",".intercalate (compactMembers members) ++ "\x7d"

/-- The items of an array. -/
def compactItems : List Json → List String
  | [] => []
  | j :: js => compact j :: compactItems js

/-- The members of an object. -/
def compactMembers : List (String × Json) → List String
  | [] => []
  | (name, j) :: members => (quote name ++ ":" ++ compact j) :: compactMembers members

end

/-- Encloses items on lines of their own; `indent` is the number of spaces before the brackets. -/
def enclose (indent : Nat) (opening closing : String) : List String → String
  | [] => opening ++ closing
  | items =>
    let line := "\n" ++ "".pushn ' ' (indent + 2)
    opening ++ line ++ ("," ++ line).intercalate items ++ "\n" ++ "".pushn ' ' indent ++ closing

mutual

/-- One item a line; `indent` is the number of spaces before the value's own line. -/
def prettyAt (indent : Nat) : Json → String
  | null => "null"
  | boolean b => if b then "true" else "false"
  | natural n => n.repr
  | number x => writeNumber x
  | text s => quote s
  | array items => enclose indent "[" "]" (prettyItems (indent + 2) items)
  | object members => enclose indent "\x7b" "\x7d" (prettyMembers (indent + 2) members)

/-- The items of an array. -/
def prettyItems (indent : Nat) : List Json → List String
  | [] => []
  | j :: js => prettyAt indent j :: prettyItems indent js

/-- The members of an object. -/
def prettyMembers (indent : Nat) : List (String × Json) → List String
  | [] => []
  | (name, j) :: members =>
    (quote name ++ ": " ++ prettyAt indent j) :: prettyMembers indent members

end

/-- One item a line, indented by two spaces. -/
def pretty (j : Json) : String := prettyAt 0 j

end Json

end TableDoc

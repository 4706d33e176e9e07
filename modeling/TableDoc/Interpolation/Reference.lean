import TableDoc.Compilation.Result

/-!
# References to aggregates

A reference names an aggregate of a table and, for an aggregate with groups, a group:
`table.aggregate` or `table.aggregate[group]`, where the group may be in quotes. `Reference.ofText?`
reads one and `Reference.resolve` finds the value.
-/

namespace TableDoc

/-- A reference to the value of an aggregate. -/
structure Reference where
  table : String
  aggregate : String
  group : Option String
  deriving DecidableEq, Repr

namespace Reference

/-- The characters of names: letters, digits and underscores of ASCII. -/
def isNameChar (c : Char) : Bool := c.isAlphanum || c = '_'

/-- A name at the head of a text, and what follows it. -/
def name? (cs : List Char) : Option (String × List Char) :=
  let name := cs.takeWhile isNameChar
  if name = [] then none else some (.ofList name, cs.dropWhile isNameChar)

/-- A text in quotes of one kind, without them. -/
def unquote? (quote : Char) : List Char → Option (List Char)
  | [] => none
  | c :: cs => if c = quote ∧ cs.getLast? = some quote then some cs.dropLast else none

/-- A text without the quotes around it. -/
def unquote (cs : List Char) : List Char :=
  ((unquote? '\x22' cs).orElse fun _ => unquote? '\'' cs).getD cs

/-- The group that a text in brackets selects. -/
def group? : List Char → Option String
  | '[' :: cs =>
    match cs.dropWhile (· ≠ ']') with
    | [_] => some (.ofList (unquote (Text.trim (cs.takeWhile (· ≠ ']')))))
    | _ => none
  | _ => none

/-- The reference that a text is, blanks at the ends apart. -/
def ofText? (cs : List Char) : Option Reference :=
  match name? (Text.trim cs) with
  | some (table, '.' :: cs) =>
    match name? cs with
    | some (aggregate, []) => some ⟨table, aggregate, none⟩
    | some (aggregate, cs) => (group? cs).map fun group => ⟨table, aggregate, some group⟩
    | none => none
  | _ => none

/-- Why a reference has no value. -/
inductive Fault where
  /-- There is no such aggregate. -/
  | unknown
  /-- A group of an aggregate without groups. -/
  | notGrouped (group : String)
  /-- No group of an aggregate with groups. -/
  | grouped
  | unknownGroup (group : String)
  deriving DecidableEq, Repr

/-- The text of a fault of a reference. -/
def Fault.message (r : Reference) : Fault → String
  | unknown => s!"Unknown aggregate reference {r.table}.{r.aggregate}"
  | notGrouped group =>
    s!"Aggregate {r.table}.{r.aggregate} is not grouped; cannot select [{group}]"
  | grouped =>
    s!"Aggregate {r.table}.{r.aggregate} is grouped; select a group with " ++
      s!"{r.table}.{r.aggregate}[key]"
  | unknownGroup group => s!"Unknown group {group} for aggregate {r.table}.{r.aggregate}"

/-- The fault as a failure of the document. -/
def Fault.toDiagnostic (r : Reference) (span : Span) (f : Fault) : Diagnostic :=
  { code := .aggregateReference, message := f.message r, table := r.table, aggregate := r.aggregate,
    span }

/-- The value that a reference names. An aggregate without groups comes before one with groups. -/
def resolve (tables : List TableResult) (r : Reference) : Except Fault Scalar :=
  match tables.find? (·.name = r.table) with
  | none => .error .unknown
  | some table =>
    match table.aggregates.get? r.aggregate, table.grouped? r.aggregate, r.group with
    | some value, _, none => .ok value
    | some _, _, some group => .error (.notGrouped group)
    | none, none, _ => .error .unknown
    | none, some _, none => .error .grouped
    | none, some aggregate, some group =>
      match aggregate.get? group with
      | some value => .ok value
      | none => .error (.unknownGroup group)

end Reference

end TableDoc

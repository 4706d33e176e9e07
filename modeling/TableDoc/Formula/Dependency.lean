import TableDoc.Formula.References

/-!
# Dependency order

Formulas that are given names may read each other. `Dependencies.build` finds what each reads among
them and an order in which every name comes after the names it reads. The order is that of a search
that visits the names as they are declared and, before a name is placed, the names it reads. A name
that is met again before it is placed shows a cycle.
-/

namespace TableDoc.Formula

/-- A formula under a name. -/
structure Definition where
  name : String
  formula : Expr

/-- What a defined name reads among the defined names, each once, first read first. -/
structure Reading where
  name : String
  reads : List String
  deriving DecidableEq, Repr

/-- The defined names, what they read, and an order in which they can be computed. -/
structure Dependencies where
  readings : List Reading
  order : List String
  deriving DecidableEq, Repr

namespace Dependencies

/-- What a definition reads among `names`. -/
def readingOf (names : List String) (d : Definition) : Except Error Reading := do
  let references ← d.formula.references
  return ⟨d.name, (references.filter (· ∈ names)).eraseDups⟩

/-- The names that a name reads; of several definitions of a name the last counts. -/
def readBy (readings : List Reading) (name : String) : List String :=
  ((readings.reverse.find? (·.name = name)).map Reading.reads).getD []

section
variable (readings : List Reading)

mutual

/-- Places a name after the names it reads, in an order that is being built. The names that are
being placed are on the stack, innermost first; those that are not are `free`. -/
def place (free stack order : List String) (name : String) : Except Error (List String) :=
  if name ∈ order then .ok order
  else if name ∈ free then do
    let order ← placeAll (free.filter (· ≠ name)) (name :: stack) order (readBy readings name)
    return order ++ [name]
  else .error (.cycle (name :: (stack.takeWhile (· ≠ name)).reverse ++ [name]))
termination_by (free.length, 0)
decreasing_by
  exact .left _ _ (List.length_filter_lt_length_iff_exists.2 ⟨name, ‹_›, by simp⟩)

/-- Places names one after another. -/
def placeAll (free stack order : List String) : List String → Except Error (List String)
  | [] => .ok order
  | name :: names => do
    let order ← place free stack order name
    placeAll free stack order names
termination_by names => (free.length, names.length + 1)
decreasing_by
  · exact .right _ (by simp)
  · exact .right _ (by simp)

end

end

/-- What the definitions read and an order for them, or a cycle among them. -/
def build (definitions : List Definition) : Except Error Dependencies := do
  let names := definitions.map Definition.name
  let readings ← definitions.mapM (readingOf names)
  let order ← placeAll readings names [] [] names
  return { readings, order }

/-- The pairs of a name and one that reads it, as the readers are declared. -/
def edges (d : Dependencies) : List (String × String) :=
  d.readings.flatMap fun r => r.reads.map (·, r.name)

/-- The names that a name reads. -/
def precedents (d : Dependencies) (name : String) : List String := readBy d.readings name

/-- The names that read a name. -/
def dependents (d : Dependencies) (name : String) : List String :=
  (d.edges.filter (·.1 = name)).map Prod.snd

end Dependencies

end TableDoc.Formula

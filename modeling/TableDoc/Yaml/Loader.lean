import TableDoc.Yaml.Value

/-!
# Loaders of YAML

A `Loader` gives the value of a YAML text, or says why the text has none. The front section of a
document is read by one, and what is proved of documents holds for every loader. `Yaml.Load` has the
one that the program runs with.
-/

namespace TableDoc.Yaml

/-- A place in a text; its lines and their columns count from one. -/
structure Location where
  line : Nat
  column : Nat
  deriving DecidableEq, Repr

/-- Why a text has no value. -/
structure Failure where
  /-- What is wrong, if the loader has words for it. -/
  text : Option String
  /-- Where it is wrong, if there is one place for it. -/
  location : Option Location
  deriving DecidableEq, Repr

/-- A reader of YAML. -/
class Loader where
  /-- The value of a text, or why it has none. -/
  load : List Char → Except Failure Value

end TableDoc.Yaml

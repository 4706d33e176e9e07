import TableDoc.Cell.Dates
import TableDoc.CommandLine.Arguments
import TableDoc.Compilation
import TableDoc.Yaml.Load

/-!
# The command line

`run` carries out a command line. Files are read and written through `Files`, in any monad, so that
what is written where can be said without a disk. The status is 0 if all went well, 1 if the
document or a file was at fault, and 2 if the arguments were.
-/

namespace TableDoc

/-- A JSON value with the members of objects in the order of their names. -/
def Json.sorted : Json → Json
  | .array items => .array (sortedItems items)
  | .object members =>
    .object ((sortedMembers members).mergeSort fun m n => m.1 ≤ n.1)
  | j => j
where
  /-- Items with their members in order. -/
  sortedItems : List Json → List Json
    | [] => []
    | j :: js => j.sorted :: sortedItems js
  /-- Members whose values have their members in order. -/
  sortedMembers : List (String × Json) → List (String × Json)
    | [] => []
    | (name, j) :: members => (name, j.sorted) :: sortedMembers members

namespace CommandLine

/-- Why a file cannot be read or written. -/
inductive FileFault where
  /-- The system's text and number for what is wrong. -/
  | system (text : String) (number : Nat)
  /-- The file is no text. -/
  | notText
  deriving DecidableEq, Repr

/-- The text of a fault. -/
def FileFault.message : FileFault → String
  | system text number => s!"{text} (os error {number})"
  | notText => "stream did not contain valid UTF-8"

/-- Access to files. -/
structure Files (m : Type → Type) where
  read : String → m (Except FileFault ByteArray)
  write : String → String → m (Except FileFault Unit)

/-- What a run says, and its status. -/
structure Report where
  status : Nat
  out : String := ""
  err : String := ""
  deriving DecidableEq, Repr

/-- The name and version of the program. -/
def versionText : String := "mdxtab 0.1.0\n"

/-- What is said if the arguments do not make a request. -/
def usageText : String :=
  "Usage: mdxtab [-v] validate [--json] INPUT\n" ++
  "       mdxtab [-v] render [--json] [--no-frontmatter] [-o OUTPUT] INPUT\n"

/-- A failure of a file. -/
def fileReport (action path : String) (fault : FileFault) : Report :=
  { status := 1, err := s!"Error: Failed to {action} '{path}': {fault.message}\n" }

/-- A failure of a document on one line: the file, the place counted from one, and the failure. -/
def failureLine (path : String) (d : Diagnostic) : String :=
  let place := match d.span with
    | some span => s!":{span.start.line + 1}:{span.start.character + 1}"
    | none => ""
  let context := match d.context? with
    | some context => s!" ({context})"
    | none => ""
  s!"{path}{place}: {d.toText}{context}\n"

/-- The text with a line feed at its end. -/
def endLine (s : String) : String := if s.toList.getLast? = some '\n' then s else s.push '\n'

/-- What `validate` says. -/
def validateReport (json : Bool) (path : String) (d : Document) : Report :=
  let failures := validate d
  let status := if failures.isEmpty then 0 else 1
  if json then
    let body : Json := .object [("diagnostics", .array (failures.map Diagnostic.toJson))]
    { status, out := body.sorted.pretty ++ "\n" }
  else if failures.isEmpty then { status, out := "OK\n" }
  else { status, err := String.join (failures.map (failureLine path)) }

/-- The text that `render` writes. -/
def renderedText (withFront json : Bool) (d : Document) : Except Diagnostic String := do
  let result ← compile d withFront
  return endLine (if json then result.toJson.pretty else result.rendered)

variable {m : Type → Type} [Monad m] (files : Files m)

/-- Carries out a command on a document. -/
def execute (path : String) (d : Document) : Command → m Report
  | .validate json => return validateReport json path d
  | .render withFront json output =>
    match renderedText withFront json d, output with
    | .error failure, _ => return { status := 1, err := failureLine path failure }
    | .ok text, none => return { status := 0, out := text }
    | .ok text, some target => do
      match ← files.write target text with
      | .ok () => return { status := 0 }
      | .error fault => return fileReport "write" target fault

/-- Carries out a command line. -/
def run (arguments : List String) : m Report := do
  match Request.ofArguments? arguments with
  | none => return { status := 2, err := usageText }
  | some .version => return { status := 0, out := versionText }
  | some (.run command path) =>
    match ← files.read path with
    | .error fault => return fileReport "read" path fault
    | .ok bytes =>
      match String.fromUTF8? bytes with
      | none => return fileReport "read" path .notText
      | some text => execute files path (.ofText text) command

end CommandLine

end TableDoc

/-!
# Arguments

The arguments of the command line are a command and its options. `Request.ofArguments?` reads them
from left to right; it gives nothing if they do not make a request. Short options may stand together
(`-vo out.md`), the value of an option may be in the same argument (`-oout.md`, `--output=out.md`),
and after `--` nothing is an option. No option may be repeated, except that `--verbose` may stand
once before and once after the command.
-/

namespace TableDoc.CommandLine

/-- What to do with a document. -/
inductive Command where
  /-- Say what is wrong with it. -/
  | validate (json : Bool)
  /-- Write it with its values; `withFront` keeps the front section. -/
  | render (withFront json : Bool) (output : Option String)
  deriving DecidableEq, Repr

/-- What the command line asks for. -/
inductive Request where
  | version
  | run (command : Command) (input : String)
  deriving DecidableEq, Repr

/-- The names of commands. -/
inductive Verb where
  | validate
  | render
  deriving DecidableEq, Repr

/-- The command with this name. -/
def Verb.ofName? : String → Option Verb
  | "validate" => some validate
  | "render" => some render
  | _ => none

/-- The options that have no value. -/
inductive Flag where
  | verbose
  | json
  | noFront
  deriving DecidableEq, Repr

/-- The flag with this long name, of those that a command has. -/
def Flag.ofName? (v : Verb) : String → Option Flag
  | "verbose" => some verbose
  | "json" => some json
  | "no-frontmatter" => if v = .render then some noFront else none
  | _ => none

/-- What the arguments after a command have said so far. -/
structure Options where
  flags : List Flag := []
  output : Option String := none
  input : Option String := none

namespace Options

/-- Sets a flag that is not set yet. -/
def addFlag? (o : Options) (f : Flag) : Option Options :=
  if f ∈ o.flags then none else some { o with flags := f :: o.flags }

/-- Sets the output, which has to be the first and not empty. -/
def setOutput? (o : Options) (path : String) : Option Options :=
  if o.output.isSome || path = "" then none else some { o with output := path }

/-- Sets the input, which has to be the first and not empty. -/
def setInput? (o : Options) (path : String) : Option Options :=
  if o.input.isSome || path = "" then none else some { o with input := path }

/-- The request that the options make for a command. -/
def request? (o : Options) (v : Verb) : Option Request :=
  o.input.map fun input =>
    match v with
    | .validate => .run (.validate (.json ∈ o.flags)) input
    | .render => .run (.render (.noFront ∉ o.flags) (.json ∈ o.flags) o.output) input

end Options

/-- What an argument does to the options. -/
inductive Step where
  | next (o : Options)
  /-- The next argument is the output. -/
  | awaitOutput (o : Options)

/-- A text that may stand after an option as its value: it does not look like an option itself. -/
def isValue (s : String) : Bool := s = "-" || s.toList.head? ≠ some '-'

/-- Reads short options that stand together. -/
def shortOptions? (v : Verb) (o : Options) : List Char → Option Step
  | [] => some (.next o)
  | 'v' :: cs => (o.addFlag? .verbose).bind fun o => shortOptions? v o cs
  | 'o' :: cs =>
    if v ≠ .render then none
    else match cs with
      | [] => some (.awaitOutput o)
      | '=' :: path => (o.setOutput? (.ofList path)).map .next
      | path => (o.setOutput? (.ofList path)).map .next
  | _ => none

/-- Reads a long option, without its dashes. -/
def longOption? (v : Verb) (o : Options) (text : List Char) : Option Step :=
  let name := text.takeWhile (· ≠ '=')
  if name = "output".toList ∧ v = .render then
    match text.dropWhile (· ≠ '=') with
    | [] => some (.awaitOutput o)
    | _ :: path => (o.setOutput? (.ofList path)).map .next
  else ((Flag.ofName? v (.ofList text)).bind o.addFlag?).map .next

/-- Reads one argument after a command. -/
def step? (v : Verb) (o : Options) (argument : String) : Option Step :=
  match argument.toList with
  | '-' :: '-' :: name => longOption? v o name
  | '-' :: c :: cs => shortOptions? v o (c :: cs)
  | _ => (o.setInput? argument).map .next

/-- Reads the arguments after a command. -/
def options? (v : Verb) (o : Options) : List String → Option Options
  | [] => some o
  | "--" :: paths => paths.foldlM Options.setInput? o
  | argument :: arguments =>
    match step? v o argument with
    | none => none
    | some (.next o) => options? v o arguments
    | some (.awaitOutput o) =>
      match arguments with
      | path :: arguments =>
        if isValue path then (o.setOutput? path).bind fun o => options? v o arguments else none
      | [] => none

/-- Reads the short options before the command: whether `--verbose` is set, or the version is asked
for. -/
def leadingShort? (verbose : Bool) : List Char → Option (Bool ⊕ Request)
  | [] => some (.inl verbose)
  | 'v' :: cs => if verbose then none else leadingShort? true cs
  | 'V' :: _ => some (.inr .version)
  | _ => none

/-- Reads arguments from the start, given whether `--verbose` is set. -/
def request? (verbose : Bool) : List String → Option Request
  | [] => none
  | argument :: arguments =>
    match Verb.ofName? argument, argument.toList with
    | some v, _ => (options? v {} arguments).bind (·.request? v)
    | none, '-' :: '-' :: _ =>
      if argument = "--version" then some .version
      else if argument = "--verbose" && ! verbose then request? true arguments
      else none
    | none, '-' :: c :: cs =>
      match leadingShort? verbose (c :: cs) with
      | some (.inl verbose) => request? verbose arguments
      | some (.inr request) => some request
      | none => none
    | none, _ => none

/-- What the arguments ask for. -/
def Request.ofArguments? (arguments : List String) : Option Request := request? false arguments

end TableDoc.CommandLine

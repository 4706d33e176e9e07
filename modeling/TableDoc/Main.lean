import TableDoc.CommandLine

/-!
# The program

Carries out the command line with the files of the system.
-/

namespace TableDoc.CommandLine

/-- What the system says about a file. -/
def FileFault.ofError : IO.Error → FileFault
  | .noFileOrDirectory _ number text => .system text number.toNat
  | .permissionDenied _ number text => .system text number.toNat
  | .inappropriateType _ number text => .system text number.toNat
  | .invalidArgument _ number text => .system text number.toNat
  | .resourceExhausted _ number text => .system text number.toNat
  | .noSuchThing _ number text => .system text number.toNat
  | error => .system (toString error) 0

/-- Access to the files of the system. -/
def Files.ofSystem : Files IO where
  read path := do
    match ← (IO.FS.withFile path .read fun file => file.readBinToEnd).toBaseIO with
    | .ok bytes => return .ok bytes
    | .error error => return .error (.ofError error)
  write path text := do
    match ← (IO.FS.writeFile path text).toBaseIO with
    | .ok () => return .ok ()
    | .error error => return .error (.ofError error)

end TableDoc.CommandLine

/-- Carries out the command line. -/
def main (arguments : List String) : IO UInt32 := do
  let report ← TableDoc.CommandLine.run TableDoc.CommandLine.Files.ofSystem arguments
  IO.print report.out
  IO.eprint report.err
  return .ofNat report.status

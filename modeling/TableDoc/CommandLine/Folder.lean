import TableDoc.CommandLine

/-!
# A folder in memory

`Folder.files` gives a command line a folder that holds files and no other folders.
-/

namespace TableDoc.CommandLine

/-- Files by name. -/
structure Folder where
  contents : List (String × ByteArray)

namespace Folder

/-- What a path means in a folder. -/
inductive Target where
  /-- The folder itself, or the one around it. -/
  | folder
  /-- A file; `asFolder` if the path goes on as if it were a folder. -/
  | file (name : String) (asFolder : Bool)
  /-- Something below a name. -/
  | below (name : String)

/-- The meaning of a path; empty components and single points count for nothing. -/
def target (path : String) : Target :=
  let components := path.toList.splitOn '/'
  match components.filter fun c => c ≠ [] ∧ c ≠ ['.'] with
  | [] | [['.', '.']] => .folder
  | [name] => .file (.ofList name) (components.getLast? ≠ some name)
  | name :: _ => .below (.ofList name)

/-- The contents of a file. -/
def get? (f : Folder) (name : String) : Option ByteArray := f.contents.lookup name

/-- The fault of a path that leads nowhere. -/
def noSuchFile : FileFault := .system "No such file or directory" 2

/-- The fault of a path that goes through a file. -/
def notFolder : FileFault := .system "Not a directory" 20

/-- The fault of a path that leads to a folder. -/
def isFolder : FileFault := .system "Is a directory" 21

/-- Reads a file. -/
def read (f : Folder) (path : String) : Except FileFault ByteArray :=
  match target path with
  | .folder => .error isFolder
  | .file name asFolder =>
    match f.get? name with
    | some bytes => if asFolder then .error notFolder else .ok bytes
    | none => .error noSuchFile
  | .below name => .error (if (f.get? name).isSome then notFolder else noSuchFile)

/-- Writes a file. -/
def write (f : Folder) (path text : String) : Except FileFault Folder :=
  match target path with
  | .folder => .error isFolder
  | .file name asFolder =>
    if asFolder then .error (if (f.get? name).isSome then notFolder else isFolder)
    else .ok ⟨(name, text.toUTF8) :: f.contents.filter (·.1 ≠ name)⟩
  | .below name => .error (if (f.get? name).isSome then notFolder else noSuchFile)

/-- Access to the files of a folder. -/
def files : Files (StateM Folder) where
  read path := do return (← get).read path
  write path text := do
    match (← get).write path text with
    | .ok f => set f; return .ok ()
    | .error fault => return .error fault

end Folder

end TableDoc.CommandLine

import JsonSpan.CommandLine.Failure
import JsonSpan.Document

/-!
# Folders

The files around the program, and what comes of opening one or of creating a directory. A path is
followed name by name from the folder; every name but the last must be that of a directory, and so
must the last one if a slash follows it.

Nothing is known of what lies outside the folder: nothing can be opened there, and every directory
can be created.
-/

namespace JsonSpan

/-- A folder: its files, each with the names that lead to it. -/
structure Folder where
  files : List (List String × Bytes)
  deriving DecidableEq, Repr

namespace Folder

/-- What is found at a path. -/
inductive Entry where
  | file (content : Bytes)
  | directory
  deriving DecidableEq, Repr

/-- The names that a path consists of. -/
def names (path : String) : List String :=
  (path.toList.splitOn '/').map String.ofList

/-- The folder with some files, each under its path. -/
def ofFiles (files : List (String × Bytes)) : Folder :=
  ⟨files.map fun (path, content) => (names path, content)⟩

/-- What is found under names none of which is empty or a point. A directory is there if something
is in it. -/
def entry? (folder : Folder) (names : List String) : Option Entry :=
  match folder.files.lookup names with
  | some content => some (.file content)
  | none =>
    if names.isEmpty || folder.files.any (names.isPrefixOf ·.1) then some .directory else none

/-- The most bytes a name has. -/
def nameLimit : Nat := 255

/-- Follow names from the directory `here`. -/
def follow (folder : Folder) (here : List String) : List String → Except FileFault Entry
  | [] =>
    match folder.entry? here with
    | some entry => .ok entry
    | none => .error .notFound
  | name :: names =>
    match folder.entry? here with
    | none => .error .notFound
    | some (.file _) => .error .notDirectory
    | some .directory =>
      if name.utf8ByteSize > nameLimit then .error .tooLong
      else if name = "" ∨ name = "." then folder.follow here names
      else if name ≠ ".." then folder.follow (here ++ [name]) names
      else if here = [] then .error .notFound
      else folder.follow here.dropLast names

/-- Create what is missing under names from the directory `here`. -/
def create (folder : Folder) (here : List String) : List String → Except FileFault Unit
  | [] => .ok ()
  | name :: names =>
    if name.utf8ByteSize > nameLimit then .error .tooLong
    else if name = "" ∨ name = "." then folder.create here names
    else if name ≠ ".." then
      match folder.entry? (here ++ [name]) with
      | some (.file _) =>
        .error (if names.all (· = "") then .alreadyExists else .notDirectory)
      | _ => folder.create (here ++ [name]) names
    else if here = [] then .ok ()
    else folder.create here.dropLast names

/-- Whether a path does not start at the folder. -/
def isOutside (path : String) : Bool :=
  path.startsWith "/"

/-- Open the file at a path. A directory can be opened too, but then not be mapped. -/
def openDocument (folder : Folder) (path : String) : Except Failure Document :=
  if path = "" ∨ isOutside path then .error (.opening path .notFound)
  else
    match folder.follow [] (names path) with
    | .ok (.file content) => .ok (.ofFile content)
    | .ok .directory => .error (.mapping path .noDevice)
    | .error fault => .error (.opening path fault)

/-- Create a directory and all that leads to it. -/
def createDirectory (folder : Folder) (path : String) : Except Failure Unit :=
  if isOutside path then .ok ()
  else
    match folder.create [] (names path) with
    | .ok () => .ok ()
    | .error fault => .error (.creating path fault)

end Folder

end JsonSpan

/-!
# Manual pages

A program with subcommands has one manual page for each command. A page is named after the commands
that lead to its own, hyphens between them.
-/

namespace JsonSpan

/-- A command and its subcommands. -/
inductive Command where
  | mk (name : String) (subcommands : List Command)

namespace Command

def name : Command → String
  | mk name _ => name

def subcommands : Command → List Command
  | mk _ subcommands => subcommands

mutual

/-- The titles of the pages of a command whose page is titled `title`, and of those below it. -/
def titlesFrom (title : String) : Command → List String
  | mk _ subcommands => title :: titlesBelow title subcommands

/-- The titles of the pages of the subcommands of a command whose page is titled `title`. -/
def titlesBelow (title : String) : List Command → List String
  | [] => []
  | mk name subcommands :: more =>
    titlesFrom (title ++ "-" ++ name) (mk name subcommands) ++ titlesBelow title more

end

/-- The titles of all pages of a command. -/
def titles (c : Command) : List String :=
  c.titlesFrom c.name

/-- The file of the page with some title. -/
def pageFile (title : String) : String :=
  title ++ ".1"

/-- The page with some title. Its text stands in for the one that is generated from the help texts of
the command; only where the pages are is modelled. -/
def pageText (title : String) : String :=
  ".TH " ++ title ++ " 1\n.SH NAME\n" ++ title ++ "\n"

/-- The path of a file in a directory. -/
def pathIn (directory file : String) : String :=
  if directory.isEmpty || directory.endsWith "/" then directory ++ file
  else directory ++ "/" ++ file

/-- The paths of all pages in a directory, sorted by their file names. -/
def pagePaths (c : Command) (directory : String) : List String :=
  ((c.titles.map pageFile).mergeSort fun a b => decide (a ≤ b)).map (pathIn directory)

end Command

end JsonSpan

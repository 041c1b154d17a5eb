/-!
# Failures

What the program reports when it cannot do its work: what it was about to do and, beneath, why that
failed.
-/

namespace JsonSpan

/-- What the operating system says of a path. -/
inductive FileFault where
  | notFound
  | alreadyExists
  | noDevice
  | notDirectory
  | tooLong
  | other (number : Nat) (text : String)
  deriving DecidableEq, Repr

namespace FileFault

def number : FileFault → Nat
  | notFound => 2
  | alreadyExists => 17
  | noDevice => 19
  | notDirectory => 20
  | tooLong => 36
  | other number _ => number

/-- A fault in words. -/
def text : FileFault → String
  | notFound => "No such file or directory"
  | alreadyExists => "File exists"
  | noDevice => "No such device"
  | notDirectory => "Not a directory"
  | tooLong => "File name too long"
  | other _ text => text

def message (fault : FileFault) : String :=
  fault.text ++ " (os error " ++ toString fault.number ++ ")"

end FileFault

/-- What could not be done, and why. -/
structure Failure where
  context : String
  cause : Option String
  deriving DecidableEq, Repr

namespace Failure

/-- The lines of a text, each set in by four columns. -/
def indent (text : String) : String :=
  "    " ++ String.ofList (text.toList.flatMap fun c => if c = '\n' then "\n    ".toList else [c])

/-- The report of a failure. -/
def report (failure : Failure) : String :=
  match failure.cause with
  | none => "Error: " ++ failure.context ++ "\n"
  | some cause => "Error: " ++ failure.context ++ "\n\nCaused by:\n" ++ indent cause ++ "\n"

/-- A file that cannot be opened. -/
def opening (name : String) (fault : FileFault) : Failure :=
  ⟨"Failed to open " ++ name, some fault.message⟩

/-- A file whose bytes cannot be mapped. -/
def mapping (name : String) (fault : FileFault) : Failure :=
  ⟨"Failed to map " ++ name, some fault.message⟩

/-- A directory or file that cannot be created. -/
def creating (name : String) (fault : FileFault) : Failure :=
  ⟨"Failed to create " ++ name, some fault.message⟩

end Failure

end JsonSpan

import JsonSpan.CommandLine.Arguments
import JsonSpan.CommandLine.Folder
import JsonSpan.Manual
import JsonSpan.Output.Result
import JsonSpan.Session

/-!
# Outcomes

What a run of the program leaves behind: an exit code, what it wrote to the standard output, and
what it wrote to the standard error. The outcome is a function of the request and of the program's
surroundings, so that a run can be reasoned about; only the reading and writing itself happens
elsewhere.

The path of a query is read before the document is, and nothing is written unless all matches have
been found.
-/

namespace JsonSpan

/-- What a run of the program leaves behind. -/
structure Outcome where
  code : Nat
  output : Bytes
  errors : String
  deriving DecidableEq, Repr

/-- What a run finds around itself. -/
structure Surroundings where
  /-- The document in the file that the request names. -/
  document : Except Failure Document
  /-- What creating the directory for the manual pages comes to. -/
  created : Except Failure Unit
  /-- The directory for the manual pages if none is named. -/
  directory : String
  /-- The standard input. Without one that anything could be read from, a query without a file comes
  to the help text. -/
  input : Option Bytes
  /-- How a session writes its lines. -/
  style : SessionStyle
  /-- Whether results are in colour. -/
  color : Bool

/-- The program as a command. -/
def program : Command :=
  .mk "jps" [.mk "generate" [.mk "shell" [], .mk "man" []], .mk "repl" []]

def programVersion : String :=
  "0.1.0"

/-- How the program is called. This stands in for the help text that is generated from the switches,
and for the remark on arguments that make no sense. -/
def usage : String :=
  "Usage: jps [OPTIONS] [QUERY] [FILE] [COMMAND]\n"

namespace Outcome

/-- A run that did its work. -/
def success (output : Bytes) : Outcome :=
  ⟨0, output, ""⟩

/-- A run that failed after some output. -/
def failed (output : Bytes) (failure : Failure) : Outcome :=
  ⟨1, output, failure.report⟩

/-- A run that has nothing to do but to say so. Only the exit code, and where the text is written,
are those of the program; the texts stand in for generated ones. -/
def ofExit : Exit → Outcome
  | .misuse => ⟨2, [], usage⟩
  | .help => success (utf8 usage)
  | .version => success (utf8 (program.name ++ " " ++ programVersion ++ "\n"))

end Outcome

/-- The line with the number of matches. -/
def countLine (spans : List Span) : Bytes :=
  utf8 ("Found matches: " ++ toString spans.length ++ "\n")

namespace QueryRequest

/-- What is written about the matches of a query. -/
def output (request : QueryRequest) (color : Bool) (doc : Bytes) (spans : List Span) : Bytes :=
  let values : Bytes :=
    if request.spans then (Sink.unlimited.writeSpans spans).bytes
    else if request.noDisplay then []
    else (Sink.unlimited.writeResult color doc spans).bytes
  (if request.count then countLine spans else []) ++ values

/-- The document that a query is about: that of its file, or the standard input. -/
def document (request : QueryRequest) (surroundings : Surroundings) :
    Option (Except Failure Document) :=
  match request.file with
  | some _ => some surroundings.document
  | none => surroundings.input.map fun bytes => .ok (.ofStream bytes)

/-- The outcome of a query. -/
def outcome (request : QueryRequest) (surroundings : Surroundings) : Outcome :=
  match request.path with
  | none => .failed [] ⟨"Query string required unless using subcommand", none⟩
  | some text =>
    match Path.parse text with
    | .error error => .failed [] ⟨"Failed to parse query", some error.message⟩
    | .ok path =>
      match request.document surroundings with
      | none => .ofExit .help
      | some (.error failure) => .failed [] failure
      | some (.ok document) =>
        match path.select document.bytes with
        | .error fault => .failed [] ⟨"Failed to evaluate query", some fault.message⟩
        | .ok spans => .success (request.output surroundings.color document.bytes spans)

end QueryRequest

def sessionOutcome (surroundings : Surroundings) : Outcome :=
  match surroundings.document with
  | .error failure => .failed [] failure
  | .ok document =>
    let session := Session.ofDocument document.bytes
    match session.run surroundings.style (surroundings.input.getD []) with
    | (output, none, _) => .success output
    | (output, some fault, _) => .failed output ⟨fault.context, some fault.cause⟩

def manualOutcome (surroundings : Surroundings) (directory : Option String) : Outcome :=
  match surroundings.created with
  | .error failure => .failed [] failure
  | .ok () =>
    let pages := program.pagePaths (directory.getD surroundings.directory)
    .success (pages.flatMap fun page => utf8 ("Generated: " ++ page ++ "\n"))

/-- The words that the program can be called with. They stand in for the script that is generated for
a shell. -/
def completionWords : List String :=
  program.subcommands.map Command.name ++ Scope.program.switches.map fun s => "--" ++ s.word

namespace Request

/-- The outcome of a request. In place of a completion script there are the words that the program can
be called with, one a line. -/
def outcome (request : Request) (surroundings : Surroundings) : Outcome :=
  match request with
  | .query request => request.outcome surroundings
  | .session _ => sessionOutcome surroundings
  | .completions _ => .success (completionWords.flatMap fun word => utf8 (word ++ "\n"))
  | .manual directory => manualOutcome surroundings directory

def file? : Request → Option String
  | .query request => request.file
  | .session file => some file
  | _ => none

/-- Whether a request leaves the standard input alone. -/
def readsNothing : Request → Bool
  | .query request => request.path.isNone || request.file.isSome
  | .session _ => false
  | _ => true

def directory? : Request → Option String
  | .manual directory => directory
  | _ => none

end Request

/-- A folder and an input as surroundings, without a terminal and without colour. -/
def Folder.surroundings (folder : Folder) (input : Bytes) (request : Request) : Surroundings where
  document := folder.openDocument (request.file?.getD "")
  created := folder.createDirectory (request.directory?.getD "")
  directory := ""
  input := some input
  style := ⟨false, false⟩
  color := false

/-- The outcome of the program with some arguments in a folder. -/
def Outcome.ofArguments (folder : Folder) (input : Bytes) (args : List String) : Outcome :=
  match Request.ofArguments args with
  | .error exit => .ofExit exit
  | .ok request => request.outcome (folder.surroundings input request)

end JsonSpan

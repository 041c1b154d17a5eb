import JsonSpan.Output.Style
import JsonSpan.Query.Answer
import JsonSpan.Text.Utf8
import JsonSpan.Text.Characters

/-!
# Query sessions

A session answers one query after the other about one document. It keeps the paths it has read, by
the very text they were read from, so that a text is read as a path only once.

The lines of an input are queries too. Each gets one line of output, save blank ones: its answer, a
remark that nothing matched, or the error. An input that is not UTF-8 ends at the first line that is
not.
-/

namespace JsonSpan

/-- A session: its document, and the paths read with the texts they were read from. -/
structure Session where
  doc : Bytes
  known : List (String × Path)

/-- How a session writes its lines. -/
structure SessionStyle where
  prompt : Bool
  color : Bool
  deriving DecidableEq, Repr

/-- Why an input could not be read to its end. -/
inductive ReadFault where
  | notUtf8
  deriving DecidableEq, Repr

/-- What failed when an input could not be read. -/
def ReadFault.context : ReadFault → String
  | notUtf8 => "Failed to read query"

def ReadFault.cause : ReadFault → String
  | notUtf8 => "stream did not contain valid UTF-8"

namespace Session

def ofDocument (doc : Bytes) : Session :=
  ⟨doc, []⟩

def size (s : Session) : Nat :=
  s.known.length

def path (s : Session) (text : String) : Except PathError Path × Session :=
  match s.known.lookup text with
  | some p => (.ok p, s)
  | none =>
    match Path.parse text with
    | .ok p => (.ok p, { s with known := (text, p) :: s.known })
    | .error error => (.error error, s)

/-- The answer to one query. -/
def eval (s : Session) (text : String) : Except QueryError Bytes × Session :=
  match s.path text with
  | (.ok p, s) => (p.answer s.doc, s)
  | (.error error, s) => (.error (.path error), s)

/-- The line that answers a query. -/
def answerLine (color : Bool) (answer : Except QueryError Bytes) : Bytes :=
  match answer with
  | .ok [] => (Style.noMatch.paint color (utf8 "(no match)")).flatten ++ [Byte.lineFeed]
  | .ok bytes => bytes ++ [Byte.lineFeed]
  | .error error =>
    (Style.error.paint color (utf8 "error:")).flatten ++ utf8 (" " ++ error.message) ++
      [Byte.lineFeed]

/-- The output of one line of input, without the prompt. -/
def answerText (s : Session) (color : Bool) (line : List Char) : Bytes × Session :=
  match Text.trimChars line with
  | [] => ([], s)
  | cs =>
    let (answer, s) := s.eval (String.ofList cs)
    (answerLine color answer, s)

/-- The output of the lines of an input, and the fault that cut it short. -/
def runLines (s : Session) (style : SessionStyle) :
    List Bytes → Bytes × Option ReadFault × Session
  | [] => (if style.prompt then utf8 "> " else [], none, s)
  | line :: lines =>
    let prompt := if style.prompt then utf8 "> " else []
    match Utf8.decode? line with
    | none => (prompt, some .notUtf8, s)
    | some cs =>
      let (answer, s) := s.answerText style.color cs
      let (output, fault, s) := s.runLines style lines
      (prompt ++ answer ++ output, fault, s)

end Session

/-- A line without the carriage return at its end. -/
def dropCarriageReturn (line : Bytes) : Bytes :=
  if line.getLast? = some Byte.carriageReturn then line.dropLast else line

/-- The lines of an input without the line feeds, or the carriage returns before them. `line` holds
the bytes of the open line, last one first. -/
def linesFrom (line : Bytes) : Bytes → List Bytes
  | [] => if line.isEmpty then [] else [line.reverse]
  | b :: r =>
    if b = Byte.lineFeed then dropCarriageReturn line.reverse :: linesFrom [] r
    else linesFrom (b :: line) r

def inputLines (input : Bytes) : List Bytes :=
  linesFrom [] input

/-- The output of an input, and the fault that cut it short. -/
def Session.run (s : Session) (style : SessionStyle) (input : Bytes) :
    Bytes × Option ReadFault × Session :=
  s.runLines style (inputLines input)

end JsonSpan

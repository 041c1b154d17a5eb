import JsonSpan.CommandLine.Outcome

/-!
# The program

Reading and writing for a run of the program. What is read and what is written is settled by the
outcome of the request; only a session on a terminal answers line by line.
-/

namespace JsonSpan

/-- The fault with some number; the system may give the number negated. -/
def FileFault.ofNumber (code : UInt32) (text : String) : FileFault :=
  let number := if code < 0x80000000 then code.toNat else (0 - code).toNat
  let known := [notFound, alreadyExists, noDevice, notDirectory, tooLong]
  (known.find? (·.number == number)).getD (other number text)

/-- The fault behind an error of the operating system. -/
def FileFault.ofError : IO.Error → FileFault
  | .noFileOrDirectory _ code text | .inappropriateType _ code text
  | .invalidArgument _ code text | .permissionDenied _ code text
  | .resourceExhausted _ code text | .noSuchThing _ code text | .alreadyExists _ code text
  | .resourceVanished code text => .ofNumber code text
  | error => .other 5 error.toString

/-- The number of the fault of reading a directory like a file. -/
def isDirectoryNumber : Nat := 21

/-- The number of the fault of writing where nobody reads. -/
def brokenPipeNumber : Nat := 32

def openFile (name : String) : IO (Except Failure Document) := do
  match ← (IO.FS.readBinFile name).toBaseIO with
  | .ok content => return .ok (.ofFile content.toList)
  | .error error =>
    let fault := FileFault.ofError error
    if fault.number = isDirectoryNumber then return .error (.mapping name .noDevice)
    else return .error (.opening name fault)

/-- Write the manual pages into a directory that is created if it is missing. -/
def writePages (directory : String) : IO (Except Failure Unit) := do
  if let .error error ← (IO.FS.createDirAll directory).toBaseIO then
    return .error (.creating directory (.ofError error))
  for title in program.titles do
    let page := Command.pathIn directory (Command.pageFile title)
    if let .error error ← (IO.FS.writeFile page (Command.pageText title)).toBaseIO then
      return .error (.creating page (.ofError error))
  return .ok ()

def writeOutput (bytes : Bytes) : IO Unit := do
  let output ← IO.getStdout
  output.write (ByteArray.mk bytes.toArray)
  output.flush

/-- The bytes of a stream, after those that have been read. -/
partial def readStream (input : IO.FS.Stream) (read : ByteArray) : IO Bytes := do
  let more ← input.read 65536
  if more.isEmpty then return read.toList else readStream input (read ++ more)

/-- Answer the lines of a terminal one by one. -/
partial def converse (input : IO.FS.Stream) (color : Bool) (session : Session) : IO Unit := do
  writeOutput (utf8 "> ")
  let line ← input.getLine
  unless line.isEmpty do
    let (answer, session) := session.answerText color line.toList
    writeOutput answer
    converse input color session

/-- Carry out a request, short of writing its output. -/
def carryOut (request : Request) : IO Outcome := do
  let input ← IO.getStdin
  let onTerminal ← input.isTty
  let color ← (← IO.getStdout).isTty
  let here := (← IO.currentDir).toString
  let document ← match request.file? with
    | some name => openFile name
    | none => pure (.error (.opening "" .notFound))
  match request, document with
  | .session _, .ok document =>
    if onTerminal then
      converse input color (.ofDocument document.bytes)
      return .success []
  | _, _ => pure ()
  let created ← match request with
    | .manual directory => writePages (directory.getD here)
    | _ => pure (.ok ())
  let bytes ← if onTerminal || request.readsNothing then pure none
    else some <$> readStream input .empty
  return request.outcome ⟨document, created, here, bytes, ⟨onTerminal, color⟩, color⟩

/-- Write what an outcome leaves behind and return the exit code. -/
def Outcome.write (outcome : Outcome) : IO UInt32 := do
  IO.eprint outcome.errors
  match ← (writeOutput outcome.output).toBaseIO with
  | .ok () => return outcome.code.toUInt32
  | .error error =>
    let fault := FileFault.ofError error
    if fault.number = brokenPipeNumber then return 0
    IO.eprint (Failure.report ⟨"write to stdout", some fault.message⟩)
    return 1

end JsonSpan

/-- Run the program and return its exit code. -/
def main (args : List String) : IO UInt32 := do
  match JsonSpan.Request.ofArguments args with
  | .ok request => (← JsonSpan.carryOut request).write
  | .error exit => (JsonSpan.Outcome.ofExit exit).write

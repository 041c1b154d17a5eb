/-!
# Arguments

What the arguments of the program ask for. Switches may stand anywhere, and the letters of several
may be joined behind one hyphen; after `--` nothing is a switch or a subcommand any more. A
subcommand has switches of its own and takes all arguments after its name.

The first argument that fits nowhere ends the reading, as does a wish for help or for the version.
-/

namespace JsonSpan

/-- The switches. Only `outputDirectory` has a value. -/
inductive Switch where
  | count
  | spans
  | noDisplay
  | verbose
  | quiet
  | help
  | version
  | outputDirectory
  deriving DecidableEq, Repr

/-- The program or the subcommand that an argument is for. -/
inductive Scope where
  | program
  | session
  | generate
  | completions
  | manual
  deriving DecidableEq, Repr

namespace Scope

def switches : Scope → List Switch
  | program => [.count, .spans, .noDisplay, .verbose, .quiet, .help, .version]
  | session | generate | completions => [.verbose, .quiet, .help]
  | manual => [.outputDirectory, .verbose, .quiet, .help]

def arity : Scope → Nat
  | program => 2
  | session | completions => 1
  | generate | manual => 0

def subcommand? : Scope → String → Option Scope
  | program, "generate" => some generate
  | program, "repl" => some session
  | generate, "shell" => some completions
  | generate, "man" => some manual
  | _, _ => none

end Scope

namespace Switch

/-- The letter of a switch, if it has one. -/
def letter? : Switch → Option Char
  | noDisplay => some 'n'
  | verbose => some 'v'
  | quiet => some 'q'
  | help => some 'h'
  | version => some 'V'
  | outputDirectory => some 'o'
  | _ => none

def word : Switch → String
  | count => "count"
  | spans => "spans"
  | noDisplay => "no-display"
  | verbose => "verbose"
  | quiet => "quiet"
  | help => "help"
  | version => "version"
  | outputDirectory => "output-dir"

/-- Whether a switch may be given again. -/
def repeats : Switch → Bool
  | verbose | quiet => true
  | _ => false

end Switch

/-- What a query on the command line consists of. -/
structure QueryRequest where
  path : Option String
  file : Option String
  count : Bool
  spans : Bool
  noDisplay : Bool
  deriving DecidableEq, Repr

/-- What the arguments ask for. -/
inductive Request where
  | query (request : QueryRequest)
  | session (file : String)
  | completions (shell : String)
  | manual (directory : Option String)
  deriving DecidableEq, Repr

/-- Why the arguments ask for nothing that could be run: they are misused, or ask about the program
itself. -/
inductive Exit where
  | misuse
  | help
  | version
  deriving DecidableEq, Repr

/-- What one scope has been given so far. -/
structure Given where
  switches : List Switch
  values : List String
  directory : Option String
  deriving DecidableEq, Repr

namespace Given

def none : Given :=
  ⟨[], [], .none⟩

/-- One more switch without a value. -/
def switch (g : Given) (s : Switch) : Except Exit Given :=
  match s with
  | .help => .error .help
  | .version => .error .version
  | s =>
    if g.switches.contains s && !s.repeats then .error .misuse
    else .ok { g with switches := s :: g.switches }

/-- The output directory. It has a name, and is given once. -/
def setDirectory (g : Given) (value : String) : Except Exit Given :=
  if g.directory.isSome || value.isEmpty then .error .misuse
  else .ok { g with directory := some value }

/-- The shells that completions are for. -/
def shells : List String :=
  ["bash", "elvish", "fish", "powershell", "zsh"]

/-- Whether a scope takes a value as its plain argument with some index: files have names, and
shells are known. -/
def accepts (scope : Scope) (index : Nat) (value : String) : Bool :=
  match scope, index with
  | .program, 0 => true
  | .program, _ => !value.isEmpty
  | .session, _ => !value.isEmpty
  | .completions, _ => shells.contains value
  | _, _ => false

/-- One more plain argument. -/
def value (g : Given) (scope : Scope) (value : String) : Except Exit Given :=
  if g.values.length < scope.arity && accepts scope g.values.length value then
    .ok { g with values := g.values ++ [value] }
  else .error .misuse

/-- Verbose and quiet exclude each other. -/
def isConsistent (g : Given) : Bool :=
  !(g.switches.contains .verbose && g.switches.contains .quiet)

/-- What a scope asks for in the end. -/
def request (g : Given) (scope : Scope) : Except Exit Request :=
  if !g.isConsistent then .error .misuse
  else
    match scope, g.values with
    | .program, values =>
      if g.switches.isEmpty && values.isEmpty then .error .misuse
      else
        .ok <| .query {
          path := values[0]?
          file := values[1]?
          count := g.switches.contains .count
          spans := g.switches.contains .spans
          noDisplay := g.switches.contains .noDisplay }
    | .session, [file] => .ok (.session file)
    | .completions, [shell] => .ok (.completions shell)
    | .manual, _ => .ok (.manual g.directory)
    | _, _ => .error .misuse

/-- What remains to be read of an argument that may have ended with a switch whose value is the next
argument. -/
structure After where
  given : Given
  awaiting : Bool

/-- The letters behind one hyphen. The letter of a switch with a value has the rest as its value, an
equals sign left out, or else the next argument. -/
def letters (scope : Scope) (g : Given) : List Char → Except Exit After
  | [] => .ok ⟨g, false⟩
  | c :: cs =>
    match scope.switches.find? (·.letter? == some c) with
    | .none => .error .misuse
    | some .outputDirectory =>
      match cs with
      | [] => .ok ⟨g, true⟩
      | '=' :: value => do return ⟨← g.setDirectory (String.ofList value), false⟩
      | value => do return ⟨← g.setDirectory (String.ofList value), false⟩
    | some s => do (← g.switch s).letters scope cs

/-- The word behind two hyphens, and the value behind an equals sign. -/
def longSwitch (scope : Scope) (g : Given) (text : List Char) : Except Exit After :=
  let name := String.ofList (text.takeWhile (· != '='))
  match scope.switches.find? (·.word == name), text.dropWhile (· != '=') with
  | .none, _ => .error .misuse
  | some .outputDirectory, [] => .ok ⟨g, true⟩
  | some .outputDirectory, _ :: value => do
    return ⟨← g.setDirectory (String.ofList value), false⟩
  | some s, [] => do return ⟨← g.switch s, false⟩
  | some _, _ :: _ => .error .misuse

/-- Read the arguments of a scope. `trailing` says whether `--` has been read, `awaiting` whether
the value of a switch comes next. -/
def read (scope : Scope) (g : Given) (trailing awaiting : Bool) :
    List String → Except Exit Request
  | [] => if awaiting then .error .misuse else g.request scope
  | arg :: args => do
    if trailing then (← g.value scope arg).read scope true false args
    else
      match arg.toList with
      | ['-', '-'] => if awaiting then .error .misuse else g.read scope true false args
      | '-' :: '-' :: text =>
        if awaiting then .error .misuse
        else
          let after ← g.longSwitch scope text
          after.given.read scope false after.awaiting args
      | '-' :: c :: cs =>
        if awaiting then .error .misuse
        else
          let after ← g.letters scope (c :: cs)
          after.given.read scope false after.awaiting args
      | _ =>
        if awaiting then (← g.setDirectory arg).read scope false false args
        else
          match scope.subcommand? arg with
          | some inner =>
            let request ← Given.none.read inner false false args
            if g.isConsistent then return request else throw .misuse
          | .none =>
            if scope = .generate ∧ arg = "help" then throw .help
            else (← g.value scope arg).read scope false false args

end Given

/-- What the arguments of the program ask for. -/
def Request.ofArguments (args : List String) : Except Exit Request :=
  Given.none.read .program false false args

end JsonSpan

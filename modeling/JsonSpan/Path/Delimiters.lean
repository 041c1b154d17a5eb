import JsonSpan.Path.Error

/-!
# Delimiters left open

Before a text is read as a path, its brackets and parentheses are matched, so that one which is
never closed is reported as such, with the place where it was opened. Quoted strings and regular
expressions do not count: a quote opens a string anywhere, and a slash opens a regular expression
right after `=~`.

A parenthesis right after `[?` opens the filter of that bracket. If delimiters are left open, the
outermost open filter is reported, or else the outermost open bracket.
-/

namespace JsonSpan

/-- What an open delimiter is. -/
inductive DelimiterKind where
  | bracket
  | parenthesis
  | filter
  deriving DecidableEq, Repr

/-- An open delimiter. A filter has the offset of its bracket, the others have their own. -/
structure Delimiter where
  kind : DelimiterKind
  offset : Nat
  deriving DecidableEq, Repr

/-- Whether a character is code or part of a literal, which ends at a closing character that no
backslash precedes. -/
inductive Lexical where
  | code
  | literal (close : Char) (escaped : Bool)
  deriving DecidableEq, Repr

/-- Where the matching of delimiters stands: what is open, innermost first, and the last two
characters of code that are not white space, the last one first. -/
structure DelimiterScan where
  frames : List Delimiter
  lexical : Lexical
  last : Char × Char
  deriving DecidableEq, Repr

namespace DelimiterScan

/-- At the start of a text nothing is open and nothing precedes. -/
def start : DelimiterScan :=
  ⟨[], .code, ('\x00', '\x00')⟩

/-- The ASCII white space that is looked through for `=~` and `[?`. -/
def isSpace (c : Char) : Bool :=
  c == ' ' || c == '\t' || c == '\n' || c == '\x0c' || c == '\r'

/-- The error for delimiters left open. -/
def unclosed (frames : List Delimiter) : PathError :=
  let outermost := frames.reverse
  match outermost.find? (·.kind == .filter) with
  | some frame => .openFilter frame.offset
  | none =>
    match outermost.find? (·.kind == .bracket) with
    | some frame => .openBracket frame.offset
    | none => .openBracket 0

/-- What is open after a character of code at an offset. A closer without its opener is let pass,
but a bracket cannot close before the parentheses in it. -/
def nest (s : DelimiterScan) (offset : Nat) (c : Char) : Except PathError (List Delimiter) :=
  match c, s.frames with
  | '[', frames => .ok (⟨.bracket, offset⟩ :: frames)
  | '(', ⟨.bracket, opened⟩ :: frames =>
    if s.last.1 = '?' then .ok (⟨.filter, opened⟩ :: ⟨.bracket, opened⟩ :: frames)
    else .ok (⟨.parenthesis, offset⟩ :: ⟨.bracket, opened⟩ :: frames)
  | '(', frames => .ok (⟨.parenthesis, offset⟩ :: frames)
  | ')', ⟨.bracket, opened⟩ :: frames => .ok (⟨.bracket, opened⟩ :: frames)
  | ')', _ :: frames => .ok frames
  | ']', ⟨.bracket, _⟩ :: frames => .ok frames
  | ']', frame :: frames => .error (unclosed (frame :: frames))
  | _, frames => .ok frames

/-- The lexical state after a character of code. -/
def opened (s : DelimiterScan) (c : Char) : Lexical :=
  if c = '"' ∨ c = '\'' then .literal c false
  else if c = '/' ∧ s.last = ('~', '=') then .literal '/' false
  else .code

/-- The lexical state after a character of a literal. -/
def continued (close : Char) (escaped : Bool) (c : Char) : Lexical :=
  if escaped then .literal close false
  else if c = '\\' then .literal close true
  else if c = close then .code
  else .literal close false

/-- One character further. -/
def step (s : DelimiterScan) (offset : Nat) (c : Char) : Except PathError DelimiterScan :=
  match s.lexical with
  | .literal close escaped => .ok { s with lexical := continued close escaped c }
  | .code => do
    let frames ← s.nest offset c
    return ⟨frames, s.opened c, if isSpace c then s.last else (c, s.last.1)⟩

/-- Match the delimiters of the rest of a text, which starts at an offset. -/
def run (s : DelimiterScan) : Nat → List Char → Except PathError DelimiterScan
  | _, [] => .ok s
  | offset, c :: cs => do (← s.step offset c).run (offset + c.utf8Size) cs

end DelimiterScan

/-- Whether every delimiter of a text is closed. -/
def checkDelimiters (text : List Char) : Except PathError Unit := do
  let s ← DelimiterScan.start.run 0 text
  if s.frames.isEmpty then return () else throw (DelimiterScan.unclosed s.frames)

end JsonSpan

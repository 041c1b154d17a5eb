import JsonSpan.Path.Error
import JsonSpan.Regex.Meaning

/-!
# Patterns

A pattern is a regular expression in a path, kept with the text and the flags it was written with.
These decide the expression, so two patterns are the same if text and flags are.
-/

namespace JsonSpan

/-- The flags that letters switch on; a letter may be repeated. -/
def patternFlags : List Char → Except PatternFault Regex.Flags
  | [] => .ok {}
  | c :: cs => do
    let set : Regex.Flags → Regex.Flags ←
      if c = 'i' then pure ({ · with ignoreCase := true })
      else if c = 'm' then pure ({ · with multiLine := true })
      else if c = 's' then pure ({ · with dotAll := true })
      else if c = 'x' then pure ({ · with verbose := true })
      else throw (.unknownFlag c)
    return set (← patternFlags cs)

/-- The regular expression of a text and flags. Flags are looked at before the text. -/
def compilePattern (source flags : String) : Except PatternFault Regex := do
  let flags ← patternFlags flags.toList
  match Regex.ofText? flags source with
  | some regex => return regex
  | none => throw .malformed

/-- A regular expression with its text and flags. -/
structure Pattern where
  source : String
  flags : String
  regex : Regex
  compiled : compilePattern source flags = .ok regex

namespace Pattern

def ofText (source flags : String) : Except PatternFault Pattern :=
  match h : compilePattern source flags with
  | .ok regex => .ok ⟨source, flags, regex, h⟩
  | .error fault => .error fault

/-- Two patterns are equal if they are written alike. -/
instance : BEq Pattern where
  beq p q := p.source == q.source && p.flags == q.flags

def isMatch (p : Pattern) (text : List Char) : Bool :=
  p.regex.isMatch text

/-- The pattern between slashes, slashes in it escaped, with its flags behind. -/
def text (p : Pattern) : List Char :=
  '/' :: (p.source.toList.flatMap fun c => if c = '/' then ['\\', '/'] else [c]) ++
    '/' :: p.flags.toList

end Pattern

end JsonSpan

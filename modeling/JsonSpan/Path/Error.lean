import JsonSpan.Text.Characters

/-!
# Errors of path texts

Why a text is no path, or a pattern no pattern. Each cause is a constructor with what it concerns;
the wording is in `PathError.message` alone.
-/

namespace JsonSpan

/-- Why an escape in a quoted string denotes no character. -/
inductive EscapeFault where
  /-- No escape has this character after the backslash; none at all if the string ends there. -/
  | unknown (char : Option Char)
  /-- Fewer than four characters, or other than one-byte ones, where digits should be. -/
  | truncated (digits : String)
  /-- Four characters that are no hexadecimal number. -/
  | notHex (digits : String)
  /-- A high surrogate without a low one after it. -/
  | unpaired
  /-- A number that is no character. -/
  | notChar (code : Nat)
  deriving DecidableEq, Repr

/-- Why a pattern cannot be used. -/
inductive PatternFault where
  | unknownFlag (flag : Char)
  /-- The engine refuses the text. What it says about it is not known here. -/
  | malformed
  deriving DecidableEq, Repr

/-- Why a text is no path. -/
inductive PathError where
  /-- The text leaves the grammar at this offset, where one of these things was expected. -/
  | expected (names : List String) (offset : Nat)
  /-- An integer that 64 bits do not hold. -/
  | integerRange (digits : String)
  /-- A faulty escape in a quoted string. -/
  | escape (fault : EscapeFault)
  /-- The right side of `=~` is neither a regular expression nor a string. -/
  | patternExpected (found : String)
  /-- A regular expression beside another operator than `=~`. -/
  | strayPattern (found : String)
  /-- A name after a dot with characters that only brackets allow. -/
  | fieldName (name : String)
  /-- A slice that would never move. -/
  | zeroStep
  /-- A bracket opened at this offset and not closed. -/
  | openBracket (offset : Nat)
  /-- A filter in the bracket at this offset, not closed. -/
  | openFilter (offset : Nat)
  /-- A pattern that cannot be used. -/
  | pattern (fault : PatternFault)
  deriving DecidableEq, Repr

/-- Things in a row, `or` before the last one. -/
def lastOr : List String → String
  | [] => ""
  | [a] => "or " ++ a
  | a :: as => a ++ ", " ++ lastOr as

/-- A choice of things: one, two with `or` between them, or more with commas too. -/
def alternatives : List String → String
  | [a] => a
  | [a, b] => a ++ " or " ++ b
  | names => lastOr names

def EscapeFault.message : EscapeFault → String
  | unknown c => "invalid escape sequence `\\" ++ (c.map String.singleton).getD "" ++ "`"
  | truncated digits => "truncated unicode escape \\u" ++ digits
  | notHex digits => "invalid unicode escape \\u" ++ digits
  | unpaired => "unpaired surrogate in string literal"
  | notChar code => "invalid unicode escape \\u" ++ Text.hexPadded 4 code

/-- The text of a faulty pattern. For a malformed one it stands in for the message of the engine. -/
def PatternFault.message : PatternFault → String
  | unknownFlag flag => "unknown flag `" ++ String.singleton flag ++ "`"
  | malformed => "malformed pattern"

def PathError.message : PathError → String
  | expected names offset =>
    "Unexpected token: expected " ++ alternatives names ++ " at offset " ++ toString offset
  | integerRange digits => "Unexpected token: integer out of range: " ++ digits
  | escape fault => "Unexpected token: " ++ fault.message
  | patternExpected found =>
    "Unexpected token: `=~` expects a regex or string pattern, got `" ++ found ++ "`"
  | strayPattern found => "Unexpected token: regex literal `" ++ found ++ "` requires `=~`"
  | fieldName name =>
    "Invalid field name `" ++ name ++ "`: use bracket notation [\"" ++ name ++ "\"]"
  | zeroStep => "Slice step cannot be zero"
  | openBracket offset => "Unterminated bracket opened at offset " ++ toString offset
  | openFilter offset => "Unterminated filter opened at offset " ++ toString offset
  | pattern fault => "Invalid regular expression: " ++ fault.message

end JsonSpan

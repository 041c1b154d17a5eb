import JsonSpan.Number.Shortest
import JsonSpan.Path.Syntax
import JsonSpan.Text.Characters

/-!
# The canonical text of a path

Every path has one canonical text. Names that a dot allows are written with a dot, all others in
brackets and quotes; after `..` the dot is left out. Parentheses in conditions stand only where the
structure would be lost without them.
-/

namespace JsonSpan

/-- The characters of names that need no brackets. -/
def isPlainChar (c : Char) : Bool :=
  c.isAlphanum || c == '_'

/-- Whether a name can be written after a dot. -/
def isPlainName (name : List Char) : Bool :=
  !name.isEmpty && name.all isPlainChar

def integerChars (i : Int) : List Char :=
  if i < 0 then '-' :: Nat.toDigits 10 i.natAbs else Nat.toDigits 10 i.natAbs

def indexChars (i : Int64) : List Char :=
  integerChars i.toInt

def Selector.chars : Selector → List Char
  | name s => Text.quote s.toList
  | index i => indexChars i

def Comparison.chars : Comparison → List Char
  | equal => ['=', '=']
  | unequal => ['!', '=']
  | less => ['<']
  | lessEqual => ['<', '=']
  | greater => ['>']
  | greaterEqual => ['>', '=']

def Literal.chars : Literal → List Char
  | number x => x.text.toList
  | string s => Text.quote s.toList
  | boolean true => "true".toList
  | boolean false => "false".toList
  | null => "null".toList

/-- A slice between its brackets; the second colon stands only before a step. -/
def sliceChars (start stop step : Option Int64) : List Char :=
  let bound (b : Option Int64) : List Char := (b.map indexChars).getD []
  bound start ++ ':' :: bound stop ++ (step.map fun i => ':' :: indexChars i).getD []

/-- Whether a condition is an alternative, which binds less than all else. -/
def Condition.isOr : Condition → Bool
  | .or _ _ => true
  | _ => false

/-- Whether `!` can stand before a condition without parentheses. -/
def Condition.isTight : Condition → Bool
  | .present _ | .not _ => true
  | _ => false

/-- A text in parentheses, if it needs them. -/
def parenthesize (needed : Bool) (cs : List Char) : List Char :=
  if needed then '(' :: cs ++ [')'] else cs

mutual

/-- A segment that does not follow `..`. -/
def Segment.chars : Segment → List Char
  | .field name =>
    if isPlainName name.toList then '.' :: name.toList
    else '[' :: Text.quote name.toList ++ [']']
  | .wildcard => ['[', '*', ']']
  | .index i => '[' :: indexChars i ++ [']']
  | .slice start stop step => '[' :: sliceChars start stop step ++ [']']
  | .union selectors => '[' :: [','].intercalate (selectors.map Selector.chars) ++ [']']
  | .descent => ['.', '.']
  | .filter condition => ['[', '?', '('] ++ condition.chars ++ [')', ']']

/-- Segments one after the other; the flag says whether `..` stands before them. -/
def Segment.charsAll (afterDescent : Bool) : List Segment → List Char
  | [] => []
  | s :: ss =>
    let first :=
      match s with
      | .field name =>
        if afterDescent && isPlainName name.toList then name.toList else s.chars
      | .wildcard => if afterDescent then ['*'] else s.chars
      | _ => s.chars
    let isDescent :=
      match s with
      | .descent => true
      | _ => false
    first ++ Segment.charsAll isDescent ss

def Condition.chars : Condition → List Char
  | .or left right => left.chars ++ " || ".toList ++ right.chars
  | .and left right =>
    parenthesize left.isOr left.chars ++ " && ".toList ++ parenthesize right.isOr right.chars
  | .not inner => '!' :: parenthesize (!inner.isTight) inner.chars
  | .compare left op right => left.chars ++ ' ' :: op.chars ++ ' ' :: right.chars
  | .like operand pattern => operand.chars ++ " =~ ".toList ++ pattern.text
  | .present operand => operand.chars

def Operand.chars : Operand → List Char
  | .current segments => '@' :: Segment.charsAll false segments
  | .root segments => '$' :: Segment.charsAll false segments
  | .literal value => value.chars

end

def Segment.text (s : Segment) : String :=
  String.ofList s.chars

/-- The canonical text of a path. -/
def Path.text (p : Path) : String :=
  String.ofList ('$' :: Segment.charsAll false p)

end JsonSpan

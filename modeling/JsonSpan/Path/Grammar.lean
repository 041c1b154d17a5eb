import JsonSpan.Path.Delimiters
import JsonSpan.Path.Escape
import JsonSpan.Path.Printer
import JsonSpan.Path.Reader

/-!
# The grammar of paths

One reader for each rule of the grammar. Between segments there are no blanks; between the parts of
a bracket there may be any. Alternatives are tried in order, and the first one that fits is taken.

What a text means is worked out apart from whether it fits the grammar: an integer may be too large,
an escape may denote nothing. Such faults count only when the whole text fits, and then the leftmost
one does. So a rule reads a `Meaning`, which is a value or such a fault.

Conditions hold paths and paths hold conditions. The rules take the reader of the conditions inside
them as an argument, and `condition` ties the knot: each level of nesting takes at least one
character, so a text of `n` characters is nested less than `n + 1` deep.

The path of a text (`Path.parse`) is read by the grammar from all of it but the white space around it,
after its delimiters have been checked.
-/

namespace JsonSpan.Grammar

open Reader

/-- What a text denotes, or why it denotes nothing. -/
abbrev Meaning (α : Type) := Except PathError α

/-- Reads the values of the list from the first on; the first fault is that of the list. -/
def inOrder {α : Type} : List (Meaning α) → Meaning (List α)
  | [] => .ok []
  | m :: ms => do return (← m) :: (← inOrder ms)

/-! ### Names, integers, strings, numbers -/

/-- The characters that end a name after a dot. -/
def isReserved (c : Char) : Bool :=
  ['.', '[', ']', '(', ')', ',', '=', '!', '<', '>', '&', '|', '\'', '"', '*'].contains c ||
    isBlank c

def fieldMeaning (name : List Char) : Meaning Segment :=
  if isPlainName name then .ok (.field (String.ofList name))
  else .error (.fieldName (String.ofList name))

def fieldName : Reader (Meaning Segment) :=
  rule .fieldName do
    let c ← char (!isReserved ·)
    let cs ← run (!isReserved ·)
    return fieldMeaning (c :: cs)

def wildcard : Reader (Meaning Segment) :=
  rule .wildcard do
    text ['*']
    return .ok .wildcard

/-- The 64-bit integer that a sign and digits denote. -/
def integerMeaning (negative : Bool) (digits : List Char) : Meaning Int64 :=
  let magnitude : Int := Decimal.ofDigits digits
  let i := if negative then -magnitude else magnitude
  if Int64.minValue.toInt ≤ i ∧ i ≤ Int64.maxValue.toInt then .ok (Int64.ofInt i)
  else .error (.integerRange (String.ofList (if negative then '-' :: digits else digits)))

def integer : Reader (Meaning Int64) :=
  rule .integer do
    let sign ← optional (char (· == '-'))
    let d ← char Char.isDigit
    let ds ← run Char.isDigit
    return integerMeaning sign.isSome (d :: ds)

/-- The body of a string up to a closing quote or a backslash with nothing behind it. -/
def stringBody (close : Char) : List Char → List Char
  | '\\' :: c :: cs => '\\' :: c :: stringBody close cs
  | c :: cs => if c = close ∨ c = '\\' then [] else c :: stringBody close cs
  | [] => []

def stringMeaning (body : List Char) : Meaning String :=
  match Escape.decode body with
  | .ok cs => .ok (String.ofList cs)
  | .error fault => .error (.escape fault)

def quoted (close : Char) : Reader (Meaning String) := do
  text [close]
  let body ← taking (stringBody close)
  text [close]
  return stringMeaning body

/-- A string in quotes of either style. -/
def string : Reader (Meaning String) :=
  rule .string (or (quoted '"') (quoted '\''))

def digits : Reader (List Char) := do
  let d ← char Char.isDigit
  let ds ← run Char.isDigit
  return d :: ds

def numeral : Reader Unit := do
  let _ ← optional (char (· == '-'))
  or (text ['0']) do
    let _ ← char fun c => c.isDigit && c != '0'
    let _ ← run Char.isDigit
    return ()
  let _ ← optional do
    text ['.']
    digits
  let _ ← optional do
    let _ ← char fun c => c == 'e' || c == 'E'
    let _ ← optional (char fun c => c == '+' || c == '-')
    digits
  return ()

def number : Reader (Meaning Literal) :=
  rule .number do
    let (_, cs) ← withText numeral
    return .ok (.number (.ofDecimal (.ofNumeral cs)))

def word (which : Rule) (name : String) (value : Literal) : Reader (Meaning Literal) :=
  rule which do
    text name.toList
    return .ok value

/-! ### Selectors -/

def name : Reader (Meaning Selector) :=
  rule .name do
    let s ← string
    return s.map .name

def index : Reader (Meaning Selector) :=
  rule .index do
    let i ← integer
    return i.map .index

def selectorSegment : Selector → Segment
  | .name s => .field s
  | .index i => .index i

def bound (which : Rule) : Reader (Option (Meaning Int64)) :=
  optional (rule which integer)

def optionally {α : Type} : Option (Meaning α) → Meaning (Option α)
  | none => .ok none
  | some m => m.map some

/-- The slice of three bounds; its step is not zero. -/
def sliceMeaning (start stop step : Option (Meaning Int64)) : Meaning Segment := do
  let start ← optionally start
  let stop ← optionally stop
  let step ← optionally step
  if step = some 0 then throw .zeroStep else return .slice start stop step

def slice : Reader (Meaning Segment) :=
  rule .slice do
    let start ← bound .sliceStart
    blanks
    text [':']
    blanks
    let stop ← bound .sliceEnd
    blanks
    let step ← optional do
      text [':']
      blanks
      bound .sliceStep
    return sliceMeaning start stop (step.getD none)

def union : Reader (Meaning Segment) :=
  rule .union do
    let member := or name index
    let another : Reader (Meaning Selector) := do
      blanks
      text [',']
      blanks
      member
    let first ← member
    let second ← another
    let more ← many another
    return (inOrder (first :: second :: more)).map .union

/-! ### Conditions and the paths in them -/

/-- What is read on the left of an operator, and may be on its right: a string, or something else
with its text. -/
inductive Side where
  | string (value : Meaning String)
  | other (text : List Char) (value : Meaning Operand)

def Side.operand : Side → Meaning Operand
  | string value => value.map fun s => .literal (.string s)
  | other _ value => value

/-- What is read on the right of an operator: a regular expression with its text, or a side. -/
inductive RightSide where
  | regex (text source flags : List Char)
  | side (side : Side)

/-- A text with each escaped slash as a plain one. -/
def unescapeSlashes : List Char → List Char
  | '\\' :: '/' :: cs => '/' :: unescapeSlashes cs
  | c :: cs => c :: unescapeSlashes cs
  | [] => []

def patternMeaning (source flags : String) : Meaning Pattern :=
  match Pattern.ofText source flags with
  | .ok pattern => .ok pattern
  | .error fault => .error (.pattern fault)

/-- What two sides and an operator mean; without a comparison, the operator is `=~`. -/
def comparisonMeaning (left : Side) (op : Option Comparison) (right : RightSide) :
    Meaning Condition := do
  let left ← left.operand
  match op, right with
  | none, .regex _ source flags =>
    return .like left (← patternMeaning (String.ofList (unescapeSlashes source))
      (String.ofList flags))
  | none, .side (.string value) => return .like left (← patternMeaning (← value) "")
  | none, .side (.other text _) => throw (.patternExpected (String.ofList text))
  | some _, .regex text _ _ => throw (.strayPattern (String.ofList text))
  | some op, .side right => return .compare left op (← right.operand)

/-- The body of a regular expression: up to a slash that no backslash escapes. -/
def regexBody : List Char → List Char
  | '\\' :: c :: cs => '\\' :: c :: regexBody cs
  | c :: cs => if c = '/' then [] else c :: regexBody cs
  | [] => []

def regex : Reader RightSide :=
  rule .regex do
    let ((source, flags), cs) ← withText do
      text ['/']
      let source ← taking regexBody
      text ['/']
      let flags ← run Char.isAlpha
      return (source, flags)
    return .regex cs source flags

/-- An operator; none stands for `=~`. -/
def operator : Reader (Option Comparison) :=
  rule .operator <|
    let sign (cs : List Char) (op : Option Comparison) : Reader (Option Comparison) := do
      text cs
      return op
    or (sign ['=', '='] (some .equal)) <|
    or (sign ['!', '='] (some .unequal)) <|
    or (sign ['<', '='] (some .lessEqual)) <|
    or (sign ['>', '='] (some .greaterEqual)) <|
    or (sign ['=', '~'] none) <|
    or (sign ['<'] (some .less)) <|
    sign ['>'] (some .greater)

def literal : Reader Side := do
  let constant (r : Reader (Meaning Literal)) : Reader Side := do
    let (value, cs) ← withText r
    return .other cs (value.map .literal)
  or (constant number) <|
  or (do return .string (← string)) <|
  or (constant (word .trueWord "true" (.boolean true))) <|
  or (constant (word .falseWord "false" (.boolean false))) <|
  constant (word .nullWord "null" .null)

section

variable (unary : Reader (Meaning Condition))

/-- One operand or more with an operator between any two. -/
def chain (which : Rule) (sign : List Char) (join : Condition → Condition → Condition)
    (part : Reader (Meaning Condition)) : Reader (Meaning Condition) :=
  rule which do
    let first ← part
    let more ← many do
      blanks
      text sign
      blanks
      part
    return do
      let first ← first
      return (← inOrder more).foldl join first

def conjunction : Reader (Meaning Condition) :=
  chain .and ['&', '&'] .and unary

def disjunction : Reader (Meaning Condition) :=
  chain .or ['|', '|'] .or (conjunction unary)

def filter : Reader (Meaning Segment) :=
  rule .filter do
    text ['?']
    blanks
    text ['(']
    blanks
    let condition ← disjunction unary
    blanks
    text [')']
    return condition.map .filter

def selector : Reader (Meaning Segment) :=
  let alone (r : Reader (Meaning Selector)) : Reader (Meaning Segment) := do
    return (← r).map selectorSegment
  or (filter unary) <|
  or union <|
  or slice <|
  or wildcard <|
  or (alone index) <|
  alone name

def bracket : Reader (Meaning Segment) :=
  rule .bracket do
    text ['[']
    blanks
    let segment ← selector unary
    blanks
    text [']']
    return segment

/-- Two dots and the segment that they make act at every depth. -/
def descendant : Reader (Meaning (List Segment)) :=
  rule .descendant do
    text ['.', '.']
    let segment ← or wildcard (or fieldName (bracket unary))
    return segment.map ([.descent, ·])

def child : Reader (Meaning (List Segment)) :=
  rule .child do
    text ['.']
    let segment ← or wildcard fieldName
    return segment.map ([·])

/-- One segment, or two if the first is `..`. -/
def segment : Reader (Meaning (List Segment)) :=
  or (descendant unary) <|
  or child do
    return (← bracket unary).map ([·])

def segments : Reader (Meaning (List Segment)) := do
  return (inOrder (← many (segment unary))).map List.flatten

def query : Reader (Meaning Operand) :=
  let start (which : Rule) (sign : Char) (operand : List Segment → Operand) :
      Reader (Meaning Operand) :=
    rule which do
      text [sign]
      return (← segments unary).map operand
  or (start .currentQuery '@' .current) (start .rootQuery '$' .root)

def operand : Reader Side :=
  or (do
    let (value, cs) ← withText (query unary)
    return .other cs value) literal

def comparison : Reader (Meaning Condition) :=
  rule .comparison do
    let left ← operand unary
    blanks
    let op ← operator
    blanks
    let right ← or regex do return .side (← operand unary)
    return comparisonMeaning left op right

def existence : Reader (Meaning Condition) :=
  rule .existence do
    return (← query unary).map .present

def negation : Reader (Meaning Condition) :=
  rule .negation do
    text ['!']
    blanks
    return (← unary).map .not

def group : Reader (Meaning Condition) :=
  rule .group do
    text ['(']
    blanks
    let condition ← disjunction unary
    blanks
    text [')']
    return condition

/-- A condition without `&&` and `||` outside of parentheses. -/
def unaryOf : Reader (Meaning Condition) :=
  or (negation unary) <|
  or (group unary) <|
  or (comparison unary) <|
  existence unary

end

/-- A condition without `&&` and `||` outside of parentheses, nested less deep than a number. -/
def unary : Nat → Reader (Meaning Condition)
  | 0 => fail
  | depth + 1 => unaryOf (unary depth)

def path (depth : Nat) : Reader (Meaning Path) :=
  rule .path do
    rule .root (text ['$'])
    let path ← segments (unary depth)
    rule .endOfText atEnd
    return path

end JsonSpan.Grammar

namespace JsonSpan.Path

/-- The path of a text without white space around it, by the grammar. -/
def ofChars (cs : List Char) : Except PathError Path :=
  let attempt := Grammar.path (cs.length + 1) ⟨0, cs⟩
  match attempt.result with
  | some (meaning, _) => meaning
  | none => .error (attempt.note .none).error

/-- The path that a text denotes, or why it denotes none. -/
def parse (s : String) : Except PathError Path := do
  let cs := Text.trimChars s.toList
  checkDelimiters cs
  ofChars cs

end JsonSpan.Path

import JsonSpan.Path.Grammar

/-!
# The parts of a path text

The grammar without any meaning. A rule that reads gives one part: its text, and in it the parts that
the rules inside have read, in their order. A rule that only chooses between others gives what the
chosen one gives, and what is read by no rule, such as a bracket or a blank, gives nothing. So which
parts can stand in a part follows from the ways to put readers together: `inRow`, `spaced`, `perhaps`,
`repeated` and `part`.
-/

namespace JsonSpan

/-- What has read a part: a rule that a message may name, or one that cannot fail. -/
inductive PartKind where
  | rule (which : Rule)
  | stringBody (close : Char)
  | regexBody
  | regexFlags
  deriving DecidableEq, Repr

/-- A part of a path text: what has read it, its characters, and the parts in it. -/
inductive Part where
  | mk (kind : PartKind) (text : List Char) (inner : List Part)

namespace Part

def kind : Part → PartKind
  | mk kind _ _ => kind

def text : Part → List Char
  | mk _ text _ => text

def inner : Part → List Part
  | mk _ _ inner => inner

end Part

namespace Parts

open Reader

/-! ### Putting readers together -/

/-- Reads what has no parts. -/
def plain {α : Type} (r : Reader α) : Reader (List Part) := do
  let _ ← r
  return []

/-- One reader after the other. -/
def inRow : List (Reader (List Part)) → Reader (List Part)
  | [] => return []
  | r :: rs => do
    let xs ← r
    let ys ← inRow rs
    return xs ++ ys

/-- One reader after the other, with blanks between any two. -/
def spaced (rs : List (Reader (List Part))) : Reader (List Part) :=
  inRow (rs.intersperse (plain blanks))

def perhaps (r : Reader (List Part)) : Reader (List Part) := do
  return (← optional r).getD []

/-- What is read again and again. -/
def repeated (r : Reader (List Part)) : Reader (List Part) := do
  return (← many r).flatten

/-- What is read, as one part. -/
def part (kind : PartKind) (r : Reader (List Part)) : Reader (List Part) := do
  let (inner, text) ← withText r
  return [.mk kind text inner]

/-- What is read by a rule, as one part. -/
def ruled (which : Rule) (r : Reader (List Part)) : Reader (List Part) :=
  rule which (part (.rule which) r)

/-! ### Tokens -/

def fieldName : Reader (List Part) :=
  ruled .fieldName <| inRow
    [plain (char (!Grammar.isReserved ·)), plain (run (!Grammar.isReserved ·))]

def wildcard : Reader (List Part) :=
  ruled .wildcard (plain (text ['*']))

def integer : Reader (List Part) :=
  ruled .integer <| inRow
    [plain (optional (char (· == '-'))), plain (char Char.isDigit), plain (run Char.isDigit)]

def quoted (close : Char) : Reader (List Part) :=
  inRow [plain (text [close]), part (.stringBody close) (plain (taking (Grammar.stringBody close))),
    plain (text [close])]

def string : Reader (List Part) :=
  ruled .string (or (quoted '"') (quoted '\''))

def number : Reader (List Part) :=
  ruled .number (plain Grammar.numeral)

def word (which : Rule) (name : String) : Reader (List Part) :=
  ruled which (plain (text name.toList))

def regex : Reader (List Part) :=
  ruled .regex <| inRow
    [plain (text ['/']), part .regexBody (plain (taking Grammar.regexBody)), plain (text ['/']),
      part .regexFlags (plain (run Char.isAlpha))]

def operator : Reader (List Part) :=
  ruled .operator <|
    or (plain (text ['=', '='])) <|
    or (plain (text ['!', '='])) <|
    or (plain (text ['<', '='])) <|
    or (plain (text ['>', '='])) <|
    or (plain (text ['=', '~'])) <|
    or (plain (text ['<'])) <|
    plain (text ['>'])

def literal : Reader (List Part) :=
  or number <|
  or string <|
  or (word .trueWord "true") <|
  or (word .falseWord "false") <|
  word .nullWord "null"

/-! ### Selectors -/

def name : Reader (List Part) :=
  ruled .name string

def index : Reader (List Part) :=
  ruled .index integer

def bound (which : Rule) : Reader (List Part) :=
  perhaps (ruled which integer)

def slice : Reader (List Part) :=
  ruled .slice <| spaced
    [bound .sliceStart, plain (text [':']), bound .sliceEnd,
      perhaps (spaced [plain (text [':']), bound .sliceStep])]

/-- A sign and something behind it, blanks around the sign. -/
def another (sign : List Char) (r : Reader (List Part)) : Reader (List Part) :=
  inRow [plain blanks, plain (text sign), plain blanks, r]

def union : Reader (List Part) :=
  ruled .union <| inRow
    [or name index, another [','] (or name index), repeated (another [','] (or name index))]

/-! ### Conditions and the paths in them -/

section

variable (unary : Reader (List Part))

def chain (which : Rule) (sign : List Char) (r : Reader (List Part)) : Reader (List Part) :=
  ruled which (inRow [r, repeated (another sign r)])

def conjunction : Reader (List Part) :=
  chain .and ['&', '&'] unary

def disjunction : Reader (List Part) :=
  chain .or ['|', '|'] (conjunction unary)

def filter : Reader (List Part) :=
  ruled .filter (spaced [plain (text ['?']), plain (text ['(']), disjunction unary, plain (text [')'])])

def selector : Reader (List Part) :=
  or (filter unary) <|
  or union <|
  or slice <|
  or wildcard <|
  or index name

def bracket : Reader (List Part) :=
  ruled .bracket (spaced [plain (text ['[']), selector unary, plain (text [']'])])

/-- Two dots and what follows them. -/
def descendant : Reader (List Part) :=
  ruled .descendant (inRow [plain (text ['.', '.']), or wildcard (or fieldName (bracket unary))])

def child : Reader (List Part) :=
  ruled .child (inRow [plain (text ['.']), or wildcard fieldName])

def segment : Reader (List Part) :=
  or (descendant unary) (or child (bracket unary))

def segments : Reader (List Part) :=
  repeated (segment unary)

def query : Reader (List Part) :=
  or (ruled .currentQuery (inRow [plain (text ['@']), segments unary]))
    (ruled .rootQuery (inRow [plain (text ['$']), segments unary]))

def operand : Reader (List Part) :=
  or (query unary) literal

def comparison : Reader (List Part) :=
  ruled .comparison (spaced [operand unary, operator, or regex (operand unary)])

def existence : Reader (List Part) :=
  ruled .existence (query unary)

def negation : Reader (List Part) :=
  ruled .negation (spaced [plain (text ['!']), unary])

def group : Reader (List Part) :=
  ruled .group (spaced [plain (text ['(']), disjunction unary, plain (text [')'])])

/-- A condition without `&&` and `||` outside of parentheses. -/
def unaryOf : Reader (List Part) :=
  or (negation unary) <|
  or (group unary) <|
  or (comparison unary) <|
  existence unary

end

/-- A condition without `&&` and `||` outside of parentheses, nested less deep than a number. -/
def unary : Nat → Reader (List Part)
  | 0 => fail
  | depth + 1 => unaryOf (unary depth)

/-- A whole path. -/
def path (depth : Nat) : Reader (List Part) :=
  ruled .path <| inRow
    [ruled .root (plain (text ['$'])), segments (unary depth), ruled .endOfText (plain atEnd)]

end Parts

end JsonSpan

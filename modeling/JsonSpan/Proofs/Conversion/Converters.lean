import JsonSpan.Path.Grammar
import JsonSpan.Proofs.Conversion.Parts

/-!
# From parts to paths

A text is a path in two steps: the grammar gives its parts, and the parts are converted. The conversion
does not know the grammar. It looks at what has read a part, and asks for the parts in it one after the
other; where it finds others than it can use, or too few, it fails with a fault of its own. All of these
faults are kept here: `ConversionFault` has them beside the errors of a text that denotes nothing.
-/

namespace JsonSpan

/-! ### Faults -/

/-- The name of a rule in the grammar. -/
def Rule.label : Rule → String
  | endOfText => "EOI"
  | path => "path"
  | root => "root"
  | descendant => "descendant"
  | child => "child"
  | bracket => "bracket"
  | fieldName => "field_name"
  | wildcard => "wildcard"
  | index => "index"
  | slice => "slice"
  | sliceStart => "slice_start"
  | sliceEnd => "slice_end"
  | sliceStep => "slice_step"
  | integer => "int"
  | union => "union_list"
  | name => "name"
  | string => "string"
  | filter => "filter"
  | or => "logical_or"
  | and => "logical_and"
  | negation => "negation"
  | group => "group"
  | comparison => "comparison"
  | existence => "existence"
  | currentQuery => "current_query"
  | rootQuery => "root_query"
  | number => "number"
  | trueWord => "true_lit"
  | falseWord => "false_lit"
  | nullWord => "null_lit"
  | operator => "cmp_op"
  | regex => "regex"

/-- The name of what has read a part. -/
def PartKind.label : PartKind → String
  | rule which => which.label
  | stringBody close => if close = '"' then "dq_chars" else "sq_chars"
  | regexBody => "regex_body"
  | regexFlags => "regex_flags"

/-- Why parts do not convert. -/
inductive ConversionFault where
  /-- The text of a part denotes nothing. -/
  | path (e : PathError)
  /-- A part was read by something else. -/
  | unlike (expected : String) (found : PartKind)
  /-- There is no part in a part. -/
  | empty (kind : PartKind)
  /-- There is no part at all. -/
  | emptyQuery
  /-- There is no condition in a filter. -/
  | emptyFilter
  /-- A comparison has less than three parts. -/
  | incompleteComparison
  /-- A part of a slice is none of its bounds. -/
  | slicePart (kind : PartKind)
  /-- The text of an operator is none of the operators. -/
  | unknownOperator (text : String)
  /-- The text of a number is no number. -/
  | notNumber (text : String)
  deriving DecidableEq, Repr

def ConversionFault.message : ConversionFault → String
  | path e => e.message
  | unlike expected found => "Unexpected token: Expected " ++ expected ++ ", got " ++ found.label
  | empty kind => "Unexpected token: Empty " ++ kind.label
  | emptyQuery => "Unexpected token: empty query"
  | emptyFilter => "Unexpected token: empty filter"
  | incompleteComparison => "Unexpected token: incomplete comparison"
  | slicePart kind => "Unexpected token: Unexpected slice part " ++ kind.label
  | unknownOperator text => "Unexpected token: Unknown operator: " ++ text
  | notNumber text => "Unexpected token: " ++ text

/-- What parts convert to, or why they do not. -/
abbrev Converted (α : Type) := Except ConversionFault α

/-- What a text denotes, as what its part converts to. -/
def ofMeaning {α : Type} (m : Grammar.Meaning α) : Converted α :=
  m.mapError .path

namespace Part

@[simp] theorem sizeOf_inner_lt (x : Part) : sizeOf x.inner < sizeOf x := by
  obtain ⟨kind, text, inner⟩ := x
  rw [mk.sizeOf_spec, Part.inner]
  omega

/-- The parts in a part, each smaller than the part. -/
def smaller (x : Part) : List {y : Part // sizeOf y < sizeOf x} :=
  x.inner.attachWith _ fun _ hy => Nat.lt_trans (List.sizeOf_lt_of_mem hy) x.sizeOf_inner_lt

def first (x : Part) : Converted {y : Part // sizeOf y < sizeOf x} :=
  match x.smaller with
  | [] => throw (.empty x.kind)
  | y :: _ => return y

end Part

namespace Conversion

/-! ### Integers, strings and numbers -/

/-- A sign at the front of a text, and what follows it. -/
def spanSign : List Char → Bool × List Char
  | '-' :: cs => (true, cs)
  | '+' :: cs => (false, cs)
  | cs => (false, cs)

/-- The 64-bit integer that a text denotes: a sign or none, and digits. -/
def integer? (cs : List Char) : Option Int64 :=
  let (negative, digits) := spanSign cs
  let magnitude : Int := Decimal.ofDigits digits
  let i := if negative then -magnitude else magnitude
  if digits ≠ [] ∧ digits.all Char.isDigit ∧ Int64.minValue.toInt ≤ i ∧ i ≤ Int64.maxValue.toInt then
    some (Int64.ofInt i)
  else none

/-- Whether a text is an exponent, or nothing. -/
def isExponent : List Char → Bool
  | [] => true
  | c :: cs =>
    let digits := (spanSign cs).2
    (c == 'e' || c == 'E') && !digits.isEmpty && digits.all Char.isDigit

/-- Whether a text is a number: a sign or none, digits with a point among them or none, and an exponent
or none. The words for infinities and for no number at all are left out. -/
def isNumber (cs : List Char) : Bool :=
  let (whole, rest) := Decimal.spanDigits (spanSign cs).2
  let (fraction, rest) :=
    match rest with
    | '.' :: ds => Decimal.spanDigits ds
    | ds => ([], ds)
  !(whole ++ fraction).isEmpty && isExponent rest

def integer (x : Part) : Converted Int64 :=
  match integer? x.text with
  | some i => return i
  | none => throw (.path (.integerRange (String.ofList x.text)))

def string (x : Part) : Converted String :=
  match x.inner with
  | [] => ofMeaning (Grammar.stringMeaning [])
  | body :: _ => ofMeaning (Grammar.stringMeaning body.text)

def number (x : Part) : Converted Literal :=
  if isNumber x.text then return .number (.ofDecimal (.ofNumeral x.text))
  else throw (.notNumber (String.ofList x.text))

def nameIn (x : Part) : Converted String := do
  string (← x.first)

def integerIn (x : Part) : Converted Int64 := do
  integer (← x.first)

/-! ### Selectors -/

/-- The bounds of a slice. -/
structure Bounds where
  start : Option Int64
  stop : Option Int64
  step : Option Int64

/-- Sets the bound that a part of a slice gives. -/
def setBound (b : Bounds) (x : Part) : Converted Bounds := do
  let i ← integerIn x
  match x.kind with
  | .rule .sliceStart => return { b with start := some i }
  | .rule .sliceEnd => return { b with stop := some i }
  | .rule .sliceStep => return { b with step := some i }
  | kind => throw (.slicePart kind)

def slice (x : Part) : Converted Segment := do
  let b ← x.inner.foldlM setBound ⟨none, none, none⟩
  if b.step = some 0 then throw (.path .zeroStep) else return .slice b.start b.stop b.step

def item (x : Part) : Converted Selector :=
  match x.kind with
  | .rule .name => return .name (← nameIn x)
  | .rule .index => return .index (← integerIn x)
  | kind => throw (.unlike "name or index" kind)

/-! ### Conditions and the paths in them -/

/-- The operator that compares, for its text. -/
def comparison? : List Char → Option Comparison
  | ['=', '='] => some .equal
  | ['!', '='] => some .unequal
  | ['<'] => some .less
  | ['<', '='] => some .lessEqual
  | ['>'] => some .greater
  | ['>', '='] => some .greaterEqual
  | _ => none

/-- The pattern on the right of `=~`. -/
def pattern (x : Part) : Converted Pattern :=
  match x.kind with
  | .rule .regex =>
    let source := (x.inner[0]?.map Part.text).getD []
    let flags := (x.inner[1]?.map Part.text).getD []
    ofMeaning (Grammar.patternMeaning (String.ofList (Grammar.unescapeSlashes source))
      (String.ofList flags))
  | .rule .string => do ofMeaning (Grammar.patternMeaning (← string x) "")
  | _ => throw (.path (.patternExpected (String.ofList x.text)))

mutual

def segments : List Part → Converted (List Segment)
  | [] => return []
  | x :: xs => do
    let ss ← segment x
    return ss ++ (← segments xs)
termination_by xs => (sizeOf xs, 0)

def segment (x : Part) : Converted (List Segment) :=
  match x.kind with
  | .rule .root => return []
  | .rule .endOfText => return []
  | .rule .child => do
    let ⟨y, _⟩ ← x.first
    return [← member y]
  | .rule .descendant => do
    let ⟨y, _⟩ ← x.first
    return [.descent, ← member y]
  | .rule .bracket => do
    let ⟨y, _⟩ ← x.first
    return [← selector y]
  | kind => throw (.unlike "segment" kind)
termination_by (sizeOf x, 0)

/-- The segment of what follows a dot, or two. -/
def member (x : Part) : Converted Segment :=
  match x.kind with
  | .rule .wildcard => return .wildcard
  | .rule .fieldName => ofMeaning (Grammar.fieldMeaning x.text)
  | .rule .bracket => do
    let ⟨y, _⟩ ← x.first
    selector y
  | kind => throw (.unlike "field name or `*`" kind)
termination_by (sizeOf x, 0)

def selector (x : Part) : Converted Segment :=
  match x.kind with
  | .rule .wildcard => return .wildcard
  | .rule .index => return .index (← integerIn x)
  | .rule .name => return .field (← nameIn x)
  | .rule .slice => slice x
  | .rule .union => return .union (← x.inner.mapM item)
  | .rule .filter => do
    let ⟨y, _⟩ ← x.first
    return .filter (← disjunction y)
  | kind => throw (.unlike "selector" kind)
termination_by (sizeOf x, 0)

def disjunction (x : Part) : Converted Condition :=
  match x.smaller with
  | [] => throw .emptyFilter
  | ⟨y, _⟩ :: ys => do
    ys.foldlM (fun c z => return .or c (← conjunction z.1)) (← conjunction y)
termination_by (sizeOf x, 0)

def conjunction (x : Part) : Converted Condition :=
  match x.smaller with
  | [] => throw .emptyFilter
  | ⟨y, _⟩ :: ys => do
    ys.foldlM (fun c z => return .and c (← unary z.1)) (← unary y)
termination_by (sizeOf x, 0)

def unary (x : Part) : Converted Condition :=
  match x.kind with
  | .rule .negation => do
    let ⟨y, _⟩ ← x.first
    return .not (← unary y)
  | .rule .group => do
    let ⟨y, _⟩ ← x.first
    disjunction y
  | .rule .comparison => comparison x
  | .rule .existence => do
    let ⟨y, _⟩ ← x.first
    return .present (← operand y)
  | kind => throw (.unlike "predicate" kind)
termination_by (sizeOf x, 1)

def comparison (x : Part) : Converted Condition :=
  match x.smaller with
  | ⟨left, _⟩ :: ⟨op, _⟩ :: ⟨right, _⟩ :: _ => do
    let left ← operand left
    if op.text = ['=', '~'] then return .like left (← pattern right)
    match comparison? op.text with
    | none => throw (.unknownOperator (String.ofList op.text))
    | some op =>
      if right.kind = .rule .regex then throw (.path (.strayPattern (String.ofList right.text)))
      return .compare left op (← operand right)
  | _ => throw .incompleteComparison
termination_by (sizeOf x, 0)

def operand (x : Part) : Converted Operand :=
  match x.kind with
  | .rule .currentQuery => return .current (← segments x.inner)
  | .rule .rootQuery => return .root (← segments x.inner)
  | .rule .number => return .literal (← number x)
  | .rule .string => return .literal (.string (← string x))
  | .rule .trueWord => return .literal (.boolean true)
  | .rule .falseWord => return .literal (.boolean false)
  | .rule .nullWord => return .literal .null
  | kind => throw (.unlike "operand" kind)
termination_by (sizeOf x, 0)

end

/-! ### Paths -/

/-- The path of a text without white space around it, by its parts. -/
def ofChars (cs : List Char) : Converted Path :=
  let attempt := Parts.path (cs.length + 1) ⟨0, cs⟩
  match attempt.result with
  | some (x :: _, _) => segments x.inner
  | some ([], _) => throw .emptyQuery
  | none => throw (.path (attempt.note .none).error)

/-- The path that a text denotes, by its parts. -/
def parse (s : String) : Converted Path := do
  let cs := Text.trimChars s.toList
  ofMeaning (checkDelimiters cs)
  ofChars cs

end Conversion

end JsonSpan

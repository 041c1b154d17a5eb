import JsonSpan.Path.Syntax
import JsonSpan.Scan.Place
import JsonSpan.Span
import JsonSpan.Text.StringToken

/-!
# Scalars and their comparison

The values that a condition compares: numbers, texts, truth values and null, from constants and from
the document. Numbers and texts are ordered, truth values can only be equal or not, and null is
equal to null. Nothing else compares: values of two kinds never satisfy any operator, not even `!=`.
-/

namespace JsonSpan

/-- A value that conditions compare. -/
inductive Scalar where
  | number (x : Binary64)
  | text (cs : List Char)
  | boolean (b : Bool)
  | null
  deriving DecidableEq, Repr

/-- The order of texts by their code points. -/
def Text.compareChars : List Char → List Char → Ordering
  | [], [] => .eq
  | [], _ :: _ => .lt
  | _ :: _, [] => .gt
  | a :: as, b :: bs => (compare a.toNat b.toNat).then (compareChars as bs)

/-- Whether an order of two values satisfies an operator. -/
def Comparison.holds (op : Comparison) (order : Ordering) : Bool :=
  match op with
  | equal => order == .eq
  | unequal => order != .eq
  | less => order == .lt
  | lessEqual => order != .gt
  | greater => order == .gt
  | greaterEqual => order != .lt

namespace Scalar

def ofLiteral : Literal → Scalar
  | .number x => number x
  | .string s => text s.toList
  | .boolean b => boolean b
  | .null => null

/-- Whether two values satisfy an operator. -/
def compares (a : Scalar) (op : Comparison) (b : Scalar) : Bool :=
  match a, b with
  | number x, number y => (x.compare? y).any op.holds
  | text s, text t => op.holds (Text.compareChars s t)
  | boolean x, boolean y =>
    match op with
    | .equal => x == y
    | .unequal => x != y
    | _ => false
  | null, null => op == .equal
  | _, _ => false

/-- The characters of ASCII bytes. -/
def asciiChars (bytes : Bytes) : List Char :=
  bytes.map fun b => Char.ofNat b.toNat

/-- The scalar of a kind with some bytes; none for objects, arrays and undecodable strings. -/
def ofBytes (kind : Kind) (bytes : Bytes) : Option Scalar :=
  match kind with
  | .object | .array => none
  | .string => (StringToken.decode bytes).map text
  | .number => some (number (.ofDecimal (.ofNumeral (asciiChars bytes))))
  | .boolean => some (boolean (bytes == utf8 "true"))
  | .null => some null

/-- The scalar at a span of a document. -/
def ofSpan (doc : Bytes) (s : Span) : Except Fault (Option Scalar) := do
  let kind ← (Place.ofOffset doc s.start).kind
  return ofBytes kind (s.slice doc)

end Scalar

end JsonSpan

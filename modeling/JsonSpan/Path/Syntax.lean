import JsonSpan.Number.Binary64
import JsonSpan.Path.Pattern

/-!
# Paths

A path is a list of segments, each of which leads from values to values. A filter segment holds a
condition on the children of a value; the operands of a condition are constants or paths of their
own, from the child under test (`@`) or from the root (`$`). Every list of segments is a path, also
those that no text denotes.
-/

namespace JsonSpan

/-- An item of a union: a member's name or an element's index. -/
inductive Selector where
  | name (name : String)
  | index (i : Int64)
  deriving DecidableEq, Repr

/-- The operators that compare two scalars. -/
inductive Comparison where
  | equal
  | unequal
  | less
  | lessEqual
  | greater
  | greaterEqual
  deriving DecidableEq, Repr

/-- A constant in a condition. -/
inductive Literal where
  | number (x : Binary64)
  | string (s : String)
  | boolean (b : Bool)
  | null
  deriving DecidableEq, Repr

mutual

/-- One step of a path. -/
inductive Segment where
  /-- The member of a name. -/
  | field (name : String)
  /-- All children. -/
  | wildcard
  /-- The element at an index; a negative one counts from the end. -/
  | index (i : Int64)
  /-- The elements from `start` up to `stop`, every `step`-th. -/
  | slice (start stop step : Option Int64)
  /-- What each of some selectors gives, one after the other. -/
  | union (selectors : List Selector)
  /-- The value itself and all values below it. -/
  | descent
  /-- The children that satisfy a condition. -/
  | filter (condition : Condition)

/-- A condition on one value. -/
inductive Condition where
  | or (left right : Condition)
  | and (left right : Condition)
  | not (inner : Condition)
  | compare (left : Operand) (op : Comparison) (right : Operand)
  | like (operand : Operand) (pattern : Pattern)
  | present (operand : Operand)

/-- What a condition looks at. -/
inductive Operand where
  | current (segments : List Segment)
  | root (segments : List Segment)
  | literal (value : Literal)

end

instance : Inhabited Segment := ⟨.wildcard⟩

instance : Inhabited Condition := ⟨.present (.literal .null)⟩

/-- A path: its segments from the root on. -/
abbrev Path := List Segment

/-- Whether a segment leads to one value at most. -/
def Segment.isSingular : Segment → Bool
  | .field _ | .index _ => true
  | _ => false

def Segment.isDescent : Segment → Bool
  | .descent => true
  | _ => false

/-- Whether a path leads to one value at most, by its form. -/
def Path.isDefinite (p : Path) : Bool :=
  p.all Segment.isSingular

/-! ### Equality

Numbers are compared as numbers: the two zeros are equal and a NaN is not equal to itself. -/

def Literal.same : Literal → Literal → Bool
  | .number x, .number y => x.sameNumber y
  | .string s, .string t => s == t
  | .boolean a, .boolean b => a == b
  | .null, .null => true
  | _, _ => false

mutual

def Segment.same : Segment → Segment → Bool
  | .field a, .field b => a == b
  | .wildcard, .wildcard => true
  | .index i, .index j => i == j
  | .slice a b c, .slice a' b' c' => a == a' && b == b' && c == c'
  | .union xs, .union ys => xs == ys
  | .descent, .descent => true
  | .filter c, .filter d => c.same d
  | _, _ => false

def Segment.sameAll : List Segment → List Segment → Bool
  | [], [] => true
  | s :: ss, t :: ts => s.same t && Segment.sameAll ss ts
  | _, _ => false

def Condition.same : Condition → Condition → Bool
  | .or a b, .or c d => a.same c && b.same d
  | .and a b, .and c d => a.same c && b.same d
  | .not a, .not b => a.same b
  | .compare a op b, .compare c op' d => a.same c && op == op' && b.same d
  | .like a p, .like b q => a.same b && p == q
  | .present a, .present b => a.same b
  | _, _ => false

def Operand.same : Operand → Operand → Bool
  | .current ss, .current ts => Segment.sameAll ss ts
  | .root ss, .root ts => Segment.sameAll ss ts
  | .literal a, .literal b => a.same b
  | _, _ => false

end

instance : BEq Segment := ⟨Segment.same⟩

instance : BEq Condition := ⟨Condition.same⟩

instance : BEq Operand := ⟨Operand.same⟩

/-- Equality of paths. -/
def Path.same (p q : Path) : Bool :=
  Segment.sameAll p q

end JsonSpan

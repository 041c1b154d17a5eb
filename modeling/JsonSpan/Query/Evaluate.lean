import JsonSpan.Query.Descent
import JsonSpan.Query.Event
import JsonSpan.Query.Scalar
import JsonSpan.Query.Slice

/-!
# Evaluation

A path is evaluated over the bytes of a document. It starts with the span of the root and applies
one segment after the other to the spans at hand, each segment to each span in turn. A segment that
does not fit a value, such as a name on an array, leads nowhere from it. Faults of the document
where it is scanned are the only errors.

A condition is tested on the span of one child. The paths in it are evaluated in the same way, from
that child or from the root; a path takes part in a comparison only if it leads to exactly one
value, and that is a scalar.
-/

namespace JsonSpan

/-- The span of the value of a document: blanks before it are skipped, and what follows it is not
looked at. -/
def locateRoot (doc : Bytes) : Except Fault Span :=
  match (Place.ofOffset doc 0).skipBlanks.readValue with
  | .ok (span, _) => .ok span
  | .error place => .error place.fault

/-- A document and the span of its value. -/
structure Site where
  doc : Bytes
  root : Span

namespace Site

def kind (site : Site) (s : Span) : Except Fault Kind :=
  (Place.ofOffset site.doc s.start).kind

def field (site : Site) (name : String) (s : Span) : Except Fault (List Span) := do
  if (← site.kind s) = .object then return (← findMember site.doc s.start name).toList
  else return []

/-- The element at an index, of an array. A negative index needs all elements, to count from their
end; another one needs those before it. -/
def index (site : Site) (i : Int) (s : Span) : Except Fault (List Span) := do
  if (← site.kind s) = .array then
    let listing := Listing.ofOffset .array site.doc s.start
    if 0 ≤ i then return (← listing.get? i.toNat).toList
    else
      let values ← listing.values
      let position := (values.length : Int) + i
      if 0 ≤ position then return (values[position.toNat]?).toList else return []
  else return []

/-- The elements that a slice picks, of an array. -/
def slice (site : Site) (start stop step : Option Int) (s : Span) :
    Except Fault (List Span) := do
  if (← site.kind s) = .array then
    let values ← (Listing.ofOffset .array site.doc s.start).values
    return (Slice.indices values.length start stop step).filterMap (values[·]?)
  else return []

def selector (site : Site) (s : Span) : Selector → Except Fault (List Span)
  | .name name => site.field name s
  | .index i => site.index i.toInt s

def union (site : Site) (s : Span) : List Selector → Except Fault (List Span)
  | [] => .ok []
  | selector :: more => do return (← site.selector s selector) ++ (← site.union s more)

/-- The scalar that is the only value, if there is just one and it is a scalar. -/
def onlyScalar (site : Site) : List Span → Except Fault (Option Scalar)
  | [s] => Scalar.ofSpan site.doc s
  | _ => .ok none

end Site

mutual

/-- The spans that a segment leads to from one. -/
def Segment.step (site : Site) (s : Span) : Segment → Traced (List Span)
  | .field name => .lift (site.field name s)
  | .wildcard => .lift (childValues site.doc s)
  | .index i => .lift (site.index i.toInt s)
  | .slice start stop step =>
    .lift (site.slice (start.map (·.toInt)) (stop.map (·.toInt)) (step.map (·.toInt)) s)
  | .union selectors => .lift (site.union s selectors)
  | .descent => .lift (descendants site.doc s)
  | .filter condition => do
    let children ← .lift (childValues site.doc s)
    Traced.select (fun child => condition.test site child) children

/-- The spans that segments lead to from some; once there are none the later segments are not
applied. -/
def Segment.stepAll (site : Site) (spans : List Span) : List Segment → Traced (List Span)
  | [] => .pure spans
  | segment :: more =>
    if spans.isEmpty then .pure []
    else do
      let reached ← Traced.collect (fun s => segment.step site s) spans
      Traced.report (.segment segment spans.length reached.length)
      Segment.stepAll site reached more

/-- Whether a condition holds of the value at a span. The right side of `and` and `or` is tested
only if the left side does not decide. -/
def Condition.test (site : Site) (s : Span) : Condition → Traced Bool
  | .or left right => do
    if ← left.test site s then return true else right.test site s
  | .and left right => do
    if ← left.test site s then right.test site s else return false
  | .not inner => do return !(← inner.test site s)
  | .compare left op right => do
    let a ← left.resolve site s
    let b ← right.resolve site s
    match a, b with
    | some a, some b => return a.compares op b
    | _, _ => return false
  | .like operand pattern => do
    match ← operand.resolve site s with
    | some (.text cs) => return pattern.isMatch cs
    | _ => return false
  | .present operand => operand.exists site s

/-- The scalar that an operand stands for, if it stands for one. -/
def Operand.resolve (site : Site) (s : Span) : Operand → Traced (Option Scalar)
  | .literal value => .pure (some (.ofLiteral value))
  | .current segments => do
    let spans ← Segment.stepAll site [s] segments
    .lift (site.onlyScalar spans)
  | .root segments => do
    let spans ← Segment.stepAll site [site.root] segments
    .lift (site.onlyScalar spans)

/-- Whether an operand leads anywhere. A constant is always there. -/
def Operand.exists (site : Site) (s : Span) : Operand → Traced Bool
  | .literal _ => .pure true
  | .current segments => do return !(← Segment.stepAll site [s] segments).isEmpty
  | .root segments => do return !(← Segment.stepAll site [site.root] segments).isEmpty

end

namespace Path

/-- The matches of a path in a document, with the events on the way. -/
def traceMatches (p : Path) (doc : Bytes) : Traced (List Span) := do
  let root ← .lift (locateRoot doc)
  Traced.report (.root root)
  Segment.stepAll ⟨doc, root⟩ [root] p

/-- The matches of a path, and a last event with their number. -/
def trace (p : Path) (doc : Bytes) : Traced (List Span) := do
  let spans ← p.traceMatches doc
  Traced.report (.matched p spans.length)
  return spans

/-- The spans of the values that a path matches in a document, in the order in which it leads to
them. -/
def select (p : Path) (doc : Bytes) : Except Fault (List Span) :=
  (p.trace doc).result

end Path

end JsonSpan

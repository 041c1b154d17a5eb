import JsonSpan.Proofs.Scan.Extents
import JsonSpan.Proofs.Tree.Selection

/-!
# Layouts

A layout is a JSON value together with everything that its serialization chooses: the blanks between
the tokens. Its tree and its bytes are read off it, and so is where each value of it lies: `Spot`s are
layouts at an offset, and `Spot.follow` goes down from one along an address.
-/

namespace JsonSpan

/-- Blanks between tokens. -/
structure Blanks where
  bytes : Bytes
  blank : ∀ b ∈ bytes, Byte.isBlank b

/-- A key with its colon, and the blanks on both sides of the colon. -/
structure Key where
  token : Token
  before : Blanks
  after : Blanks

/-- What stands in front of the value of a child: nothing in an array, a key in an object. -/
def Container.Label : Container → Type
  | array => Unit
  | object => Key

/-- The bytes in front of the value of a child. -/
def Container.labelBytes : (c : Container) → c.Label → Bytes
  | array, _ => []
  | object, (key : Key) => key.token.bytes ++ key.before.bytes ++ Byte.colon :: key.after.bytes

mutual

/-- A JSON value with the blanks inside of it. In a container, `lead` follows the opening bracket. -/
inductive Layout where
  | null
  | boolean (b : Bool)
  | number (n : Numeral)
  | string (t : Token)
  | container (c : Container) (lead : Blanks) (children : Layouts c)

/-- The children of a container, with the blanks before and after each. -/
inductive Layouts : Container → Type where
  | nil {c : Container} : Layouts c
  | cons {c : Container} (before : Blanks) (label : c.Label) (value : Layout) (after : Blanks)
      (more : Layouts c) : Layouts c

end

mutual

def Layout.bytes : Layout → Bytes
  | .null => utf8 "null"
  | .boolean true => utf8 "true"
  | .boolean false => utf8 "false"
  | .number n => n.bytes
  | .string t => t.bytes
  | .container c lead children =>
    c.opener :: (lead.bytes ++ (children.bytes true ++ [c.closer]))

/-- The bytes of children, with a comma before each but the first. -/
def Layouts.bytes {c : Container} (first : Bool) : Layouts c → Bytes
  | .nil => []
  | .cons before label value after more =>
    (if first then [] else [Byte.comma]) ++ (before.bytes ++ (c.labelBytes label ++
      (value.bytes ++ (after.bytes ++ more.bytes false))))

end

/-- The tree of a container with some children. -/
def Container.tree : (c : Container) → List (c.Label × Json) → Json
  | array, children => .array (children.map (·.2))
  | object, children => .object (children.map fun child => (Key.token child.1, child.2))

mutual

def Layout.tree : Layout → Json
  | .null => .null
  | .boolean b => .boolean b
  | .number n => .number n
  | .string t => .string t
  | .container c _ children => c.tree children.trees

def Layouts.trees {c : Container} : Layouts c → List (c.Label × Json)
  | .nil => []
  | .cons _ label value _ more => (label, value.tree) :: more.trees

end

/-! ### Where values lie -/

/-- A value at an offset, with the span of its key if it has one. -/
structure Spot where
  key : Option Span
  start : Nat
  layout : Layout

/-- The span of the key of a child, whose label is at an offset. -/
def Container.keySpan (offset : Nat) : (c : Container) → c.Label → Option Span
  | array, _ => none
  | object, (key : Key) => some ⟨offset, offset + key.token.bytes.length⟩

/-- The spots of children, the bytes of which are at an offset. -/
def Layouts.spots {c : Container} (first : Bool) (offset : Nat) : Layouts c → List Spot
  | .nil => []
  | .cons before label value after more =>
    let key := offset + (if first then 0 else 1) + before.bytes.length
    let start := key + (c.labelBytes label).length
    ⟨c.keySpan key label, start, value⟩ ::
      more.spots false (start + value.bytes.length + after.bytes.length)

namespace Spot

def span (s : Spot) : Span :=
  ⟨s.start, s.start + s.layout.bytes.length⟩

def child (s : Spot) : Child :=
  ⟨s.key, s.span⟩

/-- The spots right below a spot. -/
def children (s : Spot) : List Spot :=
  match s.layout with
  | .container _ lead children => children.spots true (s.start + 1 + lead.bytes.length)
  | _ => []

/-- The spot that an address leads to from a spot. -/
def follow (s : Spot) : List Nat → Option Spot
  | [] => some s
  | i :: address =>
    match s.children[i]? with
    | some child => child.follow address
    | none => none

end Spot

/-- Where the value at an address lies, in a document that has the layout at an offset. -/
def Layout.spanAt (l : Layout) (offset : Nat) (address : List Nat) : Option Span :=
  (Spot.follow ⟨none, offset, l⟩ address).map Spot.span

/-- Whether a byte after a number would go on with it. -/
def Byte.extendsNumber (b : UInt8) : Bool :=
  isDigit b || b == point || b == ofChar 'e' || b == ofChar 'E'

/-- What may follow a value: after a number, no byte that would go on with it. -/
def Layout.Stops : Layout → Bytes → Prop
  | .number _, rest => ∀ b ∈ rest.head?, Byte.extendsNumber b = false
  | _, _ => True

end JsonSpan

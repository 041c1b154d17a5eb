import JsonSpan.Scan.Fault
import JsonSpan.Scan.Kind

/-!
# Places in a document

A place is an offset together with the bytes that follow it, so a scanner needs nothing but the
place it stands at. A scanner that cannot go on stops at a place too, and the fault is always what
stands there: nothing (`truncated`) or one unfitting byte (`badByte`). Scanners therefore fail with
the place alone, and `Place.fault` reads the fault off it.
-/

namespace JsonSpan

/-- An offset into a document and the bytes from there on. -/
structure Place where
  offset : Nat
  rest : Bytes
  deriving DecidableEq, Repr

/-- A scan ends at a place: one it reached, or one at which it is stuck. -/
abbrev Scan := Except Place Place

namespace Place

/-- The place at an offset; beyond the end of the document nothing follows it. -/
def ofOffset (doc : Bytes) (offset : Nat) : Place :=
  ⟨offset, doc.drop offset⟩

/-- The byte that stands at a place. -/
def byte? (p : Place) : Option UInt8 :=
  p.rest.head?

def next (p : Place) : Place :=
  ⟨p.offset + 1, p.rest.tail⟩

/-- The fault of a scan that is stuck at a place. -/
def fault (p : Place) : Fault :=
  match p.rest with
  | [] => .truncated p.offset
  | b :: _ => .badByte p.offset b

/-- The kind of the value that starts at a place. -/
def kind? (p : Place) : Option Kind :=
  p.byte?.bind Kind.ofByte?

/-- The kind of the value that starts at a place, or the fault of there being none. -/
def kind (p : Place) : Except Fault Kind :=
  match p.kind? with
  | some k => .ok k
  | none => .error p.fault

/-- Past the longest run of bytes of a class. -/
def skipWhile (accept : UInt8 → Bool) : Nat → Bytes → Place
  | offset, [] => ⟨offset, []⟩
  | offset, b :: r => if accept b then skipWhile accept (offset + 1) r else ⟨offset, b :: r⟩

def skipBlanks (p : Place) : Place :=
  skipWhile Byte.isBlank p.offset p.rest

/-- Past one given byte. -/
def expect (b : UInt8) (p : Place) : Scan :=
  if p.byte? = some b then .ok p.next else .error p

end Place

end JsonSpan

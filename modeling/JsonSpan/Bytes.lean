/-!
# Bytes

A document is a list of bytes. The bytes that JSON gives a meaning have names here, so that every
scanner says `quote` and not a number, and the few byte classes the scanners share are predicates.
-/

namespace JsonSpan

/-- A byte string: a document, a part of one, or an output. -/
abbrev Bytes := List UInt8

/-- What is said of all members of a list is decided along the list, and not by trying every byte or
character there is. -/
instance (priority := 2000) decidableForallMem {α : Type} (p : α → Prop) [DecidablePred p] (as : List α) :
    Decidable (∀ a ∈ as, p a) :=
  List.decidableBAll p as

namespace Byte

abbrev quote : UInt8 := 0x22

abbrev backslash : UInt8 := 0x5c

abbrev openBrace : UInt8 := 0x7b

abbrev closeBrace : UInt8 := 0x7d

abbrev openBracket : UInt8 := 0x5b

abbrev closeBracket : UInt8 := 0x5d

abbrev comma : UInt8 := 0x2c

abbrev colon : UInt8 := 0x3a

abbrev minus : UInt8 := 0x2d

abbrev plus : UInt8 := 0x2b

abbrev point : UInt8 := 0x2e

abbrev lineFeed : UInt8 := 0x0a

/-- The carriage return that may stand before a line feed. -/
abbrev carriageReturn : UInt8 := 0x0d

/-- The escape byte that starts a terminal code. -/
abbrev escape : UInt8 := 0x1b

/-- The byte of an ASCII character. -/
abbrev ofChar (c : Char) : UInt8 := c.toNat.toUInt8

/-- The four bytes that JSON allows between tokens: space, tab, line feed, carriage return. -/
def isBlank (b : UInt8) : Bool :=
  b == 0x20 || b == 0x09 || b == 0x0a || b == 0x0d

/-- The six ASCII whitespace bytes less the vertical tab: the blanks and the form feed. -/
def isAsciiSpace (b : UInt8) : Bool :=
  isBlank b || b == 0x0c

/-- The ten decimal digits. -/
def isDigit (b : UInt8) : Bool :=
  0x30 ≤ b && b ≤ 0x39

/-- The ASCII letters of both cases. -/
def isLetter (b : UInt8) : Bool :=
  (0x41 ≤ b && b ≤ 0x5a) || (0x61 ≤ b && b ≤ 0x7a)

end Byte

def utf8 (s : String) : Bytes :=
  s.toList.flatMap String.utf8EncodeChar

end JsonSpan

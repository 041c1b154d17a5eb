import JsonSpan.Output.Style
import JsonSpan.Text.Utf8

/-!
# Highlighting JSON

JSON bytes in colour: keys, strings, numbers and words are wrapped in styles, all else is copied.
The bytes are cut into tokens: a string up to its closing quote, or to the end if there is none; a
run of the bytes that numbers and words are made of; any other byte alone. A string with a colon
after it is a key.

Styled tokens are written as text, so bytes that are no UTF-8 come out as U+FFFD in them.
-/

namespace JsonSpan.Highlight

/-- The bytes of numbers and words. -/
def isScalarByte (b : UInt8) : Bool :=
  b == Byte.minus || b == Byte.plus || b == Byte.point || Byte.isDigit b || Byte.isLetter b

/-- How many bytes are left of a string whose opening quote has been read. -/
def stringLength : Bool → Bytes → Nat
  | _, [] => 0
  | true, _ :: r => stringLength false r + 1
  | false, b :: r =>
    if b = Byte.backslash then stringLength true r + 1
    else if b = Byte.quote then 1
    else stringLength false r + 1

/-- How many bytes the token takes that starts with `first` before `rest`. -/
def tokenLength (first : UInt8) (rest : Bytes) : Nat :=
  if first = Byte.quote then stringLength false rest + 1
  else if isScalarByte first then (rest.takeWhile isScalarByte).length + 1
  else 1

/-- Whether a colon comes next, white space left out. -/
def colonNext (rest : Bytes) : Bool :=
  (rest.dropWhile Byte.isAsciiSpace).head? == some Byte.colon

/-- The style of the token with some first byte and what follows it; most bytes have none. -/
def styleOf (first : UInt8) (after : Bytes) : Option Style :=
  if first = Byte.quote then some (if colonNext after then .key else .string)
  else if first = Byte.minus ∨ Byte.isDigit first then some .number
  else if first = Byte.ofChar 't' ∨ first = Byte.ofChar 'f' then some .boolean
  else if first = Byte.ofChar 'n' then some .null
  else none

/-- A token as it is written. -/
def paintToken (color : Bool) (style : Option Style) (token : Bytes) : List Bytes :=
  match style with
  | some style => style.paint color (Utf8.encode (Utf8.decodeLossy token))
  | none => [token]

/-- JSON bytes in the pieces in which they are written. -/
def pieces (color : Bool) : Bytes → List Bytes
  | [] => []
  | b :: r =>
    let length := tokenLength b r
    let after := (b :: r).drop length
    paintToken color (styleOf b after) ((b :: r).take length) ++ pieces color after
termination_by bytes => bytes.length
decreasing_by
  have : 0 < tokenLength b r := by
    unfold tokenLength
    split
    · omega
    · split <;> omega
  simp only [List.length_drop, List.length_cons]
  omega

end JsonSpan.Highlight

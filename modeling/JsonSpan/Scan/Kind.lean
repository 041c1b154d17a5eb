import JsonSpan.Bytes

/-!
# Kinds of value

The first byte of a JSON value decides its kind. Everything a scanner does next follows from it.
-/

namespace JsonSpan

/-- The six kinds of JSON value. -/
inductive Kind where
  | object
  | array
  | string
  | number
  | boolean
  | null
  deriving DecidableEq, Repr

namespace Kind

/-- The kind of value that a byte starts, if any value starts with it. -/
def ofByte? (b : UInt8) : Option Kind :=
  if b = Byte.openBrace then some object
  else if b = Byte.openBracket then some array
  else if b = Byte.quote then some string
  else if b = Byte.minus ∨ Byte.isDigit b then some number
  else if b = Byte.ofChar 't' ∨ b = Byte.ofChar 'f' then some boolean
  else if b = Byte.ofChar 'n' then some null
  else none

/-- Objects and arrays have children, the other kinds have none. -/
def isContainer : Kind → Bool
  | object | array => true
  | _ => false

def name : Kind → String
  | object => "object"
  | array => "array"
  | string => "string"
  | number => "number"
  | boolean => "boolean"
  | null => "null"

end Kind

end JsonSpan

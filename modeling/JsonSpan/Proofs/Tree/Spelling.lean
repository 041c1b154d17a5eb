import JsonSpan.Number.Decimal
import JsonSpan.Text.Characters
import JsonSpan.Text.StringToken

/-!
# How strings and numbers are written

The string and number tokens of JSON, as they are written: a string is a list of units, each a
character that stands for itself or an escape, and a number has a sign, digits, and perhaps a
fraction and an exponent. A token says what it denotes without being read: `Token.text?` goes over
the units, and `Numeral.value` puts the digits together.
-/

namespace JsonSpan

/-! ### Strings -/

/-- A hexadecimal digit of either case. -/
structure HexDigit where
  char : Char
  valid : (Text.hexValue? char).isSome

def HexDigit.value (d : HexDigit) : Nat :=
  (Text.hexValue? d.char).get d.valid

/-- The four digits of an escaped code. -/
structure HexCode where
  a : HexDigit
  b : HexDigit
  c : HexDigit
  d : HexDigit

def HexCode.value (code : HexCode) : Nat :=
  16 * (16 * (16 * code.a.value + code.b.value) + code.c.value) + code.d.value

/-- The escapes of one letter. -/
inductive ShortEscape where
  | quote
  | backslash
  | slash
  | backspace
  | formFeed
  | lineFeed
  | carriageReturn
  | tab
  deriving DecidableEq, Repr

namespace ShortEscape

/-- What stands after the backslash. -/
def letter : ShortEscape → Char
  | quote => '"'
  | backslash => '\\'
  | slash => '/'
  | backspace => 'b'
  | formFeed => 'f'
  | lineFeed => 'n'
  | carriageReturn => 'r'
  | tab => 't'

def char : ShortEscape → Char
  | quote => '"'
  | backslash => '\\'
  | slash => '/'
  | backspace => Char.ofNat 0x08
  | formFeed => Char.ofNat 0x0c
  | lineFeed => Char.ofNat 0x0a
  | carriageReturn => Char.ofNat 0x0d
  | tab => Char.ofNat 0x09

end ShortEscape

/-- One piece of a string as it is written. -/
inductive TextUnit where
  | plain (c : Char) (h : 0x20 ≤ c.toNat ∧ c ≠ '"' ∧ c ≠ '\\')
  | short (e : ShortEscape)
  | code (n : HexCode)

def TextUnit.bytes : TextUnit → Bytes
  | plain c _ => String.utf8EncodeChar c
  | short e => [Byte.backslash, Byte.ofChar e.letter]
  | code n => [Byte.backslash, Byte.ofChar 'u', Byte.ofChar n.a.char, Byte.ofChar n.b.char,
      Byte.ofChar n.c.char, Byte.ofChar n.d.char]

/-- A string token, less its quotes. -/
abbrev Token := List TextUnit

namespace Token

def body (t : Token) : Bytes :=
  t.flatMap TextUnit.bytes

def bytes (t : Token) : Bytes :=
  Byte.quote :: t.body ++ [Byte.quote]

/-- Whether a key is a name: it has no backslash, and its bytes are those of the name. -/
def isName (t : Token) (name : String) : Bool :=
  !t.body.contains Byte.backslash && t.body == utf8 name

/-- The text that is denoted. An escaped surrogate must be the half of a pair; else there is no
text. -/
def text? : Token → Option (List Char)
  | [] => some []
  | .plain c _ :: more => (text? more).map (c :: ·)
  | .short e :: more => (text? more).map (e.char :: ·)
  | .code n :: .code m :: more =>
    if Surrogate.isHigh n.value then
      if Surrogate.isLow m.value then
        (text? more).map (Char.ofNat (Surrogate.paired n.value m.value) :: ·)
      else none
    else if Surrogate.isLow n.value then none
    else (text? (.code m :: more)).map (Char.ofNat n.value :: ·)
  | .code n :: more =>
    if Surrogate.isHigh n.value || Surrogate.isLow n.value then none
    else (text? more).map (Char.ofNat n.value :: ·)

end Token

/-! ### Numbers -/

/-- A run of at least one digit. -/
structure Digits where
  chars : List Char
  nonempty : chars ≠ []
  digits : ∀ c ∈ chars, c.isDigit

/-- The sign of an exponent, which may be left out. -/
inductive ExponentSign where
  | none
  | plus
  | minus
  deriving DecidableEq, Repr

def ExponentSign.chars : ExponentSign → List Char
  | none => []
  | plus => ['+']
  | minus => ['-']

/-- An exponent as it is written. -/
structure Exponent where
  capital : Bool
  sign : ExponentSign
  digits : Digits

namespace Exponent

def chars (e : Exponent) : List Char :=
  (if e.capital then 'E' else 'e') :: e.sign.chars ++ e.digits.chars

def value (e : Exponent) : Int :=
  match e.sign with
  | .minus => -(Decimal.ofDigits e.digits.chars : Int)
  | _ => Decimal.ofDigits e.digits.chars

end Exponent

/-- A number as it is written. The whole part has no zero in front of other digits. -/
structure Numeral where
  negative : Bool
  whole : Digits
  fraction : Option Digits
  exponent : Option Exponent
  noLeadingZero : whole.chars = ['0'] ∨ whole.chars.head? ≠ some '0'

namespace Numeral

/-- The digits after the point. -/
def fractionDigits (n : Numeral) : List Char :=
  match n.fraction with
  | some ds => ds.chars
  | none => []

def fractionChars (n : Numeral) : List Char :=
  match n.fraction with
  | some ds => '.' :: ds.chars
  | none => []

def exponentChars (n : Numeral) : List Char :=
  match n.exponent with
  | some e => e.chars
  | none => []

def chars (n : Numeral) : List Char :=
  (if n.negative then ['-'] else []) ++ n.whole.chars ++ n.fractionChars ++ n.exponentChars

def bytes (n : Numeral) : Bytes :=
  n.chars.map Byte.ofChar

def value (n : Numeral) : Decimal where
  negative := n.negative
  coefficient := Decimal.ofDigits (n.whole.chars ++ n.fractionDigits)
  exponent := (n.exponent.elim 0 Exponent.value) - n.fractionDigits.length

end Numeral

end JsonSpan

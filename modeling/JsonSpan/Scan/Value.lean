import JsonSpan.Scan.Place
import JsonSpan.Span

/-!
# Scanning a value

`Place.skipValue` finds where the value at a place ends. Strings end at the first quote that no
backslash escapes; numbers and words are read out in full. Objects and arrays are skipped by
matching brackets alone: brackets inside strings do not count, and what stands between two brackets
is not looked at until something asks for the children.
-/

namespace JsonSpan.Place

/-- Past the rest of a string whose opening quote has been read. -/
def stringTail : Nat → Bytes → Scan
  | offset, [] => .error ⟨offset, []⟩
  | offset, b :: r =>
    if b = Byte.quote then .ok ⟨offset + 1, r⟩
    else if b = Byte.backslash then
      match r with
      | [] => .error ⟨offset + 1, []⟩
      | _ :: r' => stringTail (offset + 2) r'
    else stringTail (offset + 1) r

def skipString (p : Place) : Scan :=
  stringTail (p.offset + 1) p.rest.tail

def skipDigits (p : Place) : Place :=
  skipWhile Byte.isDigit p.offset p.rest

def someDigits (p : Place) : Scan :=
  match p.byte? with
  | some b => if Byte.isDigit b then .ok p.skipDigits else .error p
  | none => .error p

/-- Past a byte if it belongs to a class; otherwise nothing is read. -/
def skipIf (accept : UInt8 → Bool) (p : Place) : Place :=
  match p.byte? with
  | some b => if accept b then p.next else p
  | none => p

def skipFraction (p : Place) : Scan :=
  if p.byte? = some Byte.point then p.next.someDigits else .ok p

def skipExponent (p : Place) : Scan :=
  if p.byte? = some (Byte.ofChar 'e') ∨ p.byte? = some (Byte.ofChar 'E') then
    (p.next.skipIf fun b => b == Byte.plus || b == Byte.minus).someDigits
  else .ok p

/-- Past the number at a place: a sign, digits, a fraction and an exponent. Leading zeros are let
pass. -/
def skipNumber (p : Place) : Scan := do
  let whole ← (p.skipIf (· == Byte.minus)).someDigits
  let fraction ← whole.skipFraction
  fraction.skipExponent

/-- Past the given bytes, one after the other. -/
def skipWord : Bytes → Place → Scan
  | [], p => .ok p
  | w :: ws, p => if p.byte? = some w then skipWord ws p.next else .error p

/-- The word that a byte starts: `true`, `false` or else `null`. -/
def wordOf (b : Option UInt8) : Bytes :=
  if b = some (Byte.ofChar 't') then utf8 "true"
  else if b = some (Byte.ofChar 'f') then utf8 "false"
  else utf8 "null"

/-- Where a scan between brackets stands: outside of strings, inside one, or right after a backslash
inside one. -/
inductive Quoting where
  | outside
  | inside
  | escaped
  deriving DecidableEq, Repr

/-- Past the closer of the outermost open bracket, where `closers` are the closers that are still
owed, innermost first. -/
def matchBrackets : Bytes → Quoting → Nat → Bytes → Scan
  | _, _, offset, [] => .error ⟨offset, []⟩
  | closers, .escaped, offset, _ :: r => matchBrackets closers .inside (offset + 1) r
  | closers, .inside, offset, b :: r =>
    if b = Byte.quote then matchBrackets closers .outside (offset + 1) r
    else if b = Byte.backslash then matchBrackets closers .escaped (offset + 1) r
    else matchBrackets closers .inside (offset + 1) r
  | closers, .outside, offset, b :: r =>
    if b = Byte.openBrace then
      matchBrackets (Byte.closeBrace :: closers) .outside (offset + 1) r
    else if b = Byte.openBracket then
      matchBrackets (Byte.closeBracket :: closers) .outside (offset + 1) r
    else if b = Byte.closeBrace ∨ b = Byte.closeBracket then
      match closers with
      | [] => .error ⟨offset, b :: r⟩
      | c :: owed =>
        if c = b then
          if owed.isEmpty then .ok ⟨offset + 1, r⟩
          else matchBrackets owed .outside (offset + 1) r
        else .error ⟨offset, b :: r⟩
    else if b = Byte.quote then matchBrackets closers .inside (offset + 1) r
    else matchBrackets closers .outside (offset + 1) r

def skipContainer (p : Place) : Scan :=
  matchBrackets [] .outside p.offset p.rest

/-- Past the value at a place. -/
def skipValue (p : Place) : Scan :=
  match p.kind? with
  | none => .error p
  | some .object | some .array => p.skipContainer
  | some .string => p.skipString
  | some .number => p.skipNumber
  | some .boolean | some .null => skipWord (wordOf p.byte?) p

/-- The span of the value at a place, and the place after it. -/
def readValue (p : Place) : Except Place (Span × Place) :=
  match p.skipValue with
  | .ok q => .ok (⟨p.offset, q.offset⟩, q)
  | .error q => .error q

end JsonSpan.Place

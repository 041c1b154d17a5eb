import JsonSpan.Bytes

/-!
# Reading UTF-8

One step, `Utf8.step`, reads the character at the front of a byte string or finds how many bytes
there cannot belong to one. The strict reading (`decode?`) gives up where a step does; the forgiving
reading (`decodeLossy`) puts U+FFFD for each run of bytes that starts a character and is cut short,
and for each byte that starts none.
-/

namespace JsonSpan.Utf8

/-- The bytes that continue a character. -/
def isTail (b : UInt8) : Bool :=
  0x80 ≤ b && b ≤ 0xbf

/-- The range of the second byte of a character, by its first byte: it shuts out overlong forms,
surrogates and numbers above U+10FFFF. -/
def second (first : UInt8) : UInt8 × UInt8 :=
  if first = 0xe0 then (0xa0, 0xbf)
  else if first = 0xed then (0x80, 0x9f)
  else if first = 0xf0 then (0x90, 0xbf)
  else if first = 0xf4 then (0x80, 0x8f)
  else (0x80, 0xbf)

/-- How many bytes follow the first byte of a character, if the byte can be one. -/
def tailLength? (first : UInt8) : Option Nat :=
  if first ≤ 0x7f then some 0
  else if 0xc2 ≤ first ∧ first ≤ 0xdf then some 1
  else if 0xe0 ≤ first ∧ first ≤ 0xef then some 2
  else if 0xf0 ≤ first ∧ first ≤ 0xf4 then some 3
  else none

/-- The bits that the first byte of a character carries. -/
def firstBits (first : UInt8) : Nat :=
  if first ≤ 0x7f then first.toNat
  else if first ≤ 0xdf then first.toNat % 0x20
  else if first ≤ 0xef then first.toNat % 0x10
  else first.toNat % 0x08

/-- What stands at the front of a byte string: a character of some length, or that many bytes which
are no character. -/
inductive Step where
  | char (c : Char) (length : Nat)
  | broken (length : Nat)
  deriving DecidableEq, Repr

/-- The number of the six bits each of `k` more bytes, read after `taken` bytes whose bits are `n`.
-/
def readTail : Nat → Nat → Nat → Bytes → Step
  | 0, n, taken, _ => .char (Char.ofNat n) taken
  | k + 1, n, taken, b :: r =>
    if isTail b then readTail k (n * 0x40 + b.toNat % 0x40) (taken + 1) r else .broken taken
  | _ + 1, _, taken, [] => .broken taken

/-- What stands at the front of the byte string `first :: rest`. -/
def step (first : UInt8) (rest : Bytes) : Step :=
  match tailLength? first with
  | none => .broken 1
  | some 0 => .char (Char.ofNat first.toNat) 1
  | some (k + 1) =>
    match rest with
    | [] => .broken 1
    | b :: r =>
      let (low, high) := second first
      if low ≤ b ∧ b ≤ high then
        readTail k (firstBits first * 0x40 + b.toNat % 0x40) 2 r
      else .broken 1

/-- The characters of a byte string from the front on: each with its length, or the length of what
is none. `skip` bytes belong to the step before. -/
def steps : Nat → Bytes → List Step
  | _, [] => []
  | skip + 1, _ :: r => steps skip r
  | 0, b :: r =>
    match step b r with
    | .char c length => .char c length :: steps (length - 1) r
    | .broken length => .broken length :: steps (length - 1) r

def Step.char? : Step → Option Char
  | .char c _ => some c
  | .broken _ => none

/-- The text of a byte string, if all of it is UTF-8. -/
def decode? (bytes : Bytes) : Option (List Char) :=
  (steps 0 bytes).mapM Step.char?

/-- The text of a byte string, with U+FFFD where it is not UTF-8. -/
def decodeLossy (bytes : Bytes) : List Char :=
  (steps 0 bytes).map fun s => s.char?.getD '\ufffd'

/-- How many bytes characters take. -/
def size : List Char → Nat
  | [] => 0
  | c :: cs => c.utf8Size + size cs

/-- The UTF-8 bytes of characters. -/
def encode (cs : List Char) : Bytes :=
  cs.flatMap String.utf8EncodeChar

end JsonSpan.Utf8

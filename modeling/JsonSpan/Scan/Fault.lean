import JsonSpan.Bytes
import JsonSpan.Text.Characters

/-!
# Scan faults

A document is faulty where a scanner meets a byte that cannot stand there, or the end of the bytes.
There are no other faults, and each carries the offset at which it arose.
-/

namespace JsonSpan

/-- Why a scan stopped. -/
inductive Fault where
  /-- The document ends at this offset, and more was expected. -/
  | truncated (offset : Nat)
  /-- This byte at this offset cannot stand there. -/
  | badByte (offset : Nat) (byte : UInt8)
  deriving DecidableEq, Repr

/-- A byte written as the quoted character of its code point; quotes, the backslash and what does
not print are escaped. -/
def Byte.quoted (b : UInt8) : String :=
  let body :=
    if b = 0 then "\\0"
    else if b = 0x09 then "\\t"
    else if b = 0x0a then "\\n"
    else if b = 0x0d then "\\r"
    else if b = Byte.ofChar '\'' then "\\'"
    else if b = Byte.backslash then "\\\\"
    else if b < 0x20 ∨ (0x7f ≤ b ∧ b ≤ 0xa0) ∨ b = 0xad then
      "\\u\x7b" ++ Text.hex b.toNat ++ "\x7d"
    else String.singleton (Char.ofNat b.toNat)
  "'" ++ body ++ "'"

namespace Fault

def message : Fault → String
  | truncated offset => "Unexpected end of input at offset " ++ toString offset
  | badByte offset byte =>
      "Invalid byte " ++ Byte.quoted byte ++ " at offset " ++ toString offset

/-- The fault of the same document with `k` bytes put in front of it. -/
def shift (k : Nat) : Fault → Fault
  | truncated offset => truncated (offset + k)
  | badByte offset byte => badByte (offset + k) byte

end Fault

end JsonSpan

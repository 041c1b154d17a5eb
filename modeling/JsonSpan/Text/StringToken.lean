import JsonSpan.Text.Characters
import JsonSpan.Text.Utf8

/-!
# String tokens of documents

The text of a string token. A token without a backslash is the UTF-8 text between its quotes; any
control character may stand in it. A token with a backslash is held to the letter of RFC 8259: its
escapes are those of JSON, its surrogates are paired, and it holds no control character.
-/

namespace JsonSpan.StringToken

/-- The number of four hexadecimal digits. -/
def hex4? (a b c d : UInt8) : Option Nat :=
  [a, b, c, d].foldlM (fun n x => (Text.hexValue? (Char.ofNat x.toNat)).map (16 * n + ·)) 0

/-- The characters that a backslash and one more byte stand for, except `\u`. -/
def simple? (b : UInt8) : Option UInt8 :=
  if b = Byte.quote ∨ b = Byte.backslash ∨ b = Byte.ofChar '/' then some b
  else if b = Byte.ofChar 'b' then some 0x08
  else if b = Byte.ofChar 'f' then some 0x0c
  else if b = Byte.ofChar 'n' then some 0x0a
  else if b = Byte.ofChar 'r' then some 0x0d
  else if b = Byte.ofChar 't' then some 0x09
  else none

/-- The UTF-8 bytes of a code point. -/
def ofCode (n : Nat) : Bytes :=
  String.utf8EncodeChar (Char.ofNat n)

/-- The bytes that the body of a token denotes, each escape replaced by what it stands for. -/
def unescape : Bytes → Option Bytes
  | [] => some []
  | b :: r =>
    if b < 0x20 then none
    else if b ≠ Byte.backslash then (unescape r).map (b :: ·)
    else
      match r with
      | [] => none
      | e :: r =>
        if e = Byte.ofChar 'u' then
          match r with
          | a :: b :: c :: d :: r =>
            match hex4? a b c d with
            | none => none
            | some n =>
              if Surrogate.isLow n then none
              else if Surrogate.isHigh n then
                match r with
                | b' :: u :: a :: b :: c :: d :: r =>
                  if b' = Byte.backslash ∧ u = Byte.ofChar 'u' then
                    match hex4? a b c d with
                    | none => none
                    | some m =>
                      if Surrogate.isLow m then
                        (unescape r).map (ofCode (Surrogate.paired n m) ++ ·)
                      else none
                  else none
                | _ => none
              else (unescape r).map (ofCode n ++ ·)
          | _ => none
        else
          match simple? e with
          | none => none
          | some x => (unescape r).map (x :: ·)

/-- The text of a token with an escape in it, given the bytes between its quotes. -/
def decodeStrict (body : Bytes) : Option (List Char) :=
  (unescape body).bind Utf8.decode?

/-- The text of a token, given the bytes between its quotes. -/
def decodeBody (body : Bytes) : Option (List Char) :=
  if body.contains Byte.backslash then decodeStrict body else Utf8.decode? body

/-- The text of a token, quotes included. -/
def decode (token : Bytes) : Option (List Char) :=
  if token.length < 2 then none else decodeBody token.tail.dropLast

end JsonSpan.StringToken

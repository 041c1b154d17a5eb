import JsonSpan.Path.Error
import JsonSpan.Text.Characters
import JsonSpan.Text.Utf8

/-!
# Escapes in quoted strings

The text that the body of a quoted string denotes. A backslash and the character after it stand for
one character, four more characters giving its code after `\u`; a character beyond U+FFFF takes two
such escapes, its surrogates.
-/

namespace JsonSpan.Escape

/-- The characters that a backslash and one more character stand for, except `\u`. -/
def simple? (c : Char) : Option Char :=
  match c with
  | '"' => some '"'
  | '\'' => some '\''
  | '\\' => some '\\'
  | '/' => some '/'
  | 'b' => some '\x08'
  | 'f' => some '\x0c'
  | 'n' => some '\n'
  | 'r' => some '\r'
  | 't' => some '\t'
  | _ => none

/-- The number that hexadecimal digits denote, if there are any and nothing else. -/
def hexNumber? (digits : List Char) : Option Nat :=
  if digits.isEmpty then none
  else digits.foldlM (fun n c => (Text.hexValue? c).map (16 * n + ·)) 0

/-- The number that digits denote, a plus sign before them allowed. -/
def signedHex? : List Char → Option Nat
  | '+' :: digits => hexNumber? digits
  | digits => hexNumber? digits

/-- The number after `\u`, and what follows it. -/
def unit (cs : List Char) : Except EscapeFault (Nat × List Char) :=
  let digits := cs.take 4
  if Utf8.size digits ≠ 4 then .error (.truncated (String.ofList digits))
  else
    match signedHex? digits with
    | some n => .ok (n, cs.drop 4)
    | none => .error (.notHex (String.ofList digits))

/-- The code after `\u`, which is that of two surrogates if it starts with a high one. -/
def code (cs : List Char) : Except EscapeFault (Nat × List Char) := do
  let (first, rest) ← unit cs
  if Surrogate.isHigh first then
    match rest with
    | '\\' :: 'u' :: rest =>
      let (second, rest) ← unit rest
      if Surrogate.isLow second then return (Surrogate.paired first second, rest)
      else throw .unpaired
    | _ => throw .unpaired
  else return (first, rest)

/-- The character that an escape stands for, given what follows its backslash. -/
def char : List Char → Except EscapeFault (Char × List Char)
  | [] => .error (.unknown none)
  | c :: cs =>
    match simple? c with
    | some d => .ok (d, cs)
    | none =>
      if c = 'u' then do
        let (n, rest) ← code cs
        if n.isValidChar then return (Char.ofNat n, rest) else throw (.notChar n)
      else .error (.unknown (some c))

theorem length_unit {cs rest : List Char} {n : Nat} (h : unit cs = .ok (n, rest)) :
    rest.length ≤ cs.length := by
  simp only [unit] at h
  split at h
  · cases h
  · split at h
    · cases h
      simp
    · cases h

theorem length_code {cs rest : List Char} {n : Nat} (h : code cs = .ok (n, rest)) :
    rest.length ≤ cs.length := by
  simp only [code, bind, Except.bind] at h
  split at h
  · cases h
  · next first hf =>
    have h₁ := length_unit hf
    split at h
    · split at h
      · next r hr =>
        split at h
        · cases h
        · next second hs =>
          have h₂ := length_unit hs
          split at h
          · simp only [pure, Except.pure, Except.ok.injEq, Prod.mk.injEq] at h
            obtain ⟨_, rfl⟩ := h
            simp only [hr, List.length_cons] at h₁
            omega
          · cases h
      · cases h
    · cases h
      exact h₁

theorem length_char {cs rest : List Char} {c : Char} (h : char cs = .ok (c, rest)) :
    rest.length < cs.length := by
  cases cs with
  | nil => cases h
  | cons d cs =>
    simp only [char] at h
    split at h
    · cases h
      simp
    · split at h
      · simp only [bind, Except.bind] at h
        split at h
        · cases h
        · next v hv =>
          have := length_code hv
          split at h <;> cases h
          simp only [List.length_cons]
          omega
      · cases h

/-- The text that the body of a quoted string denotes. -/
def decode (cs : List Char) : Except EscapeFault (List Char) :=
  match cs with
  | [] => .ok []
  | '\\' :: cs =>
    match _ : char cs with
    | .ok (c, rest) => do return c :: (← decode rest)
    | .error fault => .error fault
  | c :: cs => do return c :: (← decode cs)
termination_by cs.length
decreasing_by
  · have := length_char ‹_›
    simp only [List.length_cons]
    omega
  · simp

end JsonSpan.Escape

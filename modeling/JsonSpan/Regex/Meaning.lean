import JsonSpan.Regex.Matching
import JsonSpan.Regex.Reader
import JsonSpan.Unicode.Folding
import JsonSpan.Unicode.Query

/-!
# What regular expressions mean

The expression of a text under its flags, as a `Regex` over sets of characters. Case folding happens
here: with case ignored, a set takes in whatever differs from its members in case alone, before it
is negated. Where Unicode is switched off, classes are ASCII, and those that would also accept parts
of longer characters are refused.

An expression is refused too when an automaton for it would be too large.

The program leaves all this to an engine that is no part of it. What is here only stands in for that
engine, so that the program can be run. It is not known to agree with it on every expression: the
tables of characters are those of Unicode 15, some properties are missing (`Unicode.byValue?`), and the
size of an automaton is an estimate (`Node.size`). The rest of the program compiles by `Regex.ofText?`
and matches by `Regex.isMatch`, which are irreducible: no theorem looks into them.
-/

namespace JsonSpan.Regex

open Unicode (CharSet)

/-- The flags that meaning depends on. -/
structure Flags where
  ignoreCase : Bool := false
  multiLine : Bool := false
  dotAll : Bool := false
  crlf : Bool := false
  unicode : Bool := true
  verbose : Bool := false
  deriving DecidableEq, Repr

def Flags.change (flags : Flags) (changes : FlagChanges) : Flags where
  ignoreCase := (changes.state? .ignoreCase).getD flags.ignoreCase
  multiLine := (changes.state? .multiLine).getD flags.multiLine
  dotAll := (changes.state? .dotAll).getD flags.dotAll
  crlf := (changes.state? .crlf).getD flags.crlf
  unicode := (changes.state? .unicode).getD flags.unicode
  verbose := (changes.state? .verbose).getD flags.verbose

/-! ### Sets of characters -/

/-- The ASCII letter of the other case. -/
def otherCase (c : Char) : Char :=
  if c.isLower then c.toUpper else c.toLower

/-- A set closed under case, if case is ignored: all of Unicode's cases, or ASCII's alone. -/
def closeCase (flags : Flags) (s : CharSet) : CharSet :=
  if !flags.ignoreCase then s
  else if flags.unicode then s.foldCase
  else fun c => s c || (c.toNat < 0x80 && s (otherCase c))

/-- A set closed under case and then negated, if it is. Without Unicode a set must be of ASCII
characters; it contains either all others or none. -/
def finish (flags : Flags) (negated : Bool) (s : CharSet) : Option CharSet :=
  let closed := closeCase flags s
  let set : CharSet := if negated then fun c => !closed c else closed
  if !flags.unicode && set '\x80' then none else some set

def ofRuns (runs : List (Char × Char)) : CharSet :=
  fun c => runs.any fun (first, last) => first ≤ c && c ≤ last

/-- The characters of a class with a letter. -/
def letterSet (unicode : Bool) (kind : LetterClass) : CharSet :=
  if unicode then
    match kind with
    | .digit => Unicode.digits.contains
    | .space => Text.isWhite
    | .word => Unicode.wordCharacters.contains
  else
    match kind with
    | .digit => ofRuns [('0', '9')]
    | .space => ofRuns [('\t', '\r'), (' ', ' ')]
    | .word => ofRuns [('0', '9'), ('A', 'Z'), ('_', '_'), ('a', 'z')]

/-- The set of a class with a letter. -/
def letterClass (flags : Flags) (kind : LetterClass) (negated : Bool) : Option CharSet :=
  finish { flags with ignoreCase := false } negated (letterSet flags.unicode kind)

/-- The set of a property; there are none without Unicode. -/
def propertySet (flags : Flags) (query : PropertyQuery) (negated : Bool) : Option CharSet :=
  if flags.unicode then do
    let set ← match query with
      | .name name => Unicode.byName? name
      | .value property value => Unicode.byValue? property value
    finish flags negated set
  else none

/-- The character of a literal in a class; without Unicode only ASCII characters are allowed. -/
def classLiteral (flags : Flags) (l : Literal) : Option Char :=
  if flags.unicode || l.char.toNat < 0x80 then some l.char else none

/-- What an operator makes of two sets. -/
def SetOperator.apply (op : SetOperator) (a b : CharSet) : CharSet :=
  match op with
  | intersection => fun c => a c && b c
  | difference => fun c => a c && !b c
  | symmetricDifference => fun c => a c != b c

mutual

def ClassSet.toSet (flags : Flags) : ClassSet → Option CharSet
  | .empty => some fun _ => false
  | .literal l => do
    let d ← classLiteral flags l
    return fun c => c == d
  | .range first last => do
    let first ← classLiteral flags first
    let last ← classLiteral flags last
    return ofRuns [(first, last)]
  | .ascii runs negated => finish flags negated (ofRuns runs)
  | .letter kind negated => letterClass flags kind negated
  | .property query negated => propertySet flags query negated
  | .bracketed negated inner => do finish flags negated (← inner.toSet flags)
  | .union items => ClassSet.unionSet flags items
  | .operation op left right => do
    return op.apply (closeCase flags (← left.toSet flags)) (closeCase flags (← right.toSet flags))

def ClassSet.unionSet (flags : Flags) : List ClassSet → Option CharSet
  | [] => some fun _ => false
  | s :: ss => do
    let first ← s.toSet flags
    let others ← ClassSet.unionSet flags ss
    return fun c => first c || others c

end

/-! ### Conditions on places -/

/-- Whether a neighbour of a place is a character of a word. -/
def isWordAt (unicode : Bool) (neighbour : Option Char) : Bool :=
  neighbour.any (letterSet unicode .word)

/-- The start of the text, and in multi-line mode of a line. -/
def startsLine (flags : Flags) : Boundary := fun before after =>
  match before with
  | none => true
  | some b =>
    flags.multiLine && (b == '\n' || (flags.crlf && b == '\r' && after != some '\n'))

/-- The end of the text, and in multi-line mode of a line. -/
def endsLine (flags : Flags) : Boundary := fun before after =>
  match after with
  | none => true
  | some a =>
    flags.multiLine &&
      if flags.crlf then a == '\r' || (a == '\n' && before != some '\r') else a == '\n'

/-- When a condition holds of a place. -/
def Look.holds (flags : Flags) (look : Look) : Boundary := fun before after =>
  let wordBefore := isWordAt flags.unicode before
  let wordAfter := isWordAt flags.unicode after
  match look with
  | lineStart => startsLine flags before after
  | lineEnd => endsLine flags before after
  | textStart => before.isNone
  | textEnd => after.isNone
  | wordBoundary => wordBefore != wordAfter
  | notWordBoundary => wordBefore == wordAfter
  | wordStart => !wordBefore && wordAfter
  | wordEnd => wordBefore && !wordAfter
  | wordStartHalf => !wordBefore
  | wordEndHalf => !wordAfter

/-! ### Expressions -/

/-- The set of a literal outside of brackets. -/
def literalSet (flags : Flags) (l : Literal) : Option CharSet :=
  if !flags.unicode && l.isByte && 0x80 ≤ l.char.toNat then none
  else some (closeCase flags fun c => c == l.char)

def dotSet (flags : Flags) : Option CharSet :=
  if !flags.unicode then none
  else if flags.dotAll then some fun _ => true
  else if flags.crlf then some fun c => c != '\n' && c != '\r'
  else some fun c => c != '\n'

mutual

/-- The meaning of an expression, and the flags for what follows it. -/
def Node.toRegex (flags : Flags) : Node → Option (Regex × Flags)
  | .empty => some (.empty, flags)
  | .literal l => do return (.oneOf (← literalSet flags l), flags)
  | .dot => do return (.oneOf (← dotSet flags), flags)
  | .look condition => some (.around (condition.holds flags), flags)
  | .letter kind negated => do return (.oneOf (← letterClass flags kind negated), flags)
  | .property query negated => do return (.oneOf (← propertySet flags query negated), flags)
  | .bracketed negated inner => do
    return (.oneOf (← finish flags negated (← inner.toSet flags)), flags)
  | .repetition body least most => do
    let (r, flags) ← body.toRegex flags
    return (.repetition r least most, flags)
  | .group changes body => do
    let (r, _) ← body.toRegex (flags.change changes)
    return (r, flags)
  | .flags changes => some (.empty, flags.change changes)
  | .sequence items => Node.sequenceRegex flags items
  | .choice branches => Node.choiceRegex flags branches

/-- The meaning of expressions one after the other. -/
def Node.sequenceRegex (flags : Flags) : List Node → Option (Regex × Flags)
  | [] => some (.empty, flags)
  | n :: ns => do
    let (first, flags) ← n.toRegex flags
    let (others, flags) ← Node.sequenceRegex flags ns
    return (.sequence first others, flags)

/-- The meaning of alternatives. Flags changed in one hold in the later ones too. -/
def Node.choiceRegex (flags : Flags) : List Node → Option (Regex × Flags)
  | [] => some (.oneOf fun _ => false, flags)
  | n :: ns => do
    let (first, flags) ← n.toRegex flags
    let (others, flags) ← Node.choiceRegex flags ns
    return (.choice first others, flags)

end

/-! ### Size -/

/-- The estimated bytes that an automaton takes for a class with a letter. -/
def LetterClass.size : LetterClass → Nat
  | digit => 4500
  | space => 700
  | word => 54000

mutual

/-- The estimated bytes that an automaton takes for a class. -/
def ClassSet.size : ClassSet → Nat
  | .letter kind _ => kind.size
  | .property _ _ => 20000
  | .bracketed _ inner => inner.size
  | .union items => ClassSet.sizes items
  | .operation _ left right => left.size + right.size
  | _ => 32

def ClassSet.sizes : List ClassSet → Nat
  | [] => 0
  | s :: ss => s.size + ClassSet.sizes ss

end

/-- The estimated bytes for one copy of an automaton of a size, repeated. -/
def repetitionSize (size least : Nat) (most : Option Nat) : Nat :=
  match most with
  | none => max least 1 * size + 40
  | some most => most * size + (most - least) * 40

mutual

/-- The estimated bytes that an automaton takes for an expression: it holds a copy of what is
repeated for each repetition. Close to the limit the engine may decide otherwise. -/
def Node.size : Node → Nat
  | .literal l => 32 * l.char.utf8Size
  | .dot => 400
  | .letter kind _ => kind.size
  | .property _ _ => 20000
  | .bracketed _ inner => inner.size
  | .repetition body least most => repetitionSize body.size least most
  | .group _ body => body.size
  | .sequence items => Node.sizes items
  | .choice branches => Node.sizes branches
  | _ => 32

def Node.sizes : List Node → Nat
  | [] => 0
  | n :: ns => n.size + Node.sizes ns

end

/-- How large an automaton may be. -/
def sizeLimit : Nat := 10 * 1024 * 1024

/-- The regular expression of a text under flags, if it is one. It stands in for the compiler of an
engine that is no part of the program. -/
@[irreducible]
def ofText? (flags : Flags) (text : String) : Option Regex := do
  let node ← Node.ofChars? flags.verbose text.toList
  if sizeLimit < node.size then none
  else
    let (regex, _) ← node.toRegex flags
    return regex

end JsonSpan.Regex

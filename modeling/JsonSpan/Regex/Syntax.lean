/-!
# Regular expressions as written

The syntax tree of a regular expression: what its text says before any flag is applied. Flags may be
changed in the middle of an expression, so `Node.flags` is a node that acts on all that follows it
in its group.
-/

namespace JsonSpan.Regex

/-- The flags an expression can change. -/
inductive Flag where
  | ignoreCase
  | multiLine
  | dotAll
  | swapGreed
  | unicode
  | crlf
  | verbose
  deriving DecidableEq, Repr

def Flag.ofChar? (c : Char) : Option Flag :=
  match c with
  | 'i' => some .ignoreCase
  | 'm' => some .multiLine
  | 's' => some .dotAll
  | 'U' => some .swapGreed
  | 'u' => some .unicode
  | 'R' => some .crlf
  | 'x' => some .verbose
  | _ => none

/-- Flags that are switched on (`true`) or off, in the order written. -/
abbrev FlagChanges := List (Flag × Bool)

/-- What changes say about one flag. -/
def FlagChanges.state? (changes : FlagChanges) (flag : Flag) : Option Bool :=
  (changes.find? (·.1 == flag)).map (·.2)

/-- A literal character. One written as `\xHH` stands for a byte where Unicode is off. -/
structure Literal where
  char : Char
  isByte : Bool
  deriving DecidableEq, Repr

/-- The conditions on a place between two characters. -/
inductive Look where
  | lineStart
  | lineEnd
  | textStart
  | textEnd
  | wordBoundary
  | notWordBoundary
  | wordStart
  | wordEnd
  | wordStartHalf
  | wordEndHalf
  deriving DecidableEq, Repr

/-- The classes with a letter: `\d`, `\s`, `\w`. -/
inductive LetterClass where
  | digit
  | space
  | word
  deriving DecidableEq, Repr

/-- What `\p` asks for: a name of some property, or a property and its value. -/
inductive PropertyQuery where
  | name (name : String)
  | value (property value : String)
  deriving DecidableEq, Repr

/-- The operators between sets in a bracketed class. -/
inductive SetOperator where
  | intersection
  | difference
  | symmetricDifference
  deriving DecidableEq, Repr

/-- What stands between the brackets of a class. -/
inductive ClassSet where
  | empty
  | literal (l : Literal)
  | range (first last : Literal)
  | ascii (runs : List (Char × Char)) (negated : Bool)
  | letter (kind : LetterClass) (negated : Bool)
  | property (query : PropertyQuery) (negated : Bool)
  | bracketed (negated : Bool) (set : ClassSet)
  | union (items : List ClassSet)
  | operation (operator : SetOperator) (left right : ClassSet)
  deriving Repr

/-- A regular expression. -/
inductive Node where
  | empty
  | literal (l : Literal)
  | dot
  | look (condition : Look)
  | letter (kind : LetterClass) (negated : Bool)
  | property (query : PropertyQuery) (negated : Bool)
  | bracketed (negated : Bool) (set : ClassSet)
  | repetition (body : Node) (least : Nat) (most : Option Nat)
  | group (changes : FlagChanges) (body : Node)
  | flags (changes : FlagChanges)
  | sequence (items : List Node)
  | choice (branches : List Node)
  deriving Repr

mutual

/-- How deep the parts of a class are nested. -/
def ClassSet.depth : ClassSet → Nat
  | .bracketed _ set => set.depth + 1
  | .union items => ClassSet.depths items + 1
  | .operation _ left right => max left.depth right.depth + 1
  | _ => 0

def ClassSet.depths : List ClassSet → Nat
  | [] => 0
  | s :: ss => max s.depth (ClassSet.depths ss)

end

mutual

/-- How deep the parts of an expression are nested. -/
def Node.depth : Node → Nat
  | .bracketed _ set => set.depth + 1
  | .repetition body _ _ => body.depth + 1
  | .group _ body => body.depth + 1
  | .sequence items => Node.depths items + 1
  | .choice branches => Node.depths branches + 1
  | _ => 0

def Node.depths : List Node → Nat
  | [] => 0
  | n :: ns => max n.depth (Node.depths ns)

end

/-- The character runs of the named ASCII classes. -/
def asciiClass? (name : String) : Option (List (Char × Char)) :=
  match name with
  | "alnum" => some [('0', '9'), ('A', 'Z'), ('a', 'z')]
  | "alpha" => some [('A', 'Z'), ('a', 'z')]
  | "ascii" => some [('\x00', '\x7f')]
  | "blank" => some [('\t', '\t'), (' ', ' ')]
  | "cntrl" => some [('\x00', '\x1f'), ('\x7f', '\x7f')]
  | "digit" => some [('0', '9')]
  | "graph" => some [('!', '~')]
  | "lower" => some [('a', 'z')]
  | "print" => some [(' ', '~')]
  | "punct" => some [('!', '/'), (':', '@'), ('[', '\x60'), ('{', '~')]
  | "space" => some [('\t', '\r'), (' ', ' ')]
  | "upper" => some [('A', 'Z')]
  | "word" => some [('0', '9'), ('A', 'Z'), ('_', '_'), ('a', 'z')]
  | "xdigit" => some [('0', '9'), ('A', 'F'), ('a', 'f')]
  | _ => none

end JsonSpan.Regex

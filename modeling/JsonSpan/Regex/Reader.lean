import JsonSpan.Regex.Syntax
import JsonSpan.Text.Characters
import JsonSpan.Unicode.Property

/-!
# Reading regular expressions

A reader of the text of a regular expression. In verbose mode blanks and comments between the parts
of an expression do not count, and a flag group may switch that mode on and off for the rest of its
group. Look-around, back-references and octal escapes are refused. So is any text that is nested too
deep.

Brackets and groups are read by loops over explicit stacks. Each turn of a loop takes at least one
character, so the number of characters left bounds the number of turns.
-/

namespace JsonSpan.Regex

/-- Where reading stands: the text left, whether verbose mode is on, and the group names used. -/
structure Source where
  rest : List Char
  verbose : Bool
  names : List (List Char)

/-- A reading step; it fails where the text is no regular expression. -/
abbrev Reading := StateT Source Option

namespace Reading

/-- The text is no regular expression. -/
def invalid {α : Type} : Reading α :=
  fun _ => none

/-- A value, or failure for want of it. -/
def demand {α : Type} (value : Option α) : Reading α :=
  fun s => value.map (·, s)

/-- The next character, which is not taken. -/
def peek : Reading (Option Char) :=
  return (← get).rest.head?

def next : Reading Char := do
  match (← get).rest with
  | c :: cs =>
    modify ({ · with rest := cs })
    return c
  | [] => invalid

def advance : Reading Unit :=
  modify fun s => { s with rest := s.rest.tail }

/-- Past a given text, if it stands here. -/
def takeText (text : List Char) : Reading Bool := do
  let s ← get
  if text.isPrefixOf s.rest then
    set { s with rest := s.rest.drop text.length }
    return true
  else return false

/-- The text after blanks and comments; inside a comment first, if the flag says so. -/
def dropBlanks : Bool → List Char → List Char
  | _, [] => []
  | true, c :: cs => dropBlanks (c != '\n') cs
  | false, c :: cs =>
    if Text.isWhite c then dropBlanks false cs
    else if c = '#' then dropBlanks true cs
    else c :: cs

/-- Past blanks and comments, in verbose mode. -/
def skipBlanks : Reading Unit :=
  modify fun s => if s.verbose then { s with rest := dropBlanks false s.rest } else s

/-- The longest run of characters of a class, without the blanks and comments of verbose mode. -/
def spanSkipping (verbose : Bool) (accept : Char → Bool) :
    Bool → List Char → List Char × List Char
  | _, [] => ([], [])
  | true, c :: cs => spanSkipping verbose accept (c != '\n') cs
  | false, c :: cs =>
    if verbose && Text.isWhite c then spanSkipping verbose accept false cs
    else if verbose && c == '#' then spanSkipping verbose accept true cs
    else if accept c then
      let (run, rest) := spanSkipping verbose accept false cs
      (c :: run, rest)
    else ([], c :: cs)

/-- The longest run of characters of a class here. -/
def takeRun (accept : Char → Bool) : Reading (List Char) := do
  let s ← get
  let (run, rest) := spanSkipping s.verbose accept false s.rest
  set { s with rest }
  return run

/-- What stands before a closing brace, and past the brace. -/
def braced : Reading (List Char) := do
  let run ← takeRun (· != '}')
  let _ ← next
  return run

/-- Past the characters of a class, verbose or not. -/
def dropAll (accept : Char → Bool) : Reading Unit :=
  modify fun s => { s with rest := s.rest.dropWhile accept }

/-- Switch verbose mode as flag changes say. -/
def applyVerbose (changes : FlagChanges) : Reading Unit :=
  modify fun s => { s with verbose := (changes.state? .verbose).getD s.verbose }

/-! ### Escapes -/

/-- The number of hexadecimal digits. -/
def hexNumber? (digits : List Char) : Option Nat :=
  digits.foldlM (fun n c => (Text.hexValue? c).map (16 * n + ·)) 0

def charOf? (n : Nat) : Option Char :=
  if n.isValidChar then some (Char.ofNat n) else none

/-- Some hexadecimal digits, blanks of verbose mode between them. -/
def hexDigits : Nat → Reading (List Char)
  | 0 => return []
  | k + 1 => do
    skipBlanks
    let c ← next
    return c :: (← hexDigits k)

/-- A character by its code point: a fixed number of digits, or any number of them in braces. -/
def hexLiteral (kind : Char) : Reading Node := do
  skipBlanks
  if (← peek) = some '{' then
    advance
    let digits ← braced
    if digits.isEmpty then invalid
    let n ← demand (hexNumber? digits)
    return .literal ⟨← demand (charOf? n), false⟩
  else
    let count := if kind = 'x' then 2 else if kind = 'u' then 4 else 8
    let n ← demand (hexNumber? (← hexDigits count))
    return .literal ⟨← demand (charOf? n), kind == 'x'⟩

/-- A text split at the first place where another one stands in it. -/
def splitAt? (mark : List Char) : List Char → Option (List Char × List Char)
  | [] => none
  | c :: cs =>
    if mark.isPrefixOf (c :: cs) then some ([], (c :: cs).drop mark.length)
    else (splitAt? mark cs).map fun (a, b) => (c :: a, b)

/-- What the text in the braces of `\p` asks for. -/
def propertyQuery (text : List Char) : PropertyQuery :=
  match splitAt? ['!', '='] text <|> splitAt? [':'] text <|> splitAt? ['='] text with
  | some (property, value) => .value (String.ofList property) (String.ofList value)
  | none => .name (String.ofList text)

/-- A Unicode class after its `\p` or `\P`. -/
def propertyClass (negated : Bool) : Reading Node := do
  skipBlanks
  match ← next with
  | '{' => return .property (propertyQuery (← braced)) negated
  | '\\' => invalid
  | c => return .property (.name (String.singleton c)) negated

/-- The word conditions that `\b` spells out in braces. -/
def boundaryOfName? (name : List Char) : Option Look :=
  if name = "start".toList then some .wordStart
  else if name = "end".toList then some .wordEnd
  else if name = "start-half".toList then some .wordStartHalf
  else if name = "end-half".toList then some .wordEndHalf
  else none

/-- A word condition after `\b`. A brace that starts no name is left for a repetition. -/
def boundary : Reading Node := do
  let s ← get
  if (← peek) = some '{' then
    advance
    skipBlanks
    match ← peek with
    | none => invalid
    | some c =>
      if c.isAlpha || c == '-' then
        let name ← takeRun fun c => c.isAlpha || c == '-'
        if (← next) = '}' then return .look (← demand (boundaryOfName? name))
        else invalid
      else
        set s
        return .look .wordBoundary
  else return .look .wordBoundary

/-- ASCII characters other than letters, digits and angle brackets stand for themselves after a
backslash. -/
def isEscapable (c : Char) : Bool :=
  c.toNat < 0x80 && !c.isAlphanum && c != '<' && c != '>'

/-- What a backslash and the characters after it stand for. -/
def escape : Reading Node := do
  let c ← next
  match c with
  | 'x' | 'u' | 'U' => hexLiteral c
  | 'p' => propertyClass false
  | 'P' => propertyClass true
  | 'd' => return .letter .digit false
  | 'D' => return .letter .digit true
  | 's' => return .letter .space false
  | 'S' => return .letter .space true
  | 'w' => return .letter .word false
  | 'W' => return .letter .word true
  | 'a' => return .literal ⟨'\x07', false⟩
  | 'f' => return .literal ⟨'\x0c', false⟩
  | 't' => return .literal ⟨'\t', false⟩
  | 'n' => return .literal ⟨'\n', false⟩
  | 'r' => return .literal ⟨'\r', false⟩
  | 'v' => return .literal ⟨'\x0b', false⟩
  | 'A' => return .look .textStart
  | 'z' => return .look .textEnd
  | 'b' => boundary
  | 'B' => return .look .notWordBoundary
  | '<' => return .look .wordStart
  | '>' => return .look .wordEnd
  | c => if isEscapable c then return .literal ⟨c, false⟩ else invalid

def single : Reading Node := do
  match ← next with
  | '\\' => escape
  | '.' => return .dot
  | '^' => return .look .lineStart
  | '$' => return .look .lineEnd
  | c => return .literal ⟨c, false⟩

/-! ### Bracketed classes -/

/-- Several items of a class as one. -/
def unionOf : List ClassSet → ClassSet
  | [] => .empty
  | [item] => item
  | items => .union items

/-- What is open while a class is read: a bracket with the items before it, or an operator with its
left side. -/
inductive ClassFrame where
  | bracket (before : List ClassSet) (negated : Bool)
  | operator (operator : SetOperator) (left : ClassSet)

/-- A character or escape in a class, where only the backslash is special. -/
def classSingle : Reading Node := do
  match ← next with
  | '\\' => escape
  | c => return .literal ⟨c, false⟩

/-- A node as an item of a class. -/
def classItem? : Node → Option ClassSet
  | .literal l => some (.literal l)
  | .letter kind negated => some (.letter kind negated)
  | .property query negated => some (.property query negated)
  | _ => none

/-- A node as an end of a range. -/
def rangeEnd? : Node → Option Literal
  | .literal l => some l
  | _ => none

/-- The character after a hyphen, blanks of verbose mode left out. -/
def afterHyphen : Reading (Option Char) := do
  let s ← get
  let cs := s.rest.tail
  if s.verbose then
    match cs.dropWhile Text.isWhite with
    | '#' :: cs => return (cs.dropWhile Text.isWhite).head?
    | cs => return cs.head?
  else return cs.head?

/-- An item or a range of a class. -/
def classRange : Reading ClassSet := do
  let first ← classSingle
  skipBlanks
  match ← peek with
  | none => invalid
  | some '-' =>
    let after ← afterHyphen
    if after = some ']' ∨ after = some '-' then demand (classItem? first)
    else
      advance
      skipBlanks
      let last ← classSingle
      let first ← demand (rangeEnd? first)
      let last ← demand (rangeEnd? last)
      if first.char ≤ last.char then return .range first last else invalid
  | some _ => demand (classItem? first)

/-- Hyphens at the start of a class, which stand for themselves. -/
def leadingHyphens : Nat → Reading (List ClassSet)
  | 0 => return []
  | fuel + 1 => do
    match ← peek with
    | none => invalid
    | some '-' =>
      advance
      skipBlanks
      return .literal ⟨'-', false⟩ :: (← leadingHyphens fuel)
    | some _ => return []

/-- The start of a class: its bracket, a caret, and the hyphens or the bracket that stand for
themselves there. -/
def openClass : Reading (Bool × List ClassSet) := do
  advance
  skipBlanks
  let negated := (← peek) == some '^'
  if negated then
    advance
    skipBlanks
  let hyphens ← leadingHyphens ((← get).rest.length + 1)
  if hyphens.isEmpty && (← peek) == some ']' then
    advance
    skipBlanks
    return (negated, [.literal ⟨']', false⟩])
  else return (negated, hyphens)

/-- A named ASCII class such as `[:alpha:]`, if one stands here. -/
def asciiClass : Reading (Option ClassSet) := do
  let s ← get
  match s.rest with
  | '[' :: ':' :: cs =>
    let negated := cs.head? == some '^'
    let cs := if negated then cs.tail else cs
    match cs.dropWhile (· != ':') with
    | ':' :: ']' :: rest =>
      match asciiClass? (String.ofList (cs.takeWhile (· != ':'))) with
      | some runs =>
        set { s with rest }
        return some (.ascii runs negated)
      | none => return none
    | _ => return none
  | _ => return none

/-- The right side of an operator joined to its left side, if an operator is open. -/
def closeOperator (frames : List ClassFrame) (right : ClassSet) : ClassSet × List ClassFrame :=
  match frames with
  | .operator op left :: frames => (.operation op left right, frames)
  | frames => (right, frames)

/-- The rest of a class, given what is open and the items read since, the last one first. -/
def classBody : Nat → List ClassFrame → List ClassSet → Reading Node
  | 0, _, _ => invalid
  | fuel + 1, frames, items => do
    skipBlanks
    let operator (op : SetOperator) : Reading Node := do
      advance
      advance
      let (left, frames) := closeOperator frames (unionOf items.reverse)
      classBody fuel (.operator op left :: frames) []
    match (← get).rest with
    | [] => invalid
    | '[' :: _ =>
      match ← asciiClass with
      | some set => classBody fuel frames (set :: items)
      | none =>
        let (negated, first) ← openClass
        classBody fuel (.bracket items negated :: frames) first.reverse
    | ']' :: _ =>
      advance
      match closeOperator frames (unionOf items.reverse) with
      | (set, [.bracket _ negated]) => return .bracketed negated set
      | (set, .bracket before negated :: frames) =>
        classBody fuel frames (.bracketed negated set :: before)
      | _ => invalid
    | '&' :: '&' :: _ => operator .intersection
    | '-' :: '-' :: _ => operator .difference
    | '~' :: '~' :: _ => operator .symmetricDifference
    | _ :: _ =>
      let item ← classRange
      classBody fuel frames (item :: items)

/-- A bracketed class. -/
def bracketedClass : Reading Node := do
  let (negated, first) ← openClass
  classBody ((← get).rest.length + 1) [.bracket [] negated] first.reverse

/-! ### Repetitions -/

/-- The node that a repetition applies to, and those before it. -/
def repeated (items : List Node) : Reading (Node × List Node) :=
  match items with
  | [] | .flags _ :: _ => invalid
  | node :: before => return (node, before)

/-- A question mark after a repetition makes it prefer less; which text matches is the same. -/
def skipReluctance : Reading Unit := do
  if (← peek) = some '?' then advance

/-- A decimal number below 2 ^ 32. -/
def count : Reading (Option Nat) := do
  dropAll Text.isWhite
  let digits ← takeRun Char.isDigit
  dropAll Text.isWhite
  if digits.isEmpty then return none
  let n := digits.foldl (fun n c => 10 * n + (c.toNat - '0'.toNat)) 0
  if n < 0x100000000 then return some n else invalid

/-- The counts of a repetition in braces. -/
def counts : Reading (Nat × Option Nat) := do
  skipBlanks
  let least ← demand (← count)
  match ← next with
  | '}' => return (least, some least)
  | ',' =>
    skipBlanks
    if (← peek) = some '}' then
      advance
      return (least, none)
    else
      let most ← demand (← count)
      if (← next) = '}' ∧ least ≤ most then return (least, some most) else invalid
  | _ => invalid

/-! ### Groups -/

/-- What an opening parenthesis starts: a group, or nothing but a change of flags. -/
inductive Opening where
  | group (changes : FlagChanges)
  | flags (changes : FlagChanges)

/-- The flags of a group up to the colon or parenthesis after them. A minus sign switches off the
flags behind it, of which there is at least one; no flag may be named twice. -/
def flagLetters : Bool → Bool → List Char → List Char →
    Option (FlagChanges × Char × List Char)
  | _, _, _, [] => none
  | on, dangling, seen, c :: cs =>
    if c = ':' ∨ c = ')' then if dangling then none else some ([], c, cs)
    else if c = '-' then if on then flagLetters false true seen cs else none
    else do
      let flag ← Flag.ofChar? c
      if seen.contains c then none
      else
        let (changes, close, rest) ← flagLetters on false (c :: seen) cs
        return ((flag, on) :: changes, close, rest)

/-- Whether a character can stand in the name of a group, or start it. -/
def isNameChar (first : Bool) (c : Char) : Bool :=
  if first then c == '_' || Unicode.alphabetic.contains c
  else c == '_' || c == '.' || c == '[' || c == ']' || Unicode.alphanumeric.contains c

/-- The name of a group and the angle bracket after it. No two groups have one name. -/
def groupName : Reading Unit := do
  let s ← get
  let name := s.rest.takeWhile (· != '>')
  match s.rest.dropWhile (· != '>'), name with
  | _ :: rest, first :: more =>
    if isNameChar true first && more.all (isNameChar false) && !s.names.contains name then
      set { s with rest, names := name :: s.names }
    else invalid
  | _, _ => invalid

/-- What follows an opening parenthesis. -/
def openGroup : Reading Opening := do
  skipBlanks
  match (← get).rest with
  | '?' :: '=' :: _ | '?' :: '!' :: _ | '?' :: '<' :: '=' :: _ | '?' :: '<' :: '!' :: _ => invalid
  | _ =>
    if (← takeText ['?', 'P', '<']) || (← takeText ['?', '<']) then
      groupName
      return .group []
    else if ← takeText ['?'] then
      let s ← get
      let (changes, close, rest) ← demand (flagLetters true false [] s.rest)
      set { s with rest }
      if close = ':' then return .group changes
      else if changes.isEmpty then invalid
      else return .flags changes
    else return .group []

/-- What is open while an expression is read: the branches and items before a group, its flags, and
whether verbose mode was on. -/
structure Frame where
  branches : List Node
  items : List Node
  changes : FlagChanges
  verbose : Bool

/-- Items as one node. -/
def sequenceOf : List Node → Node
  | [] => .empty
  | [node] => node
  | nodes => .sequence nodes

/-- Branches as one node, given the last one first, and the items of the branch that is open. -/
def choiceOf (branches items : List Node) : Node :=
  match branches with
  | [] => sequenceOf items.reverse
  | _ => .choice (sequenceOf items.reverse :: branches).reverse

/-- The rest of an expression, given what is open, and the branches and items read since. -/
def body : Nat → List Frame → List Node → List Node → Reading Node
  | 0, _, _, _ => invalid
  | fuel + 1, frames, branches, items => do
    skipBlanks
    match ← peek with
    | none => if frames.isEmpty then return choiceOf branches items else invalid
    | some '(' =>
      advance
      let old := (← get).verbose
      match ← openGroup with
      | .flags changes =>
        applyVerbose changes
        body fuel frames branches (.flags changes :: items)
      | .group changes =>
        applyVerbose changes
        body fuel (⟨branches, items, changes, old⟩ :: frames) [] []
    | some ')' =>
      match frames with
      | [] => invalid
      | frame :: frames =>
        advance
        modify ({ · with verbose := frame.verbose })
        let group := Node.group frame.changes (choiceOf branches items)
        body fuel frames frame.branches (group :: frame.items)
    | some '|' =>
      advance
      body fuel frames (sequenceOf items.reverse :: branches) []
    | some '[' =>
      let node ← bracketedClass
      body fuel frames branches (node :: items)
    | some '{' =>
      let (node, before) ← repeated items
      advance
      let (least, most) ← counts
      skipBlanks
      skipReluctance
      body fuel frames branches (.repetition node least most :: before)
    | some c =>
      if c = '?' ∨ c = '*' ∨ c = '+' then
        let (node, before) ← repeated items
        advance
        skipReluctance
        let least := if c = '+' then 1 else 0
        let most := if c = '?' then some 1 else none
        body fuel frames branches (.repetition node least most :: before)
      else
        let node ← single
        body fuel frames branches (node :: items)

end Reading

/-- How deep an expression may be nested. -/
def depthLimit : Nat := 250

/-- The expression of a text, if it is one; `verbose` says whether blanks count from the start. -/
def Node.ofChars? (verbose : Bool) (text : List Char) : Option Node := do
  let (node, _) ← (Reading.body (text.length + 1) [] [] []).run ⟨text, verbose, []⟩
  if node.depth ≤ depthLimit then some node else none

end JsonSpan.Regex

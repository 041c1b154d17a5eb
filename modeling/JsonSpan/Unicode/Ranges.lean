import JsonSpan.Text.Characters

/-!
# Sets of code points

A set of characters is its membership test. Tables hold the sets of the Unicode standard as runs of
code points in a short notation: hexadecimal code points and ranges with blanks between them, and
`100-12e/2` for every second one of a range.
-/

namespace JsonSpan.Unicode

/-- A set of characters. -/
abbrev CharSet := Char → Bool

/-- The code points `first`, `first + stride`, … up to `last`. -/
structure Run where
  first : Nat
  last : Nat
  stride : Nat
  deriving DecidableEq, Repr

def Run.contains (r : Run) (n : Nat) : Bool :=
  r.first ≤ n && n ≤ r.last && (n - r.first) % r.stride == 0

/-- The number that hexadecimal digits denote; other characters count as zeros. -/
def hexNat (cs : List Char) : Nat :=
  cs.foldl (fun n c => 16 * n + (Text.hexValue? c).getD 0) 0

/-- A run in table notation. -/
def Run.ofChars (cs : List Char) : Run :=
  let bounds := cs.takeWhile (· != '/')
  let stride :=
    match cs.dropWhile (· != '/') with
    | _ :: s => hexNat s
    | [] => 1
  let first := hexNat (bounds.takeWhile (· != '-'))
  match bounds.dropWhile (· != '-') with
  | _ :: last => ⟨first, hexNat last, stride⟩
  | [] => ⟨first, first, stride⟩

/-- The pieces of a text between blanks. -/
def splitBlanks (s : String) : List (List Char) :=
  go [] s.toList
where
  go (piece : List Char) : List Char → List (List Char)
    | [] => if piece.isEmpty then [] else [piece.reverse]
    | c :: cs =>
      if c = ' ' then
        if piece.isEmpty then go [] cs else piece.reverse :: go [] cs
      else go (c :: piece) cs

/-- A set of code points as a list of runs. -/
abbrev Ranges := List Run

namespace Ranges

/-- The runs in the lines of a table. -/
def ofText (lines : List String) : Ranges :=
  (lines.flatMap splitBlanks).map Run.ofChars

/-- Whether a character is in one of the runs. -/
def contains (rs : Ranges) (c : Char) : Bool :=
  rs.any (·.contains c.toNat)

end Ranges

/-- A set of code points and its names, with blanks between them. -/
structure Named where
  names : String
  ranges : Ranges
  deriving DecidableEq, Repr

/-- Whether a table entry has a name. -/
def Named.hasName (entry : Named) (name : String) : Bool :=
  (splitBlanks entry.names).contains name.toList

/-- The code points of the entry with a name; none if there is no such entry. -/
def rangesOf (table : List Named) (name : String) : Ranges :=
  (table.find? (·.hasName name)).elim [] (·.ranges)

end JsonSpan.Unicode

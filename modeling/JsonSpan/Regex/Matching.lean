import JsonSpan.Unicode.Ranges

/-!
# Matching

A regular expression relates the places of a text: it leads from the place before a match to the
place after it. `Regex.reach` gives the places that are led to from a set of places, so sequences
compose, choices are unions, and an expression matches somewhere in a text if any place at all is
reached from all of them together.

A place is reached again by moving forward or not at all, so beyond one more repetition than the
text has characters nothing new happens. Counts are cut down to that.
-/

namespace JsonSpan

/-- A condition on a place between two characters: the one before and the one after it, if any. -/
abbrev Boundary := Option Char → Option Char → Bool

/-- A regular expression over sets of characters. -/
inductive Regex where
  | empty
  | oneOf (accept : Unicode.CharSet)
  | around (holds : Boundary)
  | sequence (first second : Regex)
  | choice (left right : Regex)
  | repetition (body : Regex) (least : Nat) (most : Option Nat)

namespace Regex

/-- The places of a text that are in a set, first to last: one before each character and one at the
end. -/
abbrev Places := List Bool

/-- The places after the characters accepted at places of a set. -/
def step (accept : Unicode.CharSet) : List Char → Places → Places
  | c :: text, p :: places =>
    (p && accept c) :: step accept text places
  | _, _ => []

/-- The places of a set at which a condition holds, given the character before the first. -/
def keep (holds : Boundary) : Option Char → List Char → Places → Places
  | _, _, [] => []
  | before, [], p :: _ => [p && holds before none]
  | before, c :: text, p :: places =>
    (p && holds before (some c)) :: keep holds (some c) text places

/-- The places of either set. -/
def join (a b : Places) : Places :=
  List.zipWith (· || ·) a b

/-- A set of places led on a number of times. -/
def iterate (f : Places → Places) : Nat → Places → Places
  | 0, places => places
  | n + 1, places => iterate f n (f places)

/-- A set of places joined with those it leads to in up to a number of times. -/
def closure (f : Places → Places) : Nat → Places → Places
  | 0, places => places
  | n + 1, places => closure f n (join places (f places))

/-- The places that an expression leads to from a set of places. -/
def reach (text : List Char) : Regex → Places → Places
  | empty, places => places
  | oneOf accept, places => false :: step accept text places
  | around holds, places => keep holds none text places
  | sequence first second, places => second.reach text (first.reach text places)
  | choice left right, places => join (left.reach text places) (right.reach text places)
  | repetition body least most, places =>
    let bound := text.length + 1
    let least := min least bound
    let most := (most.map (min · bound)).getD bound
    closure (body.reach text) (most - least) (iterate (body.reach text) least places)

/-- Whether an expression matches somewhere in a text. It stands in for the matcher of an engine that
is no part of the program. -/
@[irreducible]
def isMatch (r : Regex) (text : List Char) : Bool :=
  (r.reach text (List.replicate (text.length + 1) true)).any id

end Regex

end JsonSpan

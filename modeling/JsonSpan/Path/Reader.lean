import JsonSpan.Path.Error
import JsonSpan.Text.Utf8

/-!
# Readers of path texts

A reader takes what it can from the place it starts at, or fails. An attempt also keeps a note of
the grammar rules that failed on the way, from which the message for a text outside the grammar is
made. The note never bears on the result: `Attempt.result` is computed without it, and it is only
worked out for a text that no path is read from.

The note keeps the rules that failed at the furthest place reached. A rule stands for the rules
inside it that failed at its own start, unless there was exactly one; that one stands for the rule
then.
-/

namespace JsonSpan

/-- The rules of the path grammar that a message may name, in the order in which it names them. -/
inductive Rule where
  | endOfText
  | path
  | root
  | descendant
  | child
  | bracket
  | fieldName
  | wildcard
  | index
  | slice
  | sliceStart
  | sliceEnd
  | sliceStep
  | integer
  | union
  | name
  | string
  | filter
  | or
  | and
  | negation
  | group
  | comparison
  | existence
  | currentQuery
  | rootQuery
  | number
  | trueWord
  | falseWord
  | nullWord
  | operator
  | regex
  deriving DecidableEq, Repr

namespace Rule

/-- All rules, in the order of messages. -/
def all : List Rule :=
  [endOfText, path, root, descendant, child, bracket, fieldName, wildcard, index, slice, sliceStart,
    sliceEnd, sliceStep, integer, union, name, string, filter, or, and, negation, group, comparison,
    existence, currentQuery, rootQuery, number, trueWord, falseWord, nullWord, operator, regex]

/-- What a message calls a rule. -/
def title : Rule → String
  | endOfText => "end of query"
  | path => "path"
  | root => "`$`"
  | descendant => "`..`"
  | child => "`.`"
  | bracket => "`[`"
  | fieldName => "field name"
  | wildcard => "`*`"
  | index => "integer"
  | slice => "slice"
  | sliceStart => "slice_start"
  | sliceEnd => "slice_end"
  | sliceStep => "slice_step"
  | integer => "integer"
  | union => "union_list"
  | name => "name"
  | string => "string"
  | filter => "filter"
  | or => "predicate"
  | and => "predicate"
  | negation => "negation"
  | group => "group"
  | comparison => "comparison"
  | existence => "existence"
  | currentQuery => "current_query"
  | rootQuery => "root_query"
  | number => "number"
  | trueWord => "true_lit"
  | falseWord => "false_lit"
  | nullWord => "null_lit"
  | operator => "comparison operator"
  | regex => "regex"

end Rule

/-- A place in a path text: the bytes before it and the characters after it. -/
structure TextPlace where
  offset : Nat
  rest : List Char
  deriving DecidableEq, Repr

def TextPlace.after (p : TextPlace) (c : Char) : TextPlace :=
  ⟨p.offset + c.utf8Size, p.rest.tail⟩

/-- The rules that failed at the furthest offset where any failed. -/
structure Furthest where
  offset : Nat
  rules : List Rule
  deriving DecidableEq, Repr

namespace Furthest

/-- Nothing has failed yet. -/
def none : Furthest :=
  ⟨0, []⟩

/-- The number of rules noted at an offset. -/
def countAt (f : Furthest) (offset : Nat) : Nat :=
  if offset = f.offset then f.rules.length else 0

/-- The note after a rule failed that started at an offset, given the notes before and after its
body. -/
def fail (before after : Furthest) (rule : Rule) (offset : Nat) : Furthest :=
  if after.countAt offset = before.countAt offset + 1 then after
  else if offset = after.offset then
    ⟨offset, after.rules.take (before.countAt offset) ++ [rule]⟩
  else if after.offset < offset then ⟨offset, [rule]⟩
  else after

/-- The error that a note makes: the rules in order, each once. -/
def error (f : Furthest) : PathError :=
  .expected ((Rule.all.filter f.rules.contains).map Rule.title) f.offset

end Furthest

/-- What came of reading: a value and the place reached, if reading succeeded, and what it does to
the note of failed rules. -/
structure Attempt (α : Type) where
  result : Option (α × TextPlace)
  note : Furthest → Furthest

/-- A reader of values of a type. -/
def Reader (α : Type) := TextPlace → Attempt α

namespace Reader

variable {α β : Type}

def pure (a : α) : Reader α :=
  fun p => ⟨some (a, p), id⟩

/-- Reads with one reader, and goes on with the reader that the value gives. -/
def bind (r : Reader α) (f : α → Reader β) : Reader β := fun p =>
  let first := r p
  match first.result with
  | none => ⟨none, first.note⟩
  | some (a, q) =>
    let second := f a q
    ⟨second.result, second.note ∘ first.note⟩

instance : Monad Reader where
  pure := pure
  bind := bind

def fail : Reader α :=
  fun _ => ⟨none, id⟩

/-- The first reader, or where it fails the second. -/
def or (r s : Reader α) : Reader α := fun p =>
  let first := r p
  match first.result with
  | some _ => first
  | none =>
    let second := s p
    ⟨second.result, second.note ∘ first.note⟩

def optional (r : Reader α) : Reader (Option α) :=
  or (bind r fun a => pure (some a)) (pure none)

/-- As much as a reader reads again and again, a number of times at most. -/
def upTo (r : Reader α) : Nat → Reader (List α)
  | 0 => pure []
  | n + 1 => or (bind r fun a => bind (upTo r n) fun as => pure (a :: as)) (pure [])

/-- As much as a reader reads again and again. A reader that always takes something does so no more
often than there are characters left. -/
def many (r : Reader α) : Reader (List α) :=
  fun p => upTo r p.rest.length p

/-- A reader as a rule of the grammar: its failure is noted. -/
def rule (which : Rule) (r : Reader α) : Reader α := fun p =>
  let body := r p
  match body.result with
  | some _ => body
  | none => ⟨none, fun f => Furthest.fail f (body.note f) which p.offset⟩

/-- The text that a reader reads, besides its value. -/
def withText (r : Reader α) : Reader (α × List Char) := fun p =>
  let inner := r p
  ⟨inner.result.map fun (a, q) => ((a, p.rest.take (p.rest.length - q.rest.length)), q), inner.note⟩

def char (accept : Char → Bool) : Reader Char := fun p =>
  match p.rest with
  | c :: _ => if accept c then ⟨some (c, p.after c), id⟩ else ⟨none, id⟩
  | [] => ⟨none, id⟩

/-- The characters that a function picks from the front of the text, which may be none. -/
def taking (front : List Char → List Char) : Reader (List Char) := fun p =>
  let cs := front p.rest
  ⟨some (cs, ⟨p.offset + Utf8.size cs, p.rest.drop cs.length⟩), id⟩

/-- The longest run of characters of a class, which may be empty. -/
def run (accept : Char → Bool) : Reader (List Char) :=
  taking (·.takeWhile accept)

def text : List Char → Reader Unit
  | [] => pure ()
  | c :: cs => bind (char (· == c)) fun _ => text cs

def atEnd : Reader Unit := fun p =>
  if p.rest.isEmpty then ⟨some ((), p), id⟩ else ⟨none, id⟩

/-- The blanks of paths: space, tab, carriage return and line feed. -/
def isBlank (c : Char) : Bool :=
  c == ' ' || c == '\t' || c == '\r' || c == '\n'

def blanks : Reader Unit :=
  bind (run isBlank) fun _ => pure ()

end Reader

end JsonSpan

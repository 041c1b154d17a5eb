import JsonSpan.Path.Printer
import JsonSpan.Scan.Fault
import JsonSpan.Span

/-!
# Events of an evaluation

What an evaluation reports while it runs: where the root lies, what each segment made of the values
it was given, and how many values matched in the end. Events are values; their texts are made only
when someone asks for them.
-/

namespace JsonSpan

/-- How much detail a message is. -/
inductive Level where
  | debug
  | trace
  deriving DecidableEq, Repr

def Level.name : Level → String
  | debug => "DEBUG"
  | trace => "TRACE"

/-- Something reported while a query runs. -/
inductive Event where
  /-- A text was read as a path of some segments. -/
  | parsed (text : String) (segments : Nat)
  /-- The root of the document was found. -/
  | root (span : Span)
  /-- A segment led from so many values to so many. -/
  | segment (segment : Segment) (before after : Nat)
  /-- A path matched so many values. -/
  | matched (path : Path) (count : Nat)

namespace Event

def level : Event → Level
  | parsed .. | matched .. => .debug
  | root .. | segment .. => .trace

def message : Event → String
  | parsed text segments =>
    "parsed `" ++ text ++ "` into " ++ toString segments ++ " segment(s)"
  | root span => "document root spans " ++ span.text
  | segment s before after =>
    s.text ++ ": " ++ toString before ++ " candidate(s) -> " ++ toString after
  | matched path count => "`" ++ path.text ++ "` matched " ++ toString count ++ " value(s)"

def line (e : Event) : String :=
  e.level.name ++ " " ++ e.message

end Event

/-- A computation that reports events and ends with a value or a fault. What it reported before a
fault stays reported. -/
structure Traced (α : Type) where
  log : List Event
  result : Except Fault α

namespace Traced

variable {α β : Type}

def pure (a : α) : Traced α :=
  ⟨[], .ok a⟩

/-- A computation followed by one that depends on its value. -/
def bind (x : Traced α) (f : α → Traced β) : Traced β :=
  match x.result with
  | .ok a => ⟨x.log ++ (f a).log, (f a).result⟩
  | .error fault => ⟨x.log, .error fault⟩

instance : Monad Traced where
  pure := pure
  bind := bind

/-- A value or a fault, and nothing reported. -/
def lift (x : Except Fault α) : Traced α :=
  ⟨[], x⟩

def report (e : Event) : Traced Unit :=
  ⟨[e], .ok ()⟩

/-- The values that a computation gives for each of a list, put together. -/
def collect (f : α → Traced (List β)) : List α → Traced (List β)
  | [] => pure []
  | a :: as => bind (f a) fun bs => bind (collect f as) fun more => pure (bs ++ more)

/-- The items of a list for which a computation says yes. -/
def select (test : α → Traced Bool) : List α → Traced (List α)
  | [] => pure []
  | a :: as =>
    bind (test a) fun keep => bind (select test as) fun more =>
      pure (if keep then a :: more else more)

end Traced

end JsonSpan

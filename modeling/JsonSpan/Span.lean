import JsonSpan.Bytes

/-!
# Spans

A span is a half-open range of offsets into a document. Every value is reported as the span of its
bytes, and nothing is copied until a span is cut out of the document.
-/

namespace JsonSpan

/-- The bytes from offset `start` up to, and not with, offset `stop`. -/
structure Span where
  start : Nat
  stop : Nat
  deriving DecidableEq, Repr, Inhabited

namespace Span

def length (s : Span) : Nat :=
  s.stop - s.start

def isEmpty (s : Span) : Bool :=
  s.start == s.stop

/-- The bytes of the document that the span covers. -/
def slice (s : Span) (doc : Bytes) : Bytes :=
  (doc.take s.stop).drop s.start

/-- The span of the same bytes when `k` bytes are put in front of the document. -/
def shift (k : Nat) (s : Span) : Span :=
  ⟨s.start + k, s.stop + k⟩

/-- The span written as an interval, `[start..stop)`. -/
def text (s : Span) : String :=
  "[" ++ toString s.start ++ ".." ++ toString s.stop ++ ")"

/-- The span written as a JSON object with its two offsets. -/
def json (s : Span) : String :=
  "\x7b\"start\":" ++ toString s.start ++ ",\"end\":" ++ toString s.stop ++ "\x7d"

def jsonArray (spans : List Span) : String :=
  "[" ++ ",".intercalate (spans.map json) ++ "]"

end Span

end JsonSpan

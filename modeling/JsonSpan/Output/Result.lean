import JsonSpan.Output.Highlight
import JsonSpan.Output.Sink
import JsonSpan.Query.Answer

/-!
# Writing results

The matches of a path as lines of output: their values, highlighted if colour is wanted, or their
spans as JSON. Without matches there is no line of values.
-/

namespace JsonSpan

/-- The line with the values of matches, in pieces. -/
def resultPieces (color : Bool) (doc : Bytes) (spans : List Span) : List Bytes :=
  if spans.isEmpty then []
  else
    let values :=
      if color then Highlight.pieces true (renderMatches doc spans) else matchPieces doc spans
    values ++ [[Byte.lineFeed]]

/-- The line with the spans of matches, in pieces. -/
def spansPieces (spans : List Span) : List Bytes :=
  [utf8 (Span.jsonArray spans), [Byte.lineFeed]]

namespace Sink

/-- Write the values of matches. -/
def writeMatches (sink : Sink) (doc : Bytes) (spans : List Span) : Written :=
  sink.write (matchPieces doc spans)

/-- Write JSON bytes, highlighted if colour is wanted. -/
def writeHighlighted (sink : Sink) (color : Bool) (json : Bytes) : Written :=
  sink.write (Highlight.pieces color json)

/-- Write the line with the values of matches; a broken pipe is forgiven. -/
def writeResult (sink : Sink) (color : Bool) (doc : Bytes) (spans : List Span) : Written :=
  (sink.write (resultPieces color doc spans)).forgiveBrokenPipe

/-- Write the line with the spans of matches; a broken pipe is forgiven. -/
def writeSpans (sink : Sink) (spans : List Span) : Written :=
  (sink.write (spansPieces spans)).forgiveBrokenPipe

end Sink

end JsonSpan

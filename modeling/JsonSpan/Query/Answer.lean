import JsonSpan.Path.Grammar
import JsonSpan.Query.Evaluate

/-!
# Queries

A query is the text of a path and a document. Its answer is the bytes of what matched: nothing for
no match, the value as it stands in the document for one, and for more a JSON array of them.
-/

namespace JsonSpan

/-- Why a query has no answer: the path or the document is at fault. -/
inductive QueryError where
  | path (error : PathError)
  | document (fault : Fault)
  deriving DecidableEq, Repr

def QueryError.message : QueryError → String
  | path error => "invalid path: " ++ error.message
  | document fault => "invalid document: " ++ fault.message

/-- The pieces in which matches are written, in order. -/
def matchPieces (doc : Bytes) : List Span → List Bytes
  | [] => []
  | [s] => [s.slice doc]
  | s :: more =>
    [Byte.openBracket] :: s.slice doc ::
      more.flatMap (fun s => [[Byte.comma], s.slice doc]) ++ [[Byte.closeBracket]]

/-- The bytes of matches. -/
def renderMatches (doc : Bytes) (spans : List Span) : Bytes :=
  (matchPieces doc spans).flatten

theorem renderMatches_several (doc : Bytes) (s t : Span) (more : List Span) :
    renderMatches doc (s :: t :: more) = [Byte.openBracket] ++
      ((s.slice doc ++ (t :: more).flatMap fun s => Byte.comma :: s.slice doc) ++
        [Byte.closeBracket]) := by
  have hpieces (ss : List Span) : (ss.flatMap fun s => [[Byte.comma], s.slice doc]).flatten =
      ss.flatMap fun s => Byte.comma :: s.slice doc := by
    induction ss with
    | nil => rfl
    | cons s ss ih => simp [ih]
  rw [← hpieces]
  simp [renderMatches, matchPieces]

def Path.answer (p : Path) (doc : Bytes) : Except QueryError Bytes :=
  match p.select doc with
  | .ok spans => .ok (renderMatches doc spans)
  | .error fault => .error (.document fault)

/-- The answer of a query. The path is read before the document is looked at. -/
def query (doc : Bytes) (path : String) : Except QueryError Bytes :=
  match Path.parse path with
  | .ok p => p.answer doc
  | .error error => .error (.path error)

end JsonSpan

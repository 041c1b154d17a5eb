import JsonSpan.Bytes

/-!
# Documents

Where the bytes of a document are: mapped from a file, or held in memory. A file with nothing in it
cannot be mapped, so it is held, as is all that comes from a stream.
-/

namespace JsonSpan

/-- The bytes of a document and where they are. -/
inductive Document where
  | mapped (bytes : Bytes)
  | held (bytes : Bytes)
  deriving DecidableEq, Repr

namespace Document

def ofFile (content : Bytes) : Document :=
  if content.isEmpty then held [] else mapped content

def ofStream (content : Bytes) : Document :=
  held content

def bytes : Document → Bytes
  | mapped bytes | held bytes => bytes

theorem bytes_ofFile (content : Bytes) : (ofFile content).bytes = content := by
  cases content <;> rfl

end Document

end JsonSpan

import JsonSpan.Bytes

/-!
# Sinks

Output goes to a sink, which may take only so many bytes. A write hands over as many of its bytes as
fit and fails if some do not; an empty write never fails. Output is written piece by piece, and
nothing is written after a piece that failed.
-/

namespace JsonSpan

/-- Why a sink takes no more, in its own words. An interruption is no such fault, as what is interrupted
is tried again. -/
structure WriteFault where
  /-- Whether the fault is that nobody reads what is written. -/
  brokenPipe : Bool
  text : String
  deriving DecidableEq, Repr

/-- A sink: the number of bytes it takes (any number, if `none`), and the fault of a write that is
too long. -/
structure Sink where
  room : Option Nat
  fault : WriteFault
  deriving DecidableEq, Repr

/-- What a sink has taken, and whether that was all. -/
structure Written where
  bytes : Bytes
  outcome : Except WriteFault Unit

namespace Sink

def unlimited : Sink :=
  ⟨none, ⟨false, ""⟩⟩

/-- Whether a sink takes a piece whole. -/
def fits (sink : Sink) (piece : Bytes) : Bool :=
  sink.room.all (piece.length ≤ ·)

/-- A sink that has taken a piece. -/
def after (sink : Sink) (piece : Bytes) : Sink :=
  { sink with room := sink.room.map (· - piece.length) }

/-- Write pieces, up to the first that fails. -/
def write (sink : Sink) : List Bytes → Written
  | [] => ⟨[], .ok ()⟩
  | piece :: pieces =>
    if sink.fits piece then
      let later := (sink.after piece).write pieces
      ⟨piece ++ later.bytes, later.outcome⟩
    else ⟨piece.take (sink.room.getD 0), .error sink.fault⟩

theorem write_eq {sink : Sink} (h : sink.room = none) (pieces : List Bytes) :
    sink.write pieces = ⟨pieces.flatten, .ok ()⟩ := by
  induction pieces generalizing sink with
  | nil => rfl
  | cons piece pieces ih =>
    have hfits : sink.fits piece := by simp [fits, h]
    have hafter : (sink.after piece).room = none := by simp [after, h]
    rw [write, if_pos hfits, ih hafter]
    rfl

end Sink

/-- A broken pipe is forgiven: whoever closed it has read enough. -/
def Written.forgiveBrokenPipe (written : Written) : Written :=
  match written.outcome with
  | .ok () => written
  | .error fault => if fault.brokenPipe then ⟨written.bytes, .ok ()⟩ else written

/-- What is reported of a fault while the result is written. -/
def WriteFault.resultMessage (fault : WriteFault) : String :=
  "write to stdout: " ++ fault.text

end JsonSpan

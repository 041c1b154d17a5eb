import Mathlib.Order.Filter.AtTopBot.Basic
import JsonSpan.Output.Result
import JsonSpan.Proofs.Output.Copying

/-!
# Writing call by call

A writer takes of each call as much as it likes, so what is to be written is offered again and again
until all of it is taken or a call fails. A call that is interrupted has not failed for good and is
made once more (`Writer.writeAll`). As interruptions may go on for ever, writing is followed for a
number of calls, as many as one likes, and it has an outcome only once it has returned (`Progress`).
Output is a sequence of such writes, and whatever follows a failed one is left out
(`Progress.andThen`).

However the bytes are cut into writes and the writes into calls, what has been taken is a first part
of the whole (`Part`). In the end it is all of it, or as much as there is room for (`Ends`).
-/

namespace JsonSpan

open Filter (atTop)

/-! ### Writers -/

/-- The fault of a call that took nothing and named no fault. -/
def WriteFault.nothingTaken : WriteFault :=
  ⟨false, "failed to write whole buffer"⟩

/-- What a writer answers to a call that offers it bytes. -/
inductive Answer where
  /-- It took the first so many of them. -/
  | took (count : Nat)
  /-- It was interrupted before it took any. The call failed, but is only to be made again. -/
  | interrupted
  /-- It took none, and will not. -/
  | failed (fault : WriteFault)
  deriving DecidableEq, Repr

/-- How many bytes were taken. -/
def Answer.count : Answer → Nat
  | took count => count
  | _ => 0

/-- What a call comes to that is not to be made again. -/
def Answer.fault? : Answer → Option WriteFault
  | took 0 => some .nothingTaken
  | failed fault => some fault
  | _ => none

/-- What a writer has been through: the calls, and the bytes it has taken. -/
structure Log where
  calls : Nat
  bytes : Bytes
  deriving DecidableEq, Repr

namespace Log

def start : Log :=
  ⟨0, []⟩

/-- One more call that took some bytes. -/
def call (log : Log) (taken : Bytes) : Log :=
  ⟨log.calls + 1, log.bytes ++ taken⟩

end Log

/-- A writer that takes a number of bytes in all and fails every further call, with a fault or for ever
with interruptions. Calls may be cut short, and interrupted, at any time. -/
structure Writer where
  room : Nat
  /-- The fault of calls for which there is no room left; none if these are interrupted for ever. -/
  refusal : Option WriteFault
  answer : Log → Bytes → Answer
  count_le (log : Log) (offer : Bytes) :
    (answer log offer).count ≤ min offer.length (room - log.bytes.length)
  refuses (log : Log) (offer : Bytes) (fault : WriteFault) (hoffer : offer ≠ [])
    (hfault : (answer log offer).fault? = some fault) :
    room ≤ log.bytes.length ∧ refusal = some fault
  /-- Otherwise interruptions come to an end. -/
  answers (log : Log) (offer : Bytes) (h : log.bytes.length < room ∨ refusal.isSome) :
    ∃ calls ≥ log.calls, answer ⟨calls, log.bytes⟩ offer ≠ .interrupted

namespace Writer

/-- A writer that is interrupted at every other call and takes one byte at a time. -/
def hesitant (room : Nat) (refusal : Option WriteFault) : Writer where
  room := room
  refusal := refusal
  answer log offer :=
    if log.calls % 2 = 0 then .interrupted
    else if log.bytes.length < room then .took (min 1 offer.length)
    else refusal.elim .interrupted .failed
  count_le log offer := by
    split
    · exact Nat.zero_le _
    · split
      · simp only [Answer.count]
        omega
      · cases refusal <;> exact Nat.zero_le _
  refuses log offer fault hoffer hfault := by
    have hpos := List.length_pos_iff.2 hoffer
    split at hfault
    · cases hfault
    · split at hfault
      · rw [Nat.min_eq_left hpos] at hfault
        cases hfault
      · cases refusal with
        | none => cases hfault
        | some other =>
          cases hfault
          exact ⟨by omega, rfl⟩
  answers log offer h := by
    refine ⟨2 * log.calls + 1, by omega, ?_⟩
    rw [if_neg (show ¬ (2 * log.calls + 1) % 2 = 0 by omega)]
    split
    · simp
    · obtain ⟨fault, rfl⟩ := Option.isSome_iff_exists.1 (h.resolve_left ‹_›)
      simp

instance : Inhabited Writer :=
  ⟨hesitant 0 none⟩

end Writer

/-! ### Writing -/

/-- How far writing has come: what the writer has been through, and the outcome once there is one. -/
structure Progress where
  log : Log
  outcome? : Option (Except WriteFault Unit)

namespace Progress

/-- Nothing is left to be written. -/
def done (log : Log) : Progress :=
  ⟨log, some (.ok ())⟩

/-- What has been written, once there is an outcome. -/
def written? (progress : Progress) : Option Written :=
  progress.outcome?.map (⟨progress.log.bytes, ·⟩)

/-- Go on with more once all is written, if nothing has failed. -/
def andThen (progress : Progress) (more : Log → Progress) : Progress :=
  match progress.outcome? with
  | some (.ok ()) => more progress.log
  | _ => progress

/-- A broken pipe is forgiven. -/
def forgiveBrokenPipe (progress : Progress) : Progress :=
  ⟨progress.log, progress.written?.map (·.forgiveBrokenPipe.outcome)⟩

end Progress

namespace Writer

variable (w : Writer) (limit : Nat)

/-- Offer bytes until all are taken or a call fails. Only `limit` calls in all are followed. -/
def writeAll (log : Log) (offer : Bytes) : Progress :=
  if offer = [] then .done log
  else if limit ≤ log.calls then ⟨log, none⟩
  else
    match w.answer log offer with
    | .took 0 => ⟨log.call [], some (.error .nothingTaken)⟩
    | .took (n + 1) => writeAll (log.call (offer.take (n + 1))) (offer.drop (n + 1))
    | .interrupted => writeAll (log.call []) offer
    | .failed fault => ⟨log.call [], some (.error fault)⟩
termination_by limit - log.calls
decreasing_by all_goals (simp only [Log.call]; omega)

/-- After nine calls a second byte is offered that is never taken. -/
example : ((hesitant 1 none).writeAll 9 .start [1, 2]).log = ⟨9, [1]⟩ := by
  decide +kernel

/-- Write pieces one after the other. -/
def writePieces (log : Log) : List Bytes → Progress
  | [] => .done log
  | piece :: pieces => (w.writeAll limit log piece).andThen fun log => writePieces log pieces

/-- Write values with commas between them; `first` says that none has been written yet. -/
def writeValues (doc : Bytes) (first : Bool) (log : Log) : List Span → Progress
  | [] => .done log
  | s :: more =>
    (if first then .done log else w.writeAll limit log [Byte.comma]).andThen fun log =>
      (w.writeAll limit log (s.slice doc)).andThen fun log => writeValues doc false log more

/-- Write matches: nothing, a value, or an array of values. -/
def writeMatches (doc : Bytes) (spans : List Span) (log : Log) : Progress :=
  match spans with
  | [] => .done log
  | [s] => w.writeAll limit log (s.slice doc)
  | spans =>
    (w.writeAll limit log [Byte.openBracket]).andThen fun log =>
      (w.writeValues limit doc true log spans).andThen fun log =>
        w.writeAll limit log [Byte.closeBracket]

/-- Write highlighted bytes, token by token. -/
def writeHighlighted (color : Bool) (json : Bytes) (log : Log) : Progress :=
  match json with
  | [] => .done log
  | b :: r =>
    let length := Highlight.tokenLength b r
    let after := (b :: r).drop length
    let token := (b :: r).take length
    (w.writePieces limit log (Highlight.paintToken color (Highlight.styleOf b after) token)).andThen
      fun log => writeHighlighted color after log
termination_by json.length
decreasing_by
  have := Highlight.tokenLength_pos b r
  simp only [List.length_drop, List.length_cons]
  omega

/-- Write the line with the values of matches, plain or highlighted, where colour may be shown or not.
What is to be highlighted is put together first. A broken pipe is forgiven. -/
def writeResult (highlight : Option Bool) (doc : Bytes) (spans : List Span) (log : Log) : Progress :=
  if spans.isEmpty then .done log
  else
    let values :=
      match highlight with
      | some color => w.writeHighlighted limit color (renderMatches doc spans) log
      | none => w.writeMatches limit doc spans log
    (values.andThen fun log => w.writeAll limit log [Byte.lineFeed]).forgiveBrokenPipe

/-- Write the line with the spans of matches. A broken pipe is forgiven. -/
def writeSpans (spans : List Span) (log : Log) : Progress :=
  (w.writePieces limit log [utf8 (Span.jsonArray spans), [Byte.lineFeed]]).forgiveBrokenPipe

/-! ### However many calls are followed -/

/-- What is known of writing that has come some way from `before` to `whole`. -/
structure Part (before whole : Bytes) (progress : Progress) : Prop where
  grows : before <+: progress.log.bytes
  part : progress.log.bytes <+: whole
  fits : progress.log.bytes.length ≤ w.room
  done : progress.outcome? = some (.ok ()) → progress.log.bytes = whole
  failed : ∀ fault, progress.outcome? = some (.error fault) →
    w.refusal = some fault ∧ w.room < whole.length ∧ w.room ≤ progress.log.bytes.length

/-- What becomes of writing that ends with `whole`, if it is followed for long enough. -/
structure Ends (whole : Bytes) (run : Nat → Progress) : Prop where
  done : whole.length ≤ w.room → ∃ log, ∀ᶠ limit in atTop, run limit = .done log
  full : w.room < whole.length → ∀ᶠ limit in atTop, w.room ≤ (run limit).log.bytes.length ∧
    (w.refusal.isSome → (run limit).outcome?.isSome)

/-- Writing adds some bytes to what has been taken. -/
structure Writes (bytes : Bytes) (run : Nat → Log → Progress) : Prop where
  part : ∀ limit log, log.bytes.length ≤ w.room → w.Part log.bytes (log.bytes ++ bytes) (run limit log)
  ends : ∀ log, log.bytes.length ≤ w.room → w.Ends (log.bytes ++ bytes) (run · log)

variable {w}

theorem Ends.congr {whole : Bytes} {run run' : Nat → Progress} (h : w.Ends whole run')
    (heq : ∀ᶠ limit in atTop, run limit = run' limit) : w.Ends whole run where
  done hroom := by
    obtain ⟨log, hdone⟩ := h.done hroom
    refine ⟨log, ?_⟩
    filter_upwards [heq, hdone] with limit hlimit hlog
    exact hlimit.trans hlog
  full hroom := by
    filter_upwards [heq, h.full hroom] with limit hlimit hfull
    rw [hlimit]
    exact hfull

theorem Ends.of_lt {whole : Bytes} {run : Nat → Progress} (h : w.room < whole.length)
    (hfull : ∀ᶠ limit in atTop, w.room ≤ (run limit).log.bytes.length ∧
      (w.refusal.isSome → (run limit).outcome?.isSome)) :
    w.Ends whole run where
  done hfits := absurd hfits (Nat.not_le.2 h)
  full _ := hfull

theorem Part.longer {before whole : Bytes} {progress : Progress} (h : w.Part before whole progress)
    (hdone : progress.outcome? ≠ some (.ok ())) (more : Bytes) :
    w.Part before (whole ++ more) progress where
  grows := h.grows
  part := h.part.trans (List.prefix_append _ _)
  fits := h.fits
  done hok := absurd hok hdone
  failed fault hfault := by
    obtain ⟨hrefusal, hwhole, hfull⟩ := h.failed fault hfault
    refine ⟨hrefusal, ?_, hfull⟩
    rw [List.length_append]
    omega

theorem Writes.exists_done {bytes : Bytes} {run : Nat → Log → Progress} (h : w.Writes bytes run)
    {log : Log} (hroom : (log.bytes ++ bytes).length ≤ w.room) :
    ∃ calls, ∀ᶠ limit in atTop, run limit log = .done ⟨calls, log.bytes ++ bytes⟩ := by
  have hlog : log.bytes.length ≤ w.room := by
    rw [List.length_append] at hroom
    omega
  obtain ⟨⟨calls, taken⟩, hdone⟩ := (h.ends log hlog).done hroom
  obtain ⟨limit, hlimit⟩ := hdone.exists
  have hpart := h.part limit log hlog
  rw [hlimit] at hpart
  obtain rfl : taken = log.bytes ++ bytes := hpart.done rfl
  exact ⟨calls, hdone⟩

theorem Writes.andThen {a b : Bytes} {first second : Nat → Log → Progress} (ha : w.Writes a first)
    (hb : w.Writes b second) :
    w.Writes (a ++ b) fun limit log => (first limit log).andThen (second limit) where
  part limit log h := by
    have hfirst := ha.part limit log h
    rw [← List.append_assoc]
    unfold Progress.andThen
    split
    · next hok =>
      have hsecond := hb.part limit _ hfirst.fits
      rw [hfirst.done hok] at hsecond
      exact { hsecond with grows := (List.prefix_append _ _).trans hsecond.grows }
    · next hok => exact hfirst.longer hok b
  ends log h := by
    rw [← List.append_assoc]
    by_cases hroom : (log.bytes ++ a).length ≤ w.room
    · obtain ⟨calls, hdone⟩ := ha.exists_done hroom
      refine (hb.ends ⟨calls, log.bytes ++ a⟩ hroom).congr ?_
      filter_upwards [hdone] with limit hlimit
      rw [hlimit]
      rfl
    · have hover : w.room < (log.bytes ++ a).length := Nat.lt_of_not_le hroom
      refine Ends.of_lt (by rw [List.length_append]; omega) ?_
      filter_upwards [(ha.ends log h).full hover] with limit hfull
      have hfirst := ha.part limit log h
      have hok : (first limit log).outcome? ≠ some (.ok ()) := by
        intro hok
        exact hroom (hfirst.done hok ▸ hfirst.fits)
      have hstop : (first limit log).andThen (second limit) = first limit log := by
        unfold Progress.andThen
        split
        · next hdone => exact absurd hdone hok
        · rfl
      rw [hstop]
      exact hfull

end Writer

end JsonSpan

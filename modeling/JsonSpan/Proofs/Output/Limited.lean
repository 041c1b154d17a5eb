import JsonSpan.Proofs.Output.Writers

/-!
# Output that is cut short

Output to a writer with limited room is the first bytes of the same output without a limit, and what is
reported is the fault of the writer, if bytes are left over (`Writer.sees_prefix`). It comes to what is
written to a sink with that room (`Sink.write_limited`).
-/

namespace JsonSpan

open Filter (atTop)

/-- What is reported of a fault where a broken pipe is forgiven. -/
def WriteFault.forgiven (fault : WriteFault) : Except WriteFault Unit :=
  if fault.brokenPipe then .ok () else .error fault

namespace Written

theorem forgive_ok {written : Written} (h : written.outcome = .ok ()) :
    written.forgiveBrokenPipe = written := by
  rw [forgiveBrokenPipe, h]

theorem forgive_error (bytes : Bytes) (fault : WriteFault) :
    forgiveBrokenPipe ⟨bytes, .error fault⟩ = ⟨bytes, fault.forgiven⟩ := by
  simp only [forgiveBrokenPipe, WriteFault.forgiven]
  split <;> rfl

theorem bytes_forgive (written : Written) : written.forgiveBrokenPipe.bytes = written.bytes := by
  unfold forgiveBrokenPipe
  split
  · rfl
  · split <;> rfl

end Written

namespace Progress

theorem written?_eq_some {progress : Progress} {bytes : Bytes} {outcome : Except WriteFault Unit} :
    progress.written? = some ⟨bytes, outcome⟩ ↔
      progress.log.bytes = bytes ∧ progress.outcome? = some outcome := by
  obtain ⟨log, outcome?⟩ := progress
  cases outcome? <;> simp [written?]

theorem written?_forgive (progress : Progress) :
    progress.forgiveBrokenPipe.written? = progress.written?.map (·.forgiveBrokenPipe) := by
  obtain ⟨log, outcome?⟩ := progress
  cases outcome? with
  | none => rfl
  | some outcome =>
    simp only [forgiveBrokenPipe, written?, Option.map_some, Option.some.injEq]
    exact congrArg (Written.mk · _) (Written.bytes_forgive ⟨log.bytes, outcome⟩).symm

end Progress

/-! ### Output to a writer with too little room -/

namespace Writer

variable (w : Writer)

/-- Writing returns if it is followed for long enough, with this and nothing else. -/
def Returns (run : Nat → Progress) (written : Written) : Prop :=
  (∀ limit other, (run limit).written? = some other → other = written) ∧
    ∀ᶠ limit in atTop, (run limit).written? = some written

/-- How output to a writer with limited room stands to the same output without a limit. At no time has
the writer been handed over anything but the first bytes of all, and no more than it has room for. If
it has room for all, these are handed over and all is well. If not, it is handed over as many as it has
room for, and its fault is `reported`: just what output comes to that a sink with such a room is given.
A writer that is interrupted for ever in place of a fault gets the same bytes, but nothing is reported,
as the call is made again and again. -/
structure SeesPrefix (reported : WriteFault → Except WriteFault Unit) (output : Sink → Written)
    (run : Nat → Progress) : Prop where
  complete : (output .unlimited).outcome = .ok ()
  part : ∀ limit, (run limit).log.bytes <+: (output .unlimited).bytes ∧
    (run limit).log.bytes.length ≤ w.room
  fits : (output .unlimited).bytes.length ≤ w.room → Returns run (output .unlimited)
  refused : w.room < (output .unlimited).bytes.length → ∀ fault, w.refusal = some fault →
    Returns run ⟨(output .unlimited).bytes.take w.room, reported fault⟩
  interrupted : w.room < (output .unlimited).bytes.length → w.refusal = none →
    (∀ limit, (run limit).outcome? = none) ∧
      ∀ᶠ limit in atTop, (run limit).log.bytes = (output .unlimited).bytes.take w.room
  sink : ∀ fault, w.refusal = some fault → Returns run (output ⟨some w.room, fault⟩)

variable {w}

/-- Writing that has returned has written everything, or it has filled the writer. -/
theorem Part.written {whole : Bytes} {progress : Progress} {written : Written}
    (h : w.Part [] whole progress) (hwritten : progress.written? = some written) :
    whole.length ≤ w.room ∧ written = ⟨whole, .ok ()⟩ ∨
      ∃ fault, w.refusal = some fault ∧ w.room < whole.length ∧
        written = ⟨whole.take w.room, .error fault⟩ := by
  obtain ⟨bytes, outcome⟩ := written
  obtain ⟨rfl, houtcome⟩ := Progress.written?_eq_some.1 hwritten
  have hfits := h.fits
  cases outcome with
  | ok =>
    have hwhole := h.done houtcome
    rw [hwhole] at hfits
    exact .inl ⟨hfits, by rw [hwhole]⟩
  | error fault =>
    obtain ⟨hrefusal, hwhole, hfull⟩ := h.failed fault houtcome
    have htake := List.prefix_iff_eq_take.1 h.part
    rw [Nat.le_antisymm hfits hfull] at htake
    exact .inr ⟨fault, hrefusal, hwhole, by rw [htake]⟩

section

variable {whole : Bytes} {run : Nat → Log → Progress} (h : w.Writes whole run)

include h

theorem Writes.part_start (limit : Nat) : w.Part [] whole (run limit .start) :=
  h.part limit .start (Nat.zero_le _)

theorem Writes.full (hroom : w.room < whole.length) :
    ∀ᶠ limit in atTop, (run limit .start).log.bytes = whole.take w.room ∧
      (w.refusal.isSome → (run limit .start).outcome?.isSome) := by
  filter_upwards [(h.ends .start (Nat.zero_le _)).full hroom] with limit hlimit
  have hpart := h.part_start limit
  have htake := List.prefix_iff_eq_take.1 hpart.part
  rw [Nat.le_antisymm hpart.fits hlimit.1] at htake
  exact ⟨htake, hlimit.2⟩

end

theorem Returns.forgiven {run : Nat → Progress} {written : Written} (h : Returns run written) :
    Returns (fun limit => (run limit).forgiveBrokenPipe) written.forgiveBrokenPipe := by
  constructor
  · intro limit other hother
    rw [Progress.written?_forgive] at hother
    obtain ⟨before, hbefore, rfl⟩ := Option.map_eq_some_iff.1 hother
    rw [h.1 limit before hbefore]
  · filter_upwards [h.2] with limit hlimit
    rw [Progress.written?_forgive, hlimit]
    rfl

/-- A broken pipe is forgiven, and nothing else changes. -/
theorem SeesPrefix.forgiven {output : Sink → Written} {run : Nat → Progress}
    (h : w.SeesPrefix .error output run) :
    w.SeesPrefix WriteFault.forgiven (fun sink => (output sink).forgiveBrokenPipe)
      fun limit => (run limit).forgiveBrokenPipe := by
  have hall : (output .unlimited).forgiveBrokenPipe = output .unlimited :=
    Written.forgive_ok h.complete
  constructor
  · rw [hall, h.complete]
  · rw [hall]
    exact h.part
  · intro hroom
    rw [hall] at hroom
    exact (h.fits hroom).forgiven
  · intro hroom fault hrefusal
    rw [hall] at hroom ⊢
    rw [← Written.forgive_error]
    exact (h.refused hroom fault hrefusal).forgiven
  · intro hroom hrefusal
    rw [hall] at hroom ⊢
    obtain ⟨hnever, hbytes⟩ := h.interrupted hroom hrefusal
    refine ⟨fun limit => ?_, hbytes⟩
    simp [Progress.forgiveBrokenPipe, Progress.written?, hnever limit]
  · intro fault hrefusal
    exact (h.sink fault hrefusal).forgiven

end Writer

end JsonSpan

import JsonSpan.Proofs.Query.Framing

/-!
# Documents cut short

A scan that sees where it ends cannot end before it gets there. If it finds something in a document
and the document is cut before the end of what it finds, it reads on to the cut and is stuck for want
of more bytes (`Place.RunsDry`). All values but numbers are scanned like that, so a document that is
cut within its root, or before it, is reported as truncated at the cut, by every path
(`Path.select_take`). A number is not: cut after a digit it is a shorter number.
-/

namespace JsonSpan

namespace Place

/-- Where the document ends. -/
def finish (p : Place) : Place :=
  ⟨p.offset + p.rest.length, []⟩

theorem finish_cons (offset : Nat) (b : UInt8) (r : Bytes) :
    finish ⟨offset, b :: r⟩ = finish ⟨offset + 1, r⟩ := by
  simp only [finish, List.length_cons, Nat.add_right_comm, Nat.add_assoc]

theorem finish_ofOffset {doc : Bytes} {n : Nat} (h : n ≤ doc.length) :
    (ofOffset doc n).finish = ⟨doc.length, []⟩ := by
  simp only [finish, ofOffset, List.length_drop, Nat.add_sub_cancel' h]

theorem After.finish_eq {p q : Place} (h : p.After q) : q.finish = p.finish := by
  obtain ⟨taken, hr, ho⟩ := h
  simp only [finish, hr, ho, List.length_append, Nat.add_assoc]

/-! ### Scans that run dry -/

/-- Where the scan ends in what comes after the document, in the document alone it is stuck at the
end. -/
def RunsDry (scan : Place → Scan) : Prop :=
  ∀ (f : Frame) (p q : Place), scan (f.place p) = .ok q → q.rest.length < f.after.length →
    scan p = .error p.finish

theorem runsDry_ok : RunsDry .ok := by
  intro f p q h hlt
  cases h
  simp only [Frame.place, List.length_append] at hlt
  omega

theorem runsDry_error : RunsDry .error := by
  intro f p q h
  cases h

theorem RunsDry.onByte {accept : UInt8 → Bool} {scan : Place → Scan} (hs : RunsDry scan) :
    RunsDry (onByte accept scan .error) := by
  intro f p q h hlt
  obtain ⟨offset, rest⟩ := p
  cases rest with
  | nil => rfl
  | cons b r =>
    have hb : (f.place ⟨offset, b :: r⟩) = ⟨offset + f.before.length, b :: (r ++ f.after)⟩ := rfl
    rw [hb, onByte_cons] at h
    rw [onByte_cons, finish_cons]
    split at h <;> rename_i hb
    · rw [if_pos hb]
      rw [Nat.add_right_comm] at h
      exact hs f _ q h hlt
    · cases h

theorem runsDry_run {σ : Type} (step : σ → UInt8 → Verdict σ) (s : σ) :
    RunsDry fun p => run step s p.offset p.rest := by
  intro f p q h hlt
  obtain ⟨offset, rest⟩ := p
  simp only [Frame.place] at h ⊢
  induction rest generalizing s offset with
  | nil => rfl
  | cons b r ih =>
    rw [List.cons_append, run] at h
    rw [run, finish_cons]
    split at h <;> rename_i hstep
    · rw [Nat.add_right_comm] at h
      exact ih _ _ h
    · cases h
      simp only [List.length_append] at hlt
      omega
    · cases h

theorem runsDry_skipWord (word : Bytes) : RunsDry (skipWord word) := by
  induction word with
  | nil => exact runsDry_ok
  | cons w ws ih =>
    rw [skipWord_cons_eq]
    exact ih.onByte

/-- Every value but a number that is cut short is read up to the cut. -/
theorem skipValue_cut {f : Frame} {p q : Place} (h : (f.place p).skipValue = .ok q)
    (hlt : q.rest.length < f.after.length) (hk : (f.place p).kind? ≠ some .number) :
    p.skipValue = .error p.finish := by
  obtain ⟨offset, rest⟩ := p
  cases rest with
  | nil => rfl
  | cons b r =>
    have hbrackets : RunsDry skipContainer := by
      unfold skipContainer
      simp only [matchBrackets_eq]
      exact runsDry_run bracketStep ([], .outside)
    have hscan : RunsDry (skipValueOf b) := by
      rw [skipValueOf]
      split
      · exact runsDry_error
      · exact hbrackets
      · exact hbrackets
      · simp only [stringTail_eq]
        exact (runsDry_run stringStep false).onByte
      · next hnumber => exact absurd hnumber hk
      · exact runsDry_skipWord _
      · exact runsDry_skipWord _
    rw [skipValue_cons]
    refine hscan f _ q ?_ hlt
    rw [← h]
    exact (skipValue_cons _ b _).symm

end Place

/-! ### Documents cut short -/

/-- No root is found in the front of a document whose root ends behind it. -/
theorem locateRoot_cut {inner behind : Bytes} {root : Span}
    (h : locateRoot (inner ++ behind) = .ok root)
    (hk : (Place.ofOffset (inner ++ behind) root.start).kind? ≠ some .number)
    (hlt : inner.length < root.stop) : locateRoot inner = .error (.truncated inner.length) := by
  let f : Frame := ⟨[], behind⟩
  have hstart : f.place (.ofOffset inner 0) = .ofOffset (inner ++ behind) 0 :=
    Frame.place_ofOffset f (Nat.zero_le _)
  have hfinish : (Place.ofOffset inner 0).skipBlanks.finish = ⟨inner.length, []⟩ := by
    rw [(Place.after_skipBlanks _).finish_eq, Place.finish_ofOffset (Nat.zero_le _)]
  have hskip : (Place.ofOffset inner 0).skipBlanks.skipValue =
      .error (Place.ofOffset inner 0).skipBlanks.finish := by
    cases hrest : (Place.ofOffset inner 0).skipBlanks.rest with
    | nil =>
      have hplace : (Place.ofOffset inner 0).skipBlanks = (Place.ofOffset inner 0).skipBlanks.finish := by
        rw [Place.finish, hrest, List.length_nil, Nat.add_zero, ← hrest]
      rw [← hplace, Place.skipValue, Place.kind?, Place.byte?, hrest]
      rfl
    | cons b r =>
      -- the blanks end before the cut, so the root starts before it
      obtain ⟨hblanks, hextent⟩ := locateRoot_eq_ok.1 h
      have hframe := Place.skipBlanks_frame (f := f) (p := .ofOffset inner 0) (.inl (by simp [hrest]))
      rw [hstart, hblanks] at hframe
      have hvalue := hextent.skipValue
      rw [hframe] at hvalue hk
      refine Place.skipValue_cut hvalue ?_ hk
      have hstop := hextent.bounds.2
      show ((inner ++ behind).drop root.stop).length < behind.length
      rw [List.length_append] at hstop
      rw [List.length_drop, List.length_append]
      omega
  rw [locateRoot, Place.readValue, hskip, hfinish]
  rfl

/-- A document that is cut before the end of its root, the root not being a number, is reported as
truncated at the cut, whatever path is evaluated. -/
theorem Path.select_take (p : Path) {doc : Bytes} {root : Span} (h : locateRoot doc = .ok root)
    (hk : (Place.ofOffset doc root.start).kind? ≠ some .number) {n : Nat} (hn : n < root.stop) :
    p.select (doc.take n) = .error (.truncated n) := by
  have hlen : (doc.take n).length = n := by
    have hstop := (isExtent_of_locateRoot h).2.2
    exact List.length_take_of_le (by omega)
  rw [← List.take_append_drop n doc] at h hk
  have hcut := locateRoot_cut h hk (by omega)
  rw [Path.select_eq, hcut, hlen]
  rfl

/-- The cut may be right behind a backslash in a string. -/
theorem Path.select_take_escape :
    locateRoot (utf8 " [\x7b\"]\\\"\": 1\x7d]") = .ok ⟨1, 13⟩ ∧
    Path.select [.descent] ((utf8 " [\x7b\"]\\\"\": 1\x7d]").take 6) = .error (.truncated 6) := by
  have hroot : locateRoot (utf8 " [\x7b\"]\\\"\": 1\x7d]") = .ok ⟨1, 13⟩ := by decide +kernel
  exact ⟨hroot, select_take [.descent] hroot (by decide +kernel) (by decide)⟩

end JsonSpan

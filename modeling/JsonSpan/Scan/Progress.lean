import JsonSpan.Scan.Value

/-!
# Scanners move forward

What every scanner does to the place it starts at: it ends `n` bytes further on, with exactly those
bytes taken off the rest. `Place.After p q` says so, and `Place.Past p q` that at least one byte was
taken. A value is never empty, which is what bounds every loop over children.
-/

namespace JsonSpan.Place

/-- Some number of bytes lies between `p` and `q`. -/
def After (p q : Place) : Prop :=
  ∃ taken : Bytes, p.rest = taken ++ q.rest ∧ q.offset = p.offset + taken.length

/-- At least one byte lies between `p` and `q`. -/
def Past (p q : Place) : Prop :=
  ∃ taken : Bytes, taken ≠ [] ∧ p.rest = taken ++ q.rest ∧ q.offset = p.offset + taken.length

theorem After.refl (p : Place) : p.After p :=
  ⟨[], by simp, by simp⟩

theorem After.trans {p q r : Place} (h₁ : p.After q) (h₂ : q.After r) : p.After r := by
  obtain ⟨t₁, e₁, o₁⟩ := h₁
  obtain ⟨t₂, e₂, o₂⟩ := h₂
  exact ⟨t₁ ++ t₂, by simp [e₁, e₂], by simp [o₁, o₂, Nat.add_assoc]⟩

theorem Past.after {p q : Place} (h : p.Past q) : p.After q := by
  obtain ⟨t, _, e, o⟩ := h
  exact ⟨t, e, o⟩

theorem Past.trans_after {p q r : Place} (h₁ : p.Past q) (h₂ : q.After r) : p.Past r := by
  obtain ⟨t₁, n₁, e₁, o₁⟩ := h₁
  obtain ⟨t₂, e₂, o₂⟩ := h₂
  exact ⟨t₁ ++ t₂, by simp [n₁], by simp [e₁, e₂], by simp [o₁, o₂, Nat.add_assoc]⟩

theorem After.trans_past {p q r : Place} (h₁ : p.After q) (h₂ : q.Past r) : p.Past r := by
  obtain ⟨t₁, e₁, o₁⟩ := h₁
  obtain ⟨t₂, n₂, e₂, o₂⟩ := h₂
  exact ⟨t₁ ++ t₂, by simp [n₂], by simp [e₁, e₂], by simp [o₁, o₂, Nat.add_assoc]⟩

theorem Past.length_lt {p q : Place} (h : p.Past q) : q.rest.length < p.rest.length := by
  obtain ⟨t, n, e, _⟩ := h
  have := List.length_pos_iff.2 n
  rw [e, List.length_append]
  omega

theorem Past.offset_lt {p q : Place} (h : p.Past q) : p.offset < q.offset := by
  obtain ⟨t, n, _, o⟩ := h
  have := List.length_pos_iff.2 n
  omega

theorem After.cons {offset : Nat} {b : UInt8} {r : Bytes} {q : Place}
    (h : After ⟨offset + 1, r⟩ q) : Past ⟨offset, b :: r⟩ q := by
  obtain ⟨t, e, o⟩ := h
  refine ⟨b :: t, by simp, by simpa using e, ?_⟩
  simp only [o, List.length_cons]
  omega

theorem After.offset_le {p q : Place} (h : p.After q) : p.offset ≤ q.offset := by
  obtain ⟨t, _, o⟩ := h
  omega

theorem After.ofOffset {doc : Bytes} {n : Nat} {q : Place} (h : (ofOffset doc n).After q) :
    q = ofOffset doc q.offset := by
  obtain ⟨t, e, o⟩ := h
  cases q with
  | mk offset rest =>
    simp only [Place.ofOffset, Place.mk.injEq, true_and] at *
    rw [o, ← List.drop_drop, e, List.drop_left]

/-! ### One lemma per scanner -/

theorem past_next {p : Place} {b : UInt8} (h : p.byte? = some b) : p.Past p.next := by
  cases p with
  | mk offset rest =>
    cases rest with
    | nil => simp [byte?] at h
    | cons c r => exact ⟨[c], by simp, by simp [next], by simp [next]⟩

theorem after_skipWhile (accept : UInt8 → Bool) (offset : Nat) (rest : Bytes) :
    After ⟨offset, rest⟩ (skipWhile accept offset rest) := by
  induction rest generalizing offset with
  | nil => exact After.refl _
  | cons b r ih =>
    unfold skipWhile
    split
    · exact (ih (offset + 1)).cons.after
    · exact After.refl _

theorem after_skipBlanks (p : Place) : p.After p.skipBlanks :=
  after_skipWhile _ _ _

theorem past_expect {p q : Place} {b : UInt8} (h : p.expect b = .ok q) : p.Past q := by
  unfold expect at h
  split at h
  · next hb =>
    cases h
    exact past_next hb
  · cases h

theorem past_someDigits {p q : Place} (h : p.someDigits = .ok q) : p.Past q := by
  cases p with
  | mk offset rest =>
    cases rest with
    | nil => simp [someDigits, byte?] at h
    | cons b r =>
      simp only [someDigits, byte?, List.head?_cons] at h
      split at h
      · next hd =>
        cases h
        refine (past_next (b := b) (by simp [byte?])).trans_after ?_
        simp only [skipDigits, skipWhile, hd, if_true, next, List.tail_cons]
        exact after_skipWhile _ _ _
      · cases h

theorem after_skipIf (accept : UInt8 → Bool) (p : Place) : p.After (p.skipIf accept) := by
  unfold skipIf
  split
  · next b hb =>
    split
    · exact (past_next hb).after
    · exact After.refl _
  · exact After.refl _

theorem after_skipFraction {p q : Place} (h : p.skipFraction = .ok q) : p.After q := by
  unfold skipFraction at h
  split at h
  · next hb => exact (past_next hb).after.trans (past_someDigits h).after
  · cases h
    exact After.refl _

theorem after_skipExponent {p q : Place} (h : p.skipExponent = .ok q) : p.After q := by
  unfold skipExponent at h
  split at h
  · next hb =>
    have hn : p.After p.next := by
      rcases hb with hb | hb <;> exact (past_next hb).after
    exact hn.trans ((after_skipIf _ _).trans (past_someDigits h).after)
  · cases h
    exact After.refl _

theorem past_skipNumber {p q : Place} (h : p.skipNumber = .ok q) : p.Past q := by
  simp only [skipNumber, bind, Except.bind] at h
  split at h
  · cases h
  · next whole hw =>
    split at h
    · cases h
    · next fraction hf =>
      exact (after_skipIf _ _).trans_past
        ((past_someDigits hw).trans_after ((after_skipFraction hf).trans (after_skipExponent h)))

theorem after_skipWord {word : Bytes} {p q : Place} (h : skipWord word p = .ok q) : p.After q := by
  induction word generalizing p with
  | nil =>
    cases h
    exact After.refl _
  | cons w ws ih =>
    unfold skipWord at h
    split at h
    · next hb => exact (past_next hb).after.trans (ih h)
    · cases h

theorem past_skipWord {w : UInt8} {ws : Bytes} {p q : Place} (h : skipWord (w :: ws) p = .ok q) :
    p.Past q := by
  unfold skipWord at h
  split at h
  · next hb => exact (past_next hb).trans_after (after_skipWord h)
  · cases h

theorem after_stringTail {offset : Nat} {rest : Bytes} {q : Place}
    (h : stringTail offset rest = .ok q) : After ⟨offset, rest⟩ q := by
  fun_induction stringTail offset rest with
  | case1 => cases h
  | case2 =>
    cases h
    exact (After.refl _).cons.after
  | case3 => cases h
  | case4 offset c r _ ih => exact (ih h).cons.after.cons.after
  | case5 offset b r _ _ ih => exact (ih h).cons.after

theorem past_matchBrackets {closers : Bytes} {mode : Quoting} {offset : Nat} {rest : Bytes}
    {q : Place} (h : matchBrackets closers mode offset rest = .ok q) :
    Past ⟨offset, rest⟩ q := by
  fun_induction matchBrackets closers mode offset rest
  case case1 | case8 | case11 => cases h
  case case9 =>
    cases h
    exact (After.refl _).cons
  case case2 ih | case3 ih | case4 ih | case5 ih | case6 ih | case7 ih | case10 ih | case12 ih |
      case13 ih =>
    exact (ih h).after.cons

theorem wordOf_ne_nil (b : Option UInt8) : ∃ w ws, wordOf b = w :: ws := by
  unfold wordOf
  split
  · exact ⟨_, _, rfl⟩
  · split <;> exact ⟨_, _, rfl⟩

theorem past_skipValue {p q : Place} (h : p.skipValue = .ok q) : p.Past q := by
  unfold skipValue at h
  split at h
  · cases h
  · exact past_matchBrackets h
  · exact past_matchBrackets h
  · next hk =>
    unfold kind? at hk
    cases hb : p.byte? with
    | none => simp [hb] at hk
    | some b => exact (past_next hb).trans_after (after_stringTail h)
  · exact past_skipNumber h
  · obtain ⟨w, ws, e⟩ := wordOf_ne_nil p.byte?
    rw [e] at h
    exact past_skipWord h
  · obtain ⟨w, ws, e⟩ := wordOf_ne_nil p.byte?
    rw [e] at h
    exact past_skipWord h

theorem past_readValue {p q : Place} {s : Span} (h : p.readValue = .ok (s, q)) :
    p.Past q ∧ s = ⟨p.offset, q.offset⟩ := by
  unfold readValue at h
  split at h
  · next r hr =>
    cases h
    exact ⟨past_skipValue hr, rfl⟩
  · cases h

end JsonSpan.Place

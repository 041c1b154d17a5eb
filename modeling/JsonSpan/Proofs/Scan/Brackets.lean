import JsonSpan.Scan.Children

/-!
# Bracket matching beside the other scanners

A container is skipped by matching brackets, and later read child by child. Both scans go over the
same bytes, so the second can be followed by the first: wherever the reading of children stands, the
matching of brackets stands outside of strings with one closer owed. A value in between brings the
matching from the start of the value to its end (`matchBrackets_skipValue`), and the plain bytes
between values do not change its depth (`matchBrackets_plainly`). That is why a child cannot reach
the closer of its container.
-/

namespace JsonSpan.Place

/-- A byte that means nothing to the matching of brackets outside of strings. -/
def IsPlain (b : UInt8) : Prop :=
  b ≠ Byte.openBrace ∧ b ≠ Byte.openBracket ∧ b ≠ Byte.closeBrace ∧ b ≠ Byte.closeBracket ∧
    b ≠ Byte.quote

instance (b : UInt8) : Decidable (IsPlain b) := by
  unfold IsPlain
  infer_instance

/-- Only plain bytes lie between `p` and `q`. -/
def Plainly (p q : Place) : Prop :=
  ∃ taken : Bytes, (∀ b ∈ taken, IsPlain b) ∧ p.rest = taken ++ q.rest ∧
    q.offset = p.offset + taken.length

theorem Plainly.refl (p : Place) : p.Plainly p :=
  ⟨[], by simp, by simp, by simp⟩

theorem Plainly.trans {p q r : Place} (h₁ : p.Plainly q) (h₂ : q.Plainly r) : p.Plainly r := by
  obtain ⟨t₁, f₁, e₁, o₁⟩ := h₁
  obtain ⟨t₂, f₂, e₂, o₂⟩ := h₂
  refine ⟨t₁ ++ t₂, fun b hb => ?_, by simp [e₁, e₂], by simp [o₁, o₂, Nat.add_assoc]⟩
  rcases List.mem_append.1 hb with hb | hb
  · exact f₁ b hb
  · exact f₂ b hb

theorem plainly_next {p : Place} {b : UInt8} (h : p.byte? = some b) (hb : IsPlain b) :
    p.Plainly p.next := by
  cases p with
  | mk offset rest =>
    cases rest with
    | nil => simp [byte?] at h
    | cons c r =>
      simp only [byte?, List.head?_cons, Option.some.injEq] at h
      subst h
      exact ⟨[c], by simpa using hb, by simp [next], by simp [next]⟩

theorem skipWhile_append {accept : UInt8 → Bool} {bs : Bytes} (h : ∀ b ∈ bs, accept b) (r : Bytes)
    (offset : Nat) : skipWhile accept offset (bs ++ r) = skipWhile accept (offset + bs.length) r := by
  induction bs generalizing offset with
  | nil => rfl
  | cons b bs ih =>
    rw [List.cons_append, skipWhile, if_pos (h b (by simp)), ih fun c hc => h c (by simp [hc]),
      List.length_cons, Nat.add_right_comm, Nat.add_assoc]

theorem plainly_skipWhile {accept : UInt8 → Bool} (ha : ∀ b, accept b = true → IsPlain b)
    (offset : Nat) (rest : Bytes) : Plainly ⟨offset, rest⟩ (skipWhile accept offset rest) := by
  induction rest generalizing offset with
  | nil => exact Plainly.refl _
  | cons b r ih =>
    unfold skipWhile
    split
    · next hb =>
      exact (plainly_next (p := ⟨offset, b :: r⟩) rfl (ha b hb)).trans (ih (offset + 1))
    · exact Plainly.refl _

theorem isPlain_of_isBlank {b : UInt8} (h : Byte.isBlank b = true) : IsPlain b := by
  simp only [Byte.isBlank, Bool.or_eq_true, beq_iff_eq] at h
  rcases h with ((rfl | rfl) | rfl) | rfl <;> decide

theorem isPlain_of_isDigit {b : UInt8} (h : Byte.isDigit b = true) : IsPlain b := by
  simp only [Byte.isDigit, Bool.and_eq_true, decide_eq_true_eq] at h
  refine ⟨?_, ?_, ?_, ?_, ?_⟩ <;> rintro rfl <;> exact absurd h (by decide)

theorem plainly_skipBlanks (p : Place) : p.Plainly p.skipBlanks :=
  plainly_skipWhile (fun _ => isPlain_of_isBlank) _ _

theorem plainly_expect {p q : Place} {b : UInt8} (h : p.expect b = .ok q) (hb : IsPlain b) :
    p.Plainly q := by
  unfold expect at h
  split at h
  · next hp =>
    cases h
    exact plainly_next hp hb
  · cases h

theorem plainly_skipIf {accept : UInt8 → Bool} (ha : ∀ b, accept b = true → IsPlain b) (p : Place) :
    p.Plainly (p.skipIf accept) := by
  unfold skipIf
  split
  · next b hb =>
    split
    · next h => exact plainly_next hb (ha b h)
    · exact Plainly.refl _
  · exact Plainly.refl _

theorem plainly_someDigits {p q : Place} (h : p.someDigits = .ok q) : p.Plainly q := by
  unfold someDigits at h
  split at h
  · split at h
    · cases h
      exact plainly_skipWhile (fun _ => isPlain_of_isDigit) _ _
    · cases h
  · cases h

theorem plainly_skipFraction {p q : Place} (h : p.skipFraction = .ok q) : p.Plainly q := by
  unfold skipFraction at h
  split at h
  · next hb => exact (plainly_next hb (by decide)).trans (plainly_someDigits h)
  · cases h
    exact Plainly.refl _

theorem plainly_skipExponent {p q : Place} (h : p.skipExponent = .ok q) : p.Plainly q := by
  have hsign : ∀ b : UInt8, (b == Byte.plus || b == Byte.minus) = true → IsPlain b := by
    intro b hb
    simp only [Bool.or_eq_true, beq_iff_eq] at hb
    rcases hb with rfl | rfl <;> decide
  unfold skipExponent at h
  split at h
  · next hb =>
    have hn : p.Plainly p.next := by
      rcases hb with hb | hb <;> exact plainly_next hb (by decide)
    exact hn.trans ((plainly_skipIf hsign _).trans (plainly_someDigits h))
  · cases h
    exact Plainly.refl _

theorem plainly_skipNumber {p q : Place} (h : p.skipNumber = .ok q) : p.Plainly q := by
  have hsign : ∀ b : UInt8, (b == Byte.minus) = true → IsPlain b := by
    intro b hb
    rw [beq_iff_eq] at hb
    subst hb
    decide
  simp only [skipNumber, bind, Except.bind] at h
  split at h
  · cases h
  · next whole hw =>
    split at h
    · cases h
    · next fraction hf =>
      exact (plainly_skipIf hsign p).trans ((plainly_someDigits hw).trans
        ((plainly_skipFraction hf).trans (plainly_skipExponent h)))

theorem plainly_skipWord {word : Bytes} (hw : ∀ b ∈ word, IsPlain b) {p q : Place}
    (h : skipWord word p = .ok q) : p.Plainly q := by
  induction word generalizing p with
  | nil =>
    cases h
    exact Plainly.refl _
  | cons w ws ih =>
    unfold skipWord at h
    split at h
    · next hb =>
      exact (plainly_next hb (hw w (by simp))).trans (ih (fun b hb => hw b (by simp [hb])) h)
    · cases h

theorem isPlain_of_mem_wordOf {byte : Option UInt8} : ∀ b ∈ wordOf byte, IsPlain b := by
  unfold wordOf
  split
  · decide
  · split <;> decide

/-! ### The first byte of a value -/

/-- The byte that every value of a kind starts with, where there is only one. -/
def opener? : Kind → Option UInt8
  | .object => some Byte.openBrace
  | .array => some Byte.openBracket
  | .string => some Byte.quote
  | _ => none

theorem rest_of_kind? {p : Place} {k : Kind} {b : UInt8} (hk : p.kind? = some k)
    (hb : opener? k = some b) : ∃ r, p.rest = b :: r := by
  obtain ⟨offset, rest⟩ := p
  cases rest with
  | nil => cases hk
  | cons c r =>
    have hc : Kind.ofByte? c = some k := hk
    refine ⟨r, ?_⟩
    cases k <;> cases hb <;> grind [Kind.ofByte?]

/-! ### One step of the matching for each class of bytes -/

section

variable (closers : Bytes) (offset : Nat) (r : Bytes)

@[simp] theorem matchBrackets_openBrace :
    matchBrackets closers .outside offset (Byte.openBrace :: r) =
      matchBrackets (Byte.closeBrace :: closers) .outside (offset + 1) r := rfl

@[simp] theorem matchBrackets_openBracket :
    matchBrackets closers .outside offset (Byte.openBracket :: r) =
      matchBrackets (Byte.closeBracket :: closers) .outside (offset + 1) r := rfl

@[simp] theorem matchBrackets_quote :
    matchBrackets closers .outside offset (Byte.quote :: r) =
      matchBrackets closers .inside (offset + 1) r := rfl

@[simp] theorem matchBrackets_inside_quote :
    matchBrackets closers .inside offset (Byte.quote :: r) =
      matchBrackets closers .outside (offset + 1) r := rfl

@[simp] theorem matchBrackets_inside_backslash (b : UInt8) :
    matchBrackets closers .inside offset (Byte.backslash :: b :: r) =
      matchBrackets closers .inside (offset + 1 + 1) r := rfl

theorem matchBrackets_inside_other {b : UInt8} (hq : b ≠ Byte.quote) (hb : b ≠ Byte.backslash) :
    matchBrackets closers .inside offset (b :: r) = matchBrackets closers .inside (offset + 1) r := by
  rw [matchBrackets, if_neg hq, if_neg hb]

theorem matchBrackets_plain {b : UInt8} (h : IsPlain b) :
    matchBrackets closers .outside offset (b :: r) =
      matchBrackets closers .outside (offset + 1) r := by
  obtain ⟨h₁, h₂, h₃, h₄, h₅⟩ := h
  rw [matchBrackets.eq_def]
  simp [h₁, h₂, h₃, h₄, h₅]

theorem matchBrackets_closer {b : UInt8} (h : b = Byte.closeBrace ∨ b = Byte.closeBracket)
    {owed : Bytes} (ho : owed ≠ []) :
    matchBrackets (b :: owed) .outside offset (b :: r) =
      matchBrackets owed .outside (offset + 1) r := by
  obtain ⟨c, more, rfl⟩ := List.exists_cons_of_ne_nil ho
  rcases h with rfl | rfl <;> rfl

theorem matchBrackets_lastCloser {b : UInt8} (h : b = Byte.closeBrace ∨ b = Byte.closeBracket) :
    matchBrackets [b] .outside offset (b :: r) = .ok ⟨offset + 1, r⟩ := by
  rcases h with rfl | rfl <;> rfl

theorem matchBrackets_wrongCloser {b : UInt8} (h : b = Byte.closeBrace ∨ b = Byte.closeBracket)
    (hc : closers.head? ≠ some b) :
    matchBrackets closers .outside offset (b :: r) = .error ⟨offset, b :: r⟩ := by
  cases closers with
  | nil => rcases h with rfl | rfl <;> rfl
  | cons c owed =>
    have hne : c ≠ b := by simpa using hc
    rcases h with rfl | rfl <;> exact if_neg hne

end

/-! ### Following one scan with the other -/

theorem matchBrackets_plainly {owed : Bytes} {p q : Place} (h : p.Plainly q) :
    matchBrackets owed .outside p.offset p.rest = matchBrackets owed .outside q.offset q.rest := by
  obtain ⟨taken, hp, hr, ho⟩ := h
  rw [hr, ho]
  generalize p.offset = offset
  clear hr ho
  induction taken generalizing offset with
  | nil => simp
  | cons b bs ih =>
    rw [List.cons_append, matchBrackets_plain _ _ _ (hp b (by simp)),
      ih (fun b hb => hp b (by simp [hb])) (offset + 1)]
    congr 1
    simp only [List.length_cons]
    omega

/-- Inside of a string, the matching goes on as the string is read and takes up again behind it. -/
theorem matchBrackets_inside (owed : Bytes) (offset : Nat) (rest : Bytes) :
    matchBrackets owed .inside offset rest =
      stringTail offset rest >>= fun q => matchBrackets owed .outside q.offset q.rest := by
  fun_induction stringTail offset rest with
  | case1 => rfl
  | case2 => rfl
  | case3 => rfl
  | case4 offset b r _ ih => exact ih
  | case5 offset b r hq hb ih => rw [matchBrackets_inside_other _ _ _ hq hb, ih]

theorem matchBrackets_stringTail {owed : Bytes} {offset : Nat} {rest : Bytes} {q : Place}
    (h : stringTail offset rest = .ok q) :
    matchBrackets owed .inside offset rest = matchBrackets owed .outside q.offset q.rest := by
  rw [matchBrackets_inside, h]
  rfl

/-- Matching with more closers owed goes on where the matching without them ended. -/
theorem matchBrackets_append {closers owed : Bytes} {mode : Quoting} {offset : Nat} {rest : Bytes}
    {q : Place} (h : matchBrackets closers mode offset rest = .ok q) (ho : owed ≠ []) :
    matchBrackets (closers ++ owed) mode offset rest =
      matchBrackets owed .outside q.offset q.rest := by
  fun_induction matchBrackets closers mode offset rest
  case case1 | case8 | case11 => cases h
  case case2 ih | case3 ih | case4 ih | case6 ih | case7 ih | case12 ih => exact ih h
  case case5 hq hb ih => rw [matchBrackets_inside_other _ _ _ hq hb, ih h]
  case case9 offset r b closers he h₁ h₂ hb =>
    cases h
    rw [List.isEmpty_iff.1 he, List.cons_append, List.nil_append, matchBrackets_closer _ _ hb ho]
  case case10 offset r b closers he h₁ h₂ hb ih =>
    rw [List.cons_append, matchBrackets_closer _ _ hb (by simp [ho]), ih h]
  case case13 h₁ h₂ h₃ h₄ ih =>
    rw [matchBrackets_plain _ _ _ ⟨h₁, h₂, fun e => h₃ (.inl e), fun e => h₃ (.inr e), h₄⟩, ih h]

/-- A value brings the matching around it from its start to its end. -/
theorem matchBrackets_skipValue {owed : Bytes} (ho : owed ≠ []) {p q : Place}
    (h : p.skipValue = .ok q) :
    matchBrackets owed .outside p.offset p.rest = matchBrackets owed .outside q.offset q.rest := by
  unfold skipValue at h
  split at h
  · cases h
  · exact matchBrackets_append h ho
  · exact matchBrackets_append h ho
  · next hk =>
    obtain ⟨r, hr⟩ := rest_of_kind? hk rfl
    rw [skipString, hr] at h
    rw [hr, matchBrackets_quote]
    exact matchBrackets_stringTail h
  · exact matchBrackets_plainly (plainly_skipNumber h)
  · exact matchBrackets_plainly (plainly_skipWord isPlain_of_mem_wordOf h)
  · exact matchBrackets_plainly (plainly_skipWord isPlain_of_mem_wordOf h)

theorem matchBrackets_readValue {owed : Bytes} (ho : owed ≠ []) {p q : Place} {s : Span}
    (h : p.readValue = .ok (s, q)) :
    matchBrackets owed .outside p.offset p.rest = matchBrackets owed .outside q.offset q.rest := by
  unfold readValue at h
  split at h
  · next hs =>
    cases h
    exact matchBrackets_skipValue ho hs
  · cases h

end JsonSpan.Place

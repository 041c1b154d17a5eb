import JsonSpan.Proofs.Scan.Framing
import JsonSpan.Proofs.Tree.Layout

/-!
# Scalars as the scanners take them

The scanners are more lenient than JSON: a string may hold any bytes, with a backslash before any of
them, and a number may start with zeros. What they take as a string, a number or a word is exactly
what the rules below derive (`exists_isScalar`, `IsScalar.skipValue`), as long as nothing goes on with
a number.
-/

namespace JsonSpan

/-! ### Runs of bytes -/

theorem Place.skipWhile_exact {accept : UInt8 → Bool} {bs r : Bytes} (h : ∀ b ∈ bs, accept b)
    (hr : ∀ b ∈ r.head?, accept b = false) (offset : Nat) :
    skipWhile accept offset (bs ++ r) = ⟨offset + bs.length, r⟩ := by
  rw [skipWhile_append h]
  cases r with
  | nil => rfl
  | cons b r =>
    have hb : accept b = false := hr b rfl
    rw [skipWhile, hb]
    rfl

theorem Place.skipIf_eq_self {accept : UInt8 → Bool} {p : Place}
    (h : ∀ b ∈ p.byte?, accept b = false) : p.skipIf accept = p := by
  rw [skipIf]
  split
  · next b hb =>
    rw [h b hb]
    rfl
  · rfl

theorem Place.skipWord_append (word : Bytes) (offset : Nat) (r : Bytes) :
    skipWord word ⟨offset, word ++ r⟩ = .ok ⟨offset + word.length, r⟩ := by
  induction word generalizing offset with
  | nil => rfl
  | cons w ws ih =>
    show (if some w = some w then skipWord ws ⟨offset + 1, ws ++ r⟩ else _) = _
    rw [if_pos rfl, ih, List.length_cons]
    congr 2
    omega

theorem Kind.ofByte?_number {b : UInt8} (h : b = Byte.minus ∨ Byte.isDigit b = true) :
    Kind.ofByte? b = some .number := by
  have hne : b ≠ Byte.openBrace ∧ b ≠ Byte.openBracket ∧ b ≠ Byte.quote := by
    refine ⟨?_, ?_, ?_⟩ <;> rintro rfl <;> exact absurd h (by decide)
  rw [Kind.ofByte?, if_neg hne.1, if_neg hne.2.1, if_neg hne.2.2, if_pos h]

/-- Nothing after a number goes on with it. -/
def Numeral.Ends (r : Bytes) : Prop :=
  ∀ b ∈ r.head?, Byte.extendsNumber b = false

theorem Numeral.Ends.ne {r : Bytes} (h : Ends r) {b : UInt8} (hb : b ∈ r.head?) :
    Byte.isDigit b = false ∧ b ≠ Byte.point ∧ b ≠ Byte.ofChar 'e' ∧ b ≠ Byte.ofChar 'E' := by
  have := h b hb
  simp only [Byte.extendsNumber, Bool.or_eq_false_iff, beq_eq_false_iff_ne] at this
  exact ⟨this.1.1.1, this.1.1.2, this.1.2, this.2⟩

/-! ### The bytes between places -/

/-- The bytes between two places. -/
def Place.Covers (p : Place) (t : Bytes) (q : Place) : Prop :=
  p.rest = t ++ q.rest ∧ q.offset = p.offset + t.length

namespace Place.Covers

variable {p q r : Place} {t u : Bytes}

theorem refl (p : Place) : p.Covers [] p :=
  ⟨rfl, rfl⟩

theorem trans (h : p.Covers t q) (h' : q.Covers u r) : p.Covers (t ++ u) r := by
  refine ⟨by rw [h.1, h'.1, List.append_assoc], ?_⟩
  rw [h'.2, h.2, List.length_append, Nat.add_assoc]

theorem unique (h : p.Covers t q) (h' : p.Covers u q) : t = u :=
  List.append_cancel_right (h.1.symm.trans h'.1)

theorem next {b : UInt8} (h : p.byte? = some b) : p.Covers [b] p.next := by
  obtain ⟨offset, rest⟩ := p
  cases rest with
  | nil => cases h
  | cons c r =>
    cases h
    exact ⟨rfl, rfl⟩

theorem after (h : p.Covers t q) : p.After q :=
  ⟨t, h⟩

end Place.Covers

namespace Dialect

open Place

/-! ### Strings -/

/-- What may stand between the quotes of a string: a backslash and any byte, or any other byte that is
not the quote. -/
inductive IsBody : Bytes → Prop where
  | nil : IsBody []
  | escaped (b : UInt8) {t : Bytes} (h : IsBody t) : IsBody (Byte.backslash :: b :: t)
  | plain {b : UInt8} {t : Bytes} (hq : b ≠ Byte.quote) (hb : b ≠ Byte.backslash) (h : IsBody t) :
    IsBody (b :: t)

/-- A string with its quotes. -/
inductive IsString : Bytes → Prop where
  | mk {t : Bytes} (h : IsBody t) : IsString (Byte.quote :: t ++ [Byte.quote])

theorem IsBody.append {t u : Bytes} (h : IsBody t) (h' : IsBody u) : IsBody (t ++ u) := by
  induction h with
  | nil => exact h'
  | escaped b _ ih => exact .escaped b ih
  | plain hq hb _ ih => exact .plain hq hb ih

theorem IsBody.stringTail {t : Bytes} (h : IsBody t) (offset : Nat) (r : Bytes) :
    Place.stringTail offset (t ++ Byte.quote :: r) = .ok ⟨offset + t.length + 1, r⟩ := by
  induction h generalizing offset with
  | nil =>
    rw [List.nil_append, Place.stringTail.eq_def]
    exact if_pos rfl
  | escaped b _ ih =>
    rw [List.cons_append, List.cons_append, Place.stringTail.eq_def]
    refine (ih (offset + 2)).trans ?_
    simp only [List.length_cons]
    congr 2
    omega
  | plain hq hb _ ih =>
    rw [List.cons_append, Place.stringTail.eq_def]
    refine ((if_neg hq).trans (if_neg hb)).trans ((ih (offset + 1)).trans ?_)
    rw [List.length_cons]
    congr 2
    omega

theorem exists_isBody {offset : Nat} {rest : Bytes} {q : Place}
    (h : Place.stringTail offset rest = .ok q) :
    ∃ t, IsBody t ∧ Covers ⟨offset, rest⟩ (t ++ [Byte.quote]) q := by
  fun_induction Place.stringTail offset rest with
  | case1 => cases h
  | case2 offset r =>
    cases h
    exact ⟨[], .nil, rfl, rfl⟩
  | case3 => cases h
  | case4 offset b r _ ih =>
    obtain ⟨t, ht, hcovers⟩ := ih h
    have htwo : Covers ⟨offset, Byte.backslash :: b :: r⟩ [Byte.backslash, b] ⟨offset + 2, r⟩ :=
      ⟨rfl, rfl⟩
    exact ⟨_, .escaped b ht, htwo.trans hcovers⟩
  | case5 offset b r hq hb ih =>
    obtain ⟨t, ht, hcovers⟩ := ih h
    have hone : Covers ⟨offset, b :: r⟩ [b] ⟨offset + 1, r⟩ := ⟨rfl, rfl⟩
    exact ⟨_, .plain hq hb ht, hone.trans hcovers⟩

/-! ### Numbers -/

/-- One digit or more. -/
def IsDigits (t : Bytes) : Prop :=
  t ≠ [] ∧ ∀ b ∈ t, Byte.isDigit b

/-- A point and digits, or nothing. -/
inductive IsFraction : Bytes → Prop where
  | absent : IsFraction []
  | present {t : Bytes} (h : IsDigits t) : IsFraction (Byte.point :: t)

/-- The letter of an exponent, a sign or none, and digits, or nothing. -/
inductive IsExponent : Bytes → Prop where
  | absent : IsExponent []
  | present {mark : UInt8} {sign t : Bytes} (hm : mark = Byte.ofChar 'e' ∨ mark = Byte.ofChar 'E')
    (hs : sign ∈ [[], [Byte.plus], [Byte.minus]]) (h : IsDigits t) : IsExponent (mark :: sign ++ t)

/-- A minus sign or none, digits, a fraction and an exponent. -/
inductive IsNumber : Bytes → Prop where
  | mk {sign whole fraction exponent : Bytes} (hs : sign ∈ [[], [Byte.minus]]) (hw : IsDigits whole)
    (hf : IsFraction fraction) (he : IsExponent exponent) :
    IsNumber (sign ++ whole ++ fraction ++ exponent)

theorem IsDigits.someDigits {t r : Bytes} (h : IsDigits t)
    (hr : ∀ b ∈ r.head?, Byte.isDigit b = false) (offset : Nat) :
    Place.someDigits ⟨offset, t ++ r⟩ = .ok ⟨offset + t.length, r⟩ := by
  obtain ⟨b, more, rfl⟩ := List.exists_cons_of_ne_nil h.1
  have hbyte : (⟨offset, b :: more ++ r⟩ : Place).byte? = some b := rfl
  rw [Place.someDigits, hbyte]
  dsimp only
  rw [if_pos (h.2 b (by simp))]
  exact congrArg Except.ok (skipWhile_exact h.2 hr offset)

theorem IsDigits.skipSign {accept : UInt8 → Bool} (ha : ∀ b, Byte.isDigit b = true → accept b = false)
    {sign t : Bytes} (hs : sign = [] ∨ ∃ b, sign = [b] ∧ accept b) (h : IsDigits t) (r : Bytes)
    (offset : Nat) :
    (Place.mk offset (sign ++ (t ++ r))).skipIf accept = ⟨offset + sign.length, t ++ r⟩ := by
  rcases hs with rfl | ⟨b, rfl, hb⟩
  · refine skipIf_eq_self fun b hb => ha b ?_
    obtain ⟨c, more, rfl⟩ := List.exists_cons_of_ne_nil h.1
    exact Option.some.inj hb ▸ h.2 c (by simp)
  · show (if accept b then _ else _) = _
    rw [if_pos hb]
    rfl

theorem IsExponent.skipExponent {t r : Bytes} (h : IsExponent t) (hr : Numeral.Ends r) (offset : Nat) :
    Place.skipExponent ⟨offset, t ++ r⟩ = .ok ⟨offset + t.length, r⟩ := by
  cases h with
  | absent =>
    refine if_neg ?_
    rintro (h | h)
    · exact (hr.ne h).2.2.1 rfl
    · exact (hr.ne h).2.2.2 rfl
  | @present mark sign t hm hs ht =>
    have hsign : sign = [] ∨ ∃ b, sign = [b] ∧ (b == Byte.plus || b == Byte.minus) = true := by
      simp only [List.mem_cons, List.not_mem_nil, or_false] at hs
      rcases hs with rfl | rfl | rfl
      · exact .inl rfl
      · exact .inr ⟨_, rfl, rfl⟩
      · exact .inr ⟨_, rfl, rfl⟩
    have hclass : ∀ b, Byte.isDigit b = true → (b == Byte.plus || b == Byte.minus) = false := by
      intro b hb
      rw [Bool.or_eq_false_iff, beq_eq_false_iff_ne, beq_eq_false_iff_ne]
      constructor <;> rintro rfl <;> exact absurd hb (by decide)
    have hmark : (Place.mk offset (mark :: sign ++ t ++ r)).byte? = some (Byte.ofChar 'e') ∨
        (Place.mk offset (mark :: sign ++ t ++ r)).byte? = some (Byte.ofChar 'E') := by
      rcases hm with rfl | rfl
      · exact .inl rfl
      · exact .inr rfl
    have hnext : (Place.mk offset (mark :: sign ++ t ++ r)).next = ⟨offset + 1, sign ++ (t ++ r)⟩ := by
      rw [← List.append_assoc]
      rfl
    rw [Place.skipExponent, if_pos hmark, hnext, IsDigits.skipSign hclass hsign ht,
      ht.someDigits fun b hb => (hr.ne hb).1]
    simp only [List.length_append, List.length_cons]
    congr 2
    omega

theorem IsFraction.skipFraction {t r : Bytes} (h : IsFraction t)
    (hr : ∀ b ∈ r.head?, Byte.isDigit b = false ∧ b ≠ Byte.point) (offset : Nat) :
    Place.skipFraction ⟨offset, t ++ r⟩ = .ok ⟨offset + t.length, r⟩ := by
  cases h with
  | absent => exact if_neg fun h => (hr _ h).2 rfl
  | @present t ht =>
    refine (if_pos rfl).trans ((ht.someDigits (fun b hb => (hr b hb).1) (offset + 1)).trans ?_)
    rw [List.length_cons, Nat.add_right_comm, Nat.add_assoc]

theorem IsExponent.head {t r : Bytes} (h : IsExponent t) (hr : Numeral.Ends r) :
    ∀ b ∈ (t ++ r).head?, Byte.isDigit b = false ∧ b ≠ Byte.point := by
  cases h with
  | absent => exact fun b hb => ⟨(hr.ne hb).1, (hr.ne hb).2.1⟩
  | present hm _ _ =>
    intro b hb
    cases hb
    rcases hm with rfl | rfl <;> decide

theorem IsFraction.head {t r : Bytes} (h : IsFraction t)
    (hr : ∀ b ∈ r.head?, Byte.isDigit b = false ∧ b ≠ Byte.point) :
    ∀ b ∈ (t ++ r).head?, Byte.isDigit b = false := by
  cases h with
  | absent => exact fun b hb => (hr b hb).1
  | present _ =>
    intro b hb
    cases hb
    decide

theorem IsNumber.skipNumber {t r : Bytes} (h : IsNumber t) (hr : Numeral.Ends r) (offset : Nat) :
    Place.skipNumber ⟨offset, t ++ r⟩ = .ok ⟨offset + t.length, r⟩ := by
  obtain @⟨sign, whole, fraction, exponent, hs, hw, hf, he⟩ := h
  have hsign : sign = [] ∨ ∃ b, sign = [b] ∧ (b == Byte.minus) = true := by
    simp only [List.mem_cons, List.not_mem_nil, or_false] at hs
    rcases hs with rfl | rfl
    · exact .inl rfl
    · exact .inr ⟨_, rfl, rfl⟩
  have hclass : ∀ b, Byte.isDigit b = true → (b == Byte.minus) = false := by
    intro b hb
    rw [beq_eq_false_iff_ne]
    rintro rfl
    exact absurd hb (by decide)
  have hskip := IsDigits.skipSign hclass hsign hw (fraction ++ (exponent ++ r)) offset
  have hwhole := hw.someDigits (hf.head (he.head hr)) (offset + sign.length)
  have hfraction := hf.skipFraction (he.head hr) (offset + sign.length + whole.length)
  have hexponent := he.skipExponent hr (offset + sign.length + whole.length + fraction.length)
  simp only [List.append_assoc]
  rw [Place.skipNumber, hskip, hwhole]
  show (Place.skipFraction _ >>= Place.skipExponent) = _
  rw [hfraction]
  refine hexponent.trans ?_
  simp only [List.length_append, Nat.add_assoc]

theorem exists_skipWhile (accept : UInt8 → Bool) (offset : Nat) (rest : Bytes) :
    ∃ t, (∀ b ∈ t, accept b) ∧ Covers ⟨offset, rest⟩ t (skipWhile accept offset rest) := by
  induction rest generalizing offset with
  | nil => exact ⟨[], by simp, .refl _⟩
  | cons b r ih =>
    rw [skipWhile]
    split
    · next hb =>
      obtain ⟨t, ht, hcovers⟩ := ih (offset + 1)
      have hone : Covers ⟨offset, b :: r⟩ [b] ⟨offset + 1, r⟩ := ⟨rfl, rfl⟩
      exact ⟨b :: t, List.forall_mem_cons.2 ⟨hb, ht⟩, hone.trans hcovers⟩
    · exact ⟨[], by simp, .refl _⟩

theorem exists_isDigits {p q : Place} (h : p.someDigits = .ok q) : ∃ t, IsDigits t ∧ p.Covers t q := by
  obtain ⟨t, ht, hcovers⟩ := exists_skipWhile Byte.isDigit p.offset p.rest
  obtain ⟨u, hne, hcovers'⟩ := past_someDigits h
  rw [someDigits] at h
  split at h
  · split at h
    · cases h
      exact ⟨t, ⟨hcovers.unique hcovers' ▸ hne, ht⟩, hcovers⟩
    · cases h
  · cases h

theorem exists_skipIf (accept : UInt8 → Bool) (p : Place) :
    ∃ t, (t = [] ∨ ∃ b, t = [b] ∧ accept b) ∧ p.Covers t (p.skipIf accept) := by
  rw [skipIf]
  split
  · next b hb =>
    split
    · next ha => exact ⟨[b], .inr ⟨b, rfl, ha⟩, .next hb⟩
    · exact ⟨[], .inl rfl, .refl p⟩
  · exact ⟨[], .inl rfl, .refl p⟩

theorem exists_isFraction {p q : Place} (h : p.skipFraction = .ok q) :
    ∃ t, IsFraction t ∧ p.Covers t q := by
  rw [Place.skipFraction] at h
  split at h
  · next hb =>
    obtain ⟨t, ht, hcovers⟩ := exists_isDigits h
    exact ⟨_, .present ht, (Covers.next hb).trans hcovers⟩
  · cases h
    exact ⟨[], .absent, .refl _⟩

theorem exists_isExponent {p q : Place} (h : p.skipExponent = .ok q) :
    ∃ t, IsExponent t ∧ p.Covers t q := by
  rw [Place.skipExponent] at h
  split at h
  · next hb =>
    obtain ⟨sign, hsign, hcovers⟩ := exists_skipIf (fun b => b == Byte.plus || b == Byte.minus) p.next
    obtain ⟨t, ht, hcovers'⟩ := exists_isDigits h
    have hs : sign ∈ [[], [Byte.plus], [Byte.minus]] := by
      rcases hsign with rfl | ⟨b, rfl, hb⟩
      · simp
      · rw [Bool.or_eq_true, beq_iff_eq, beq_iff_eq] at hb
        rcases hb with rfl | rfl <;> simp
    rcases hb with hb | hb
    · exact ⟨_, .present (.inl rfl) hs ht, ((Covers.next hb).trans hcovers).trans hcovers'⟩
    · exact ⟨_, .present (.inr rfl) hs ht, ((Covers.next hb).trans hcovers).trans hcovers'⟩
  · cases h
    exact ⟨[], .absent, .refl _⟩

theorem exists_isNumber {p q : Place} (h : p.skipNumber = .ok q) : ∃ t, IsNumber t ∧ p.Covers t q := by
  rw [Place.skipNumber] at h
  obtain ⟨p₁, hwhole, h⟩ := bind_eq_ok.1 h
  obtain ⟨p₂, hfraction, hexponent⟩ := bind_eq_ok.1 h
  obtain ⟨sign, hsign, hcovers⟩ := exists_skipIf (· == Byte.minus) p
  obtain ⟨whole, hw, hcovers₁⟩ := exists_isDigits hwhole
  obtain ⟨fraction, hf, hcovers₂⟩ := exists_isFraction hfraction
  obtain ⟨exponent, he, hcovers₃⟩ := exists_isExponent hexponent
  have hs : sign ∈ [[], [Byte.minus]] := by
    rcases hsign with rfl | ⟨b, rfl, hb⟩
    · simp
    · rw [beq_iff_eq.1 hb]
      simp
  exact ⟨_, .mk hs hw hf he, ((hcovers.trans hcovers₁).trans hcovers₂).trans hcovers₃⟩

/-! ### Scalars -/

/-- A string, a number, or one of the three words. -/
inductive IsScalar : Bytes → Prop where
  | string {t : Bytes} (h : IsString t) : IsScalar t
  | number {t : Bytes} (h : IsNumber t) : IsScalar t
  | word {t : Bytes} (h : t ∈ [utf8 "true", utf8 "false", utf8 "null"]) : IsScalar t

theorem skipWord_covers {word : Bytes} {p q : Place} (h : skipWord word p = .ok q) :
    p.Covers word q := by
  induction word generalizing p with
  | nil =>
    cases h
    exact .refl _
  | cons w ws ih =>
    rw [skipWord] at h
    split at h
    · next hb => exact (Covers.next hb).trans (ih h)
    · cases h

theorem wordOf_mem (b : Option UInt8) : wordOf b ∈ [utf8 "true", utf8 "false", utf8 "null"] := by
  rw [wordOf]
  split
  · simp
  · split <;> simp

theorem exists_isString {p q : Place} (hk : p.kind? = some .string) (h : p.skipValue = .ok q) :
    ∃ t, IsString t ∧ p.Covers t q := by
  rw [skipValue, hk] at h
  obtain ⟨r, hr⟩ := rest_of_kind? hk rfl
  obtain ⟨t, ht, hcovers⟩ := exists_isBody h
  rw [hr] at hcovers
  have hquote : p.Covers [Byte.quote] ⟨p.offset + 1, r⟩ := ⟨hr, rfl⟩
  exact ⟨_, .mk ht, hquote.trans hcovers⟩

theorem exists_isScalar {p q : Place} {k : Kind} (hk : p.kind? = some k) (hc : k.container? = none)
    (h : p.skipValue = .ok q) : ∃ t, IsScalar t ∧ p.Covers t q := by
  cases k with
  | object => cases hc
  | array => cases hc
  | string =>
    obtain ⟨t, ht, hcovers⟩ := exists_isString hk h
    exact ⟨t, .string ht, hcovers⟩
  | number =>
    rw [skipValue, hk] at h
    obtain ⟨t, ht, hcovers⟩ := exists_isNumber h
    exact ⟨t, .number ht, hcovers⟩
  | boolean | null =>
    rw [skipValue, hk] at h
    exact ⟨_, .word (wordOf_mem p.byte?), skipWord_covers h⟩

theorem IsString.skipValue {t : Bytes} (h : IsString t) (offset : Nat) (r : Bytes) :
    Place.skipValue ⟨offset, t ++ r⟩ = .ok ⟨offset + t.length, r⟩ := by
  obtain @⟨t, h⟩ := h
  have hk : (Place.mk offset (Byte.quote :: t ++ [Byte.quote] ++ r)).kind? = some .string := rfl
  rw [Place.skipValue, hk]
  simp only [List.cons_append, List.append_assoc, List.nil_append]
  refine (h.stringTail (offset + 1) r).trans ?_
  simp only [List.length_cons, List.length_append, List.length_nil]
  congr 2
  omega

theorem IsNumber.kind? {t : Bytes} (h : IsNumber t) (offset : Nat) (r : Bytes) :
    (Place.mk offset (t ++ r)).kind? = some .number := by
  obtain ⟨hs, hw, _, _⟩ := h
  obtain ⟨b, more, rfl⟩ := List.exists_cons_of_ne_nil hw.1
  simp only [List.mem_cons, List.not_mem_nil, or_false] at hs
  rcases hs with rfl | rfl
  · exact Kind.ofByte?_number (.inr (hw.2 b (by simp)))
  · exact Kind.ofByte?_number (.inl rfl)

/-- A scalar is skipped as a whole, unless it is a number that goes on behind it. -/
theorem IsScalar.skipValue {t r : Bytes} (h : IsScalar t) (hr : Numeral.Ends r) (offset : Nat) :
    Place.skipValue ⟨offset, t ++ r⟩ = .ok ⟨offset + t.length, r⟩ := by
  cases h with
  | string h => exact h.skipValue offset r
  | number h =>
    rw [Place.skipValue, h.kind?]
    exact h.skipNumber hr offset
  | word h =>
    simp only [List.mem_cons, List.not_mem_nil, or_false] at h
    rcases h with rfl | rfl | rfl
    · exact skipWord_append (utf8 "true") offset r
    · exact skipWord_append (utf8 "false") offset r
    · exact skipWord_append (utf8 "null") offset r

end Dialect

end JsonSpan

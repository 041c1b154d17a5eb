import JsonSpan.Proofs.Scan.Dialect
import JsonSpan.Proofs.Text.Utf8

/-!
# Reading string tokens

A string token is one for the scanners too, whatever its units (`Token.isString`), and the text that
is decoded from its bytes is the text it denotes (`Token.decode_bytes`).
-/

namespace JsonSpan

/-! ### Bytes of units -/

theorem toNat_byteOfChar {c : Char} (h : c.toNat < 256) : (Byte.ofChar c).toNat = c.toNat := by
  show (UInt8.ofNat c.toNat).toNat = c.toNat
  exact Utf8.toNat_ofNat h

theorem charOfNat_byteOfChar {c : Char} (h : c.toNat < 256) :
    Char.ofNat (Byte.ofChar c).toNat = c := by
  rw [toNat_byteOfChar h]
  exact Char.ofNat_toNat c

theorem HexDigit.range (d : HexDigit) :
    '0'.toNat ≤ d.char.toNat ∧ d.char.toNat ≤ '9'.toNat ∨
      'a'.toNat ≤ d.char.toNat ∧ d.char.toNat ≤ 'f'.toNat ∨
      'A'.toNat ≤ d.char.toNat ∧ d.char.toNat ≤ 'F'.toNat := by
  obtain ⟨c, h⟩ := d
  unfold Text.hexValue? at h
  split at h
  · next hr => exact .inl hr
  · split at h
    · next hr => exact .inr (.inl hr)
    · split at h
      · next hr => exact .inr (.inr hr)
      · cases h

theorem HexDigit.toNat_char_lt (d : HexDigit) : d.char.toNat < 0x80 := by
  have h0 : '9'.toNat = 57 := rfl
  have ha : 'f'.toNat = 102 := rfl
  have hA : 'F'.toNat = 70 := rfl
  have := d.range
  omega

/-- A byte of a string that neither ends it nor escapes, and is no control character. -/
def Byte.IsText (b : UInt8) : Prop :=
  0x20 ≤ b.toNat ∧ b ≠ quote ∧ b ≠ backslash

theorem HexDigit.isText (d : HexDigit) : Byte.IsText (Byte.ofChar d.char) := by
  have h0 : '0'.toNat = 48 ∧ '9'.toNat = 57 := ⟨rfl, rfl⟩
  have ha : 'a'.toNat = 97 ∧ 'f'.toNat = 102 := ⟨rfl, rfl⟩
  have hA : 'A'.toNat = 65 ∧ 'F'.toNat = 70 := ⟨rfl, rfl⟩
  have hb := toNat_byteOfChar (Nat.lt_trans d.toNat_char_lt (by decide))
  have hr := d.range
  refine ⟨by omega, ?_, ?_⟩ <;> intro h <;> rw [h] at hb
  · have : Byte.quote.toNat = 34 := rfl
    omega
  · have : Byte.backslash.toNat = 92 := rfl
    omega

theorem isText_of_mem_encodeChar {c : Char} (h : 0x20 ≤ c.toNat ∧ c ≠ '"' ∧ c ≠ '\\') {b : UInt8}
    (hb : b ∈ String.utf8EncodeChar c) : Byte.IsText b := by
  obtain ⟨hlow, hq, hs⟩ := h
  rcases Utf8.le_of_mem_encodeChar hb with hhigh | ⟨_, heq⟩
  · refine ⟨by omega, ?_, ?_⟩ <;> rintro rfl <;> exact absurd hhigh (by decide)
  · refine ⟨by omega, ?_, ?_⟩ <;> rintro rfl
    · exact hq (Char.toNat_inj.1 heq.symm)
    · exact hs (Char.toNat_inj.1 heq.symm)

/-! ### The end of a token -/

theorem isBody_of_isText {bs : Bytes} (h : ∀ b ∈ bs, Byte.IsText b) : Dialect.IsBody bs := by
  induction bs with
  | nil => exact .nil
  | cons b bs ih =>
    obtain ⟨_, hq, hs⟩ := h b (by simp)
    exact .plain hq hs (ih fun b' hb' => h b' (by simp [hb']))

theorem TextUnit.isBody (u : TextUnit) : Dialect.IsBody u.bytes := by
  cases u with
  | plain c h => exact isBody_of_isText fun b hb => isText_of_mem_encodeChar h hb
  | short e => exact .escaped _ .nil
  | code n =>
    have hdigits : ∀ b ∈ [Byte.ofChar n.a.char, Byte.ofChar n.b.char, Byte.ofChar n.c.char,
        Byte.ofChar n.d.char], Byte.IsText b := by
      intro b hb
      simp only [List.mem_cons, List.not_mem_nil, or_false] at hb
      rcases hb with rfl | rfl | rfl | rfl <;> exact HexDigit.isText _
    exact .escaped _ (isBody_of_isText hdigits)

namespace Token

theorem isBody (t : Token) : Dialect.IsBody t.body := by
  induction t with
  | nil => exact .nil
  | cons u t ih => exact u.isBody.append ih

theorem isString (t : Token) : Dialect.IsString t.bytes :=
  .mk t.isBody

end Token

/-! ### The text of a token -/

namespace StringToken

theorem unescape_text {b : UInt8} (h : Byte.IsText b) (r : Bytes) :
    unescape (b :: r) = (unescape r).map (b :: ·) := by
  obtain ⟨hlow, _, hs⟩ := h
  have hlow' : ¬ b < 0x20 := by
    rw [UInt8.lt_iff_toNat_lt]
    show ¬ b.toNat < 32
    omega
  rw [unescape.eq_def]
  dsimp only
  rw [if_neg hlow', if_pos hs]

theorem unescape_text_append {bs : Bytes} (h : ∀ b ∈ bs, Byte.IsText b) (r : Bytes) :
    unescape (bs ++ r) = (unescape r).map (bs ++ ·) := by
  induction bs with
  | nil => simp
  | cons b bs ih =>
    rw [List.cons_append, unescape_text (h b (by simp)), ih fun b' hb' => h b' (by simp [hb'])]
    cases unescape r <;> rfl

theorem unescape_simple {e x : UInt8} (he : e ≠ Byte.ofChar 'u') (hx : simple? e = some x)
    (r : Bytes) : unescape (Byte.backslash :: e :: r) = (unescape r).map (x :: ·) := by
  rw [unescape.eq_def]
  dsimp only
  rw [if_neg (by decide), if_neg (by simp), if_neg he, hx]

theorem unescape_short (e : ShortEscape) (r : Bytes) :
    unescape ((TextUnit.short e).bytes ++ r) =
      (unescape r).map (String.utf8EncodeChar e.char ++ ·) := by
  cases e <;> exact unescape_simple (by decide) rfl r

section

variable {a b c d : UInt8} {n : Nat} (hn : hex4? a b c d = some n)

include hn

theorem unescape_code (h : Surrogate.isHigh n = false) (h' : Surrogate.isLow n = false)
    (r : Bytes) :
    unescape (Byte.backslash :: Byte.ofChar 'u' :: a :: b :: c :: d :: r) =
      (unescape r).map (ofCode n ++ ·) := by
  rw [unescape.eq_def]
  dsimp only
  rw [if_neg (by decide), if_neg (by simp), if_pos rfl, hn]
  simp [h, h']

theorem unescape_low (h : Surrogate.isLow n = true) (r : Bytes) :
    unescape (Byte.backslash :: Byte.ofChar 'u' :: a :: b :: c :: d :: r) = none := by
  rw [unescape.eq_def]
  dsimp only
  rw [if_neg (by decide), if_neg (by simp), if_pos rfl, hn]
  simp [h]

theorem unescape_high_alone (h : Surrogate.isHigh n = true) {r : Bytes}
    (hr : ∀ r', r ≠ Byte.backslash :: Byte.ofChar 'u' :: r') :
    unescape (Byte.backslash :: Byte.ofChar 'u' :: a :: b :: c :: d :: r) = none := by
  rw [unescape.eq_def]
  dsimp only
  rw [if_neg (by decide), if_neg (by simp), if_pos rfl, hn]
  dsimp only
  split
  · rfl
  · split
    · next b' u _ _ _ _ _ =>
      have : ¬ (b' = Byte.backslash ∧ u = Byte.ofChar 'u') := by
        rintro ⟨rfl, rfl⟩
        exact hr _ rfl
      rw [if_neg this]
    · rfl

theorem unescape_pair (h : Surrogate.isHigh n = true) {a' b' c' d' : UInt8} {m : Nat}
    (hm : hex4? a' b' c' d' = some m) (r : Bytes) :
    unescape (Byte.backslash :: Byte.ofChar 'u' :: a :: b :: c :: d ::
        Byte.backslash :: Byte.ofChar 'u' :: a' :: b' :: c' :: d' :: r) =
      if Surrogate.isLow m then (unescape r).map (ofCode (Surrogate.paired n m) ++ ·) else none := by
  have hlow : Surrogate.isLow n = false := by
    simp only [Surrogate.isHigh, Surrogate.isLow, Bool.and_eq_true, decide_eq_true_eq,
      Bool.and_eq_false_iff, decide_eq_false_iff_not] at h ⊢
    omega
  rw [unescape.eq_def]
  dsimp only
  rw [if_neg (by decide), if_neg (by simp), if_pos rfl, hn]
  simp [h, hlow, hm]

end

theorem hex4?_bytes (n : HexCode) :
    hex4? (Byte.ofChar n.a.char) (Byte.ofChar n.b.char) (Byte.ofChar n.c.char)
      (Byte.ofChar n.d.char) = some n.value := by
  have hd : ∀ d : HexDigit, Text.hexValue? (Char.ofNat (Byte.ofChar d.char).toNat) = some d.value := by
    intro d
    rw [charOfNat_byteOfChar (Nat.lt_trans d.toNat_char_lt (by decide))]
    exact (Option.some_get d.valid).symm
  simp only [hex4?, List.foldlM_cons, List.foldlM_nil, hd, Option.map_some, HexCode.value]
  simp

/-- Decoding goes on after a character as if it started there. -/
theorem decodeStrict_of_unescape {bs r : Bytes} {c : Char}
    (h : unescape bs = (unescape r).map (String.utf8EncodeChar c ++ ·)) :
    decodeStrict bs = (decodeStrict r).map (c :: ·) := by
  rw [decodeStrict, decodeStrict, h]
  cases unescape r with
  | none => rfl
  | some bs => exact Utf8.decode?_encode_append c bs

theorem decodeStrict_of_none {bs : Bytes} (h : unescape bs = none) : decodeStrict bs = none := by
  rw [decodeStrict, h, Option.bind_none]

theorem body_ne_code {t : Token} (h : ∀ m more, t ≠ .code m :: more) (r : Bytes) :
    t.body ≠ Byte.backslash :: Byte.ofChar 'u' :: r := by
  intro heq
  cases t with
  | nil => cases heq
  | cons u more =>
    cases u with
    | plain c hc =>
      obtain ⟨b, t, hb, _⟩ := Utf8.step_encode c []
      have htext := isText_of_mem_encodeChar hc (hb ▸ List.mem_cons_self)
      rw [Token.body, List.flatMap_cons, TextUnit.bytes, hb, List.cons_append] at heq
      exact htext.2.2 (List.cons.inj heq).1
    | short e =>
      have he := (List.cons.inj (List.cons.inj heq).2).1
      revert he
      cases e <;> decide
    | code m => exact h m more rfl

theorem decodeStrict_body (t : Token) : decodeStrict t.body = t.text? := by
  fun_induction Token.text? t with
  | case1 => rfl
  | case2 c hc more ih =>
    rw [← ih]
    exact decodeStrict_of_unescape
      (unescape_text_append (fun b hb => isText_of_mem_encodeChar hc hb) _)
  | case3 e more ih =>
    rw [← ih]
    exact decodeStrict_of_unescape (unescape_short e _)
  | case4 n m more hhigh hlow ih =>
    rw [← ih]
    refine decodeStrict_of_unescape ((unescape_pair (hex4?_bytes n) hhigh (hex4?_bytes m) _).trans ?_)
    rw [if_pos hlow]
    rfl
  | case5 n m more hhigh hlow =>
    have hnone := unescape_pair (hex4?_bytes n) hhigh (hex4?_bytes m) (Token.body more)
    rw [if_neg hlow] at hnone
    exact decodeStrict_of_none hnone
  | case6 n m more hhigh hlow =>
    exact decodeStrict_of_none (unescape_low (hex4?_bytes n) hlow _)
  | case7 n m more hhigh hlow ih =>
    rw [← ih]
    exact decodeStrict_of_unescape
      (unescape_code (hex4?_bytes n) (by simpa using hhigh) (by simpa using hlow) _)
  | case8 n more hmore hsurrogate =>
    refine decodeStrict_of_none ?_
    rcases Bool.or_eq_true_iff.1 hsurrogate with hhigh | hlow
    · exact unescape_high_alone (hex4?_bytes n) hhigh (body_ne_code hmore)
    · exact unescape_low (hex4?_bytes n) hlow _
  | case9 n more hmore hsurrogate ih =>
    rw [Bool.or_eq_true, not_or, Bool.not_eq_true, Bool.not_eq_true] at hsurrogate
    rw [← ih]
    exact decodeStrict_of_unescape
      (unescape_code (hex4?_bytes n) hsurrogate.1 hsurrogate.2 _)

theorem decode_quoted (body : Bytes) :
    decode (Byte.quote :: body ++ [Byte.quote]) = decodeBody body := by
  have hlength : ¬ (Byte.quote :: body ++ [Byte.quote]).length < 2 := by
    simp only [List.length_append, List.length_cons, List.length_nil]
    omega
  rw [decode, if_neg hlength, List.cons_append, List.tail_cons, List.dropLast_concat]

/-- Without a backslash the strict reading is the plain one. -/
theorem decodeStrict_of_isText {bs : Bytes} (h : ∀ b ∈ bs, Byte.IsText b) :
    decodeStrict bs = Utf8.decode? bs := by
  have := unescape_text_append h []
  rw [List.append_nil, unescape] at this
  rw [decodeStrict, this, Option.map_some, Option.bind_some, List.append_nil]

end StringToken

namespace Token

theorem isText_of_not_escaped {t : Token} (h : Byte.backslash ∉ t.body) :
    ∀ b ∈ t.body, Byte.IsText b := by
  intro b hb
  obtain ⟨u, hu, hbu⟩ := List.mem_flatMap.1 hb
  cases u with
  | plain c hc => exact isText_of_mem_encodeChar hc hbu
  | short e => exact absurd (List.mem_flatMap.2 ⟨_, hu, List.mem_cons_self⟩) h
  | code n => exact absurd (List.mem_flatMap.2 ⟨_, hu, List.mem_cons_self⟩) h

/-- Decoding the bytes of a token gives the text it denotes. -/
theorem decode_bytes (t : Token) : StringToken.decode t.bytes = t.text? := by
  rw [bytes, StringToken.decode_quoted, StringToken.decodeBody]
  split
  · exact StringToken.decodeStrict_body t
  · next h =>
    rw [List.contains_iff_mem] at h
    rw [← StringToken.decodeStrict_of_isText (isText_of_not_escaped h)]
    exact StringToken.decodeStrict_body t

end Token

end JsonSpan

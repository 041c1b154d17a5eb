import JsonSpan.Proofs.Printing.Tokens
import JsonSpan.Proofs.Tree.Strings

/-!
# Escapes in quoted strings

Which texts the bodies of quoted strings denote, without reading them: every backslash that is not
part of an escape begins one, and every other character stands for itself (`Spells`). The reading
of such bodies finds just these texts, except that a plus sign may stand in place of the first of
four digits (`Escape.decode_exact`).
-/

namespace JsonSpan

/-! ### Escapes as they are written -/

/-- The four digits of an escaped code, and the number they denote. If signs are allowed, a plus
sign may stand in place of the first digit. -/
inductive CodeText (signed : Bool) : List Char → Nat → Prop where
  | digits (n : HexCode) :
    CodeText signed [n.a.char, n.b.char, n.c.char, n.d.char] n.value
  | plus (h : signed) (b c d : HexDigit) :
    CodeText signed ['+', b.char, c.char, d.char] (16 * (16 * b.value + c.value) + d.value)

/-- What stands after a backslash, and the character that is denoted. A character that takes two
codes has a backslash between them. -/
inductive EscapeText (signed : Bool) : List Char → Char → Prop where
  | short (e : ShortEscape) : EscapeText signed [e.letter] e.char
  | apostrophe : EscapeText signed ['\''] '\''
  | code {t : List Char} {n : Nat} (h : CodeText signed t n) (hhigh : ¬ Surrogate.isHigh n)
    (hlow : ¬ Surrogate.isLow n) : EscapeText signed ('u' :: t) (Char.ofNat n)
  | pair {t u : List Char} {high low : Nat} (ht : CodeText signed t high)
    (hhigh : Surrogate.isHigh high) (hu : CodeText signed u low) (hlow : Surrogate.isLow low) :
    EscapeText signed ('u' :: (t ++ '\\' :: 'u' :: u)) (Char.ofNat (Surrogate.paired high low))

/-- The text that the body of a quoted string denotes: each escape is replaced by its character. -/
inductive Spells (signed : Bool) : List Char → List Char → Prop where
  | nil : Spells signed [] []
  | plain {c : Char} {raw t : List Char} (hc : c ≠ '\\') (h : Spells signed raw t) :
    Spells signed (c :: raw) (c :: t)
  | escape {e raw t : List Char} {c : Char} (he : EscapeText signed e c)
    (h : Spells signed raw t) : Spells signed ('\\' :: (e ++ raw)) (c :: t)

/-! ### Values of digits -/

theorem HexDigit.hexValue? (d : HexDigit) : Text.hexValue? d.char = some d.value :=
  (Option.some_get d.valid).symm

theorem HexDigit.value_lt (d : HexDigit) : d.value < 16 := by
  have h := d.hexValue?
  have h0 : '0'.toNat = 48 ∧ '9'.toNat = 57 := ⟨rfl, rfl⟩
  have ha : 'a'.toNat = 97 ∧ 'f'.toNat = 102 := ⟨rfl, rfl⟩
  have hA : 'A'.toNat = 65 ∧ 'F'.toNat = 70 := ⟨rfl, rfl⟩
  have hr := d.range
  rw [Text.hexValue?] at h
  split at h
  · next hdigit =>
    have hle : d.char.toNat ≤ '9'.toNat := hdigit.2
    have hvalue := Option.some.inj h
    omega
  · split at h
    · next hlower =>
      have hle : d.char.toNat ≤ 'f'.toNat := hlower.2
      have hvalue := Option.some.inj h
      omega
    · split at h
      · next hupper =>
        have hle : d.char.toNat ≤ 'F'.toNat := hupper.2
        have hvalue := Option.some.inj h
        omega
      · cases h

theorem HexDigit.utf8Size_char (d : HexDigit) : d.char.utf8Size = 1 := by
  rw [Char.utf8Size_eq_one_iff, UInt32.le_iff_toNat_le]
  exact Nat.le_of_lt_succ d.toNat_char_lt

theorem CodeText.lt {signed : Bool} {t : List Char} {n : Nat} (h : CodeText signed t n) :
    n < 0x10000 := by
  cases h with
  | digits n =>
    have ha := n.a.value_lt
    have hb := n.b.value_lt
    have hc := n.c.value_lt
    have hd := n.d.value_lt
    rw [HexCode.value]
    omega
  | plus _ b c d =>
    have hb := b.value_lt
    have hc := c.value_lt
    have hd := d.value_lt
    omega

theorem CodeText.of_surrogate {t : List Char} {n : Nat} (h : CodeText true t n)
    (hn : Surrogate.isHigh n ∨ Surrogate.isLow n) : CodeText false t n := by
  cases h with
  | digits n => exact .digits n
  | plus _ b c d =>
    have hb := b.value_lt
    have hc := c.value_lt
    have hd := d.value_lt
    simp only [Surrogate.isHigh, Surrogate.isLow, Bool.and_eq_true, decide_eq_true_eq] at hn
    omega

namespace Escape

/-! ### Reading codes -/

theorem foldlM_hexValue? {ds : List Char} {n m : Nat} :
    ds.foldlM (fun n c => (Text.hexValue? c).map (16 * n + ·)) n = some m ↔
      ∃ hs : List HexDigit, ds = hs.map (·.char) ∧
        hs.foldl (fun n d => 16 * n + d.value) n = m := by
  induction ds generalizing n with
  | nil =>
    constructor
    · rintro ⟨⟩
      exact ⟨[], rfl, rfl⟩
    · rintro ⟨hs, hds, rfl⟩
      rw [List.nil_eq, List.map_eq_nil_iff] at hds
      subst hds
      rfl
  | cons c ds ih =>
    rw [List.foldlM_cons]
    constructor
    · intro h
      obtain ⟨k, hk, hrest⟩ := Option.bind_eq_some_iff.1 h
      obtain ⟨v, hv, rfl⟩ := Option.map_eq_some_iff.1 hk
      obtain ⟨hs, rfl, hm⟩ := ih.1 hrest
      have hvalid : (Text.hexValue? c).isSome := by rw [hv]; rfl
      have hvalue : HexDigit.value ⟨c, hvalid⟩ = v := Option.get_of_eq_some _ hv
      refine ⟨⟨c, hvalid⟩ :: hs, rfl, ?_⟩
      rw [List.foldl_cons, hvalue]
      exact hm
    · rintro ⟨hs, hds, hm⟩
      cases hs with
      | nil => cases hds
      | cons d hs =>
        obtain ⟨rfl, rfl⟩ := List.cons.inj hds
        rw [d.hexValue?]
        exact ih.2 ⟨hs, rfl, hm⟩

theorem hexNumber?_eq_some {ds : List Char} {n : Nat} :
    hexNumber? ds = some n ↔ ds ≠ [] ∧ ∃ hs : List HexDigit, ds = hs.map (·.char) ∧
      hs.foldl (fun n d => 16 * n + d.value) 0 = n := by
  rw [hexNumber?, ← foldlM_hexValue?]
  cases ds <;> simp

theorem size_digits (hs : List HexDigit) : Utf8.size (hs.map (·.char)) = hs.length := by
  induction hs with
  | nil => rfl
  | cons d hs ih =>
    rw [List.map_cons, Utf8.size, ih, d.utf8Size_char, List.length_cons, Nat.add_comm]

theorem codeText_of_signedHex? {ds : List Char} {n : Nat} (hsize : Utf8.size ds = 4)
    (h : signedHex? ds = some n) : CodeText true ds n := by
  rw [signedHex?.eq_def] at h
  split at h
  · next ds =>
    obtain ⟨_, hs, rfl, rfl⟩ := hexNumber?_eq_some.1 h
    have hlength : hs.length = 3 := by
      rw [Utf8.size, size_digits] at hsize
      have hplus : '+'.utf8Size = 1 := rfl
      omega
    obtain ⟨b, c, d, rfl⟩ := List.length_eq_three.1 hlength
    have hplus : CodeText true _ _ := .plus rfl b c d
    simpa using hplus
  · obtain ⟨_, hs, rfl, rfl⟩ := hexNumber?_eq_some.1 h
    rw [size_digits] at hsize
    obtain ⟨a, b, c, d, rfl⟩ := List.length_eq_four.1 hsize
    have hdigits : CodeText true _ _ := .digits ⟨a, b, c, d⟩
    simpa [HexCode.value] using hdigits

theorem signedHex?_digit (d : HexDigit) (ds : List Char) :
    signedHex? (d.char :: ds) = hexNumber? (d.char :: ds) := by
  rw [signedHex?.eq_def]
  split
  · next heq =>
    obtain ⟨hd, _⟩ := List.cons.inj heq
    have hvalid := d.valid
    rw [hd] at hvalid
    exact absurd hvalid (by decide)
  · rfl

section

variable {signed : Bool} {ds : List Char} {n : Nat}

theorem signedHex?_eq_some (h : CodeText signed ds n) : signedHex? ds = some n := by
  cases h with
  | digits n =>
    rw [signedHex?_digit, hexNumber?_eq_some]
    exact ⟨List.cons_ne_nil _ _, [n.a, n.b, n.c, n.d], rfl, by simp [HexCode.value]⟩
  | plus _ b c d =>
    rw [signedHex?, hexNumber?_eq_some]
    exact ⟨List.cons_ne_nil _ _, [b, c, d], rfl, by simp⟩

theorem size_codeText (h : CodeText signed ds n) : ds.length = 4 ∧ Utf8.size ds = 4 := by
  cases h with
  | digits n => exact ⟨rfl, size_digits [n.a, n.b, n.c, n.d]⟩
  | plus _ b c d =>
    have hdigits := size_digits [b, c, d]
    exact ⟨rfl, congrArg (1 + ·) hdigits⟩

end

theorem unit_eq_ok {cs rest : List Char} {n : Nat} :
    unit cs = .ok (n, rest) ↔ ∃ ds, cs = ds ++ rest ∧ CodeText true ds n := by
  constructor
  · intro h
    simp only [unit] at h
    split at h
    · cases h
    · next hsize =>
      split at h
      · next m hm =>
        cases h
        have hcode := codeText_of_signedHex? (not_not.1 hsize) hm
        exact ⟨cs.take 4, (List.take_append_drop 4 cs).symm, hcode⟩
      · cases h
  · rintro ⟨ds, rfl, h⟩
    obtain ⟨hlength, hsize⟩ := size_codeText h
    simp only [unit]
    rw [List.take_left' hlength, List.drop_left' hlength, if_neg (not_not.2 hsize),
      signedHex?_eq_some h]

theorem code_eq_ok {cs rest : List Char} {n : Nat} :
    code cs = .ok (n, rest) ↔
      (∃ ds, cs = ds ++ rest ∧ CodeText true ds n ∧ ¬ Surrogate.isHigh n) ∨
      ∃ ds ds' high low, cs = ds ++ '\\' :: 'u' :: (ds' ++ rest) ∧ CodeText true ds high ∧
        Surrogate.isHigh high ∧ CodeText true ds' low ∧ Surrogate.isLow low ∧
        n = Surrogate.paired high low := by
  constructor
  · intro h
    obtain ⟨⟨first, more⟩, hfirst, hmore⟩ := bind_eq_ok.1 h
    obtain ⟨ds, rfl, hds⟩ := unit_eq_ok.1 hfirst
    dsimp only at hmore
    split at hmore
    · next hhigh =>
      split at hmore
      · obtain ⟨⟨second, more⟩, hsecond, hpair⟩ := bind_eq_ok.1 hmore
        obtain ⟨ds', rfl, hds'⟩ := unit_eq_ok.1 hsecond
        dsimp only at hpair
        split at hpair
        · next hlow =>
          obtain ⟨hn, rfl⟩ := Prod.mk.inj (Except.ok.inj hpair)
          exact .inr ⟨ds, ds', first, second, rfl, hds, hhigh, hds', hlow, hn.symm⟩
        · cases hpair
      · cases hmore
    · next hhigh =>
      cases hmore
      exact .inl ⟨ds, rfl, hds, hhigh⟩
  · rintro (⟨ds, rfl, hds, hhigh⟩ | ⟨ds, ds', high, low, rfl, hds, hhigh, hds', hlow, hn⟩)
    · refine bind_eq_ok.2 ⟨(n, rest), unit_eq_ok.2 ⟨ds, rfl, hds⟩, ?_⟩
      exact if_neg hhigh
    · refine bind_eq_ok.2 ⟨(high, _), unit_eq_ok.2 ⟨ds, rfl, hds⟩, (if_pos hhigh).trans ?_⟩
      refine bind_eq_ok.2 ⟨(low, rest), unit_eq_ok.2 ⟨ds', rfl, hds'⟩, ?_⟩
      rw [hn]
      exact if_pos hlow

/-! ### Reading escapes -/

theorem simple?_eq_some {c d : Char} :
    simple? c = some d ↔ (∃ e : ShortEscape, c = e.letter ∧ d = e.char) ∨ c = '\'' ∧ d = '\'' := by
  constructor
  · intro h
    rw [simple?.eq_def] at h
    split at h
    · exact .inl ⟨.quote, rfl, (Option.some.inj h).symm⟩
    · exact .inr ⟨rfl, (Option.some.inj h).symm⟩
    · exact .inl ⟨.backslash, rfl, (Option.some.inj h).symm⟩
    · exact .inl ⟨.slash, rfl, (Option.some.inj h).symm⟩
    · exact .inl ⟨.backspace, rfl, (Option.some.inj h).symm⟩
    · exact .inl ⟨.formFeed, rfl, (Option.some.inj h).symm⟩
    · exact .inl ⟨.lineFeed, rfl, (Option.some.inj h).symm⟩
    · exact .inl ⟨.carriageReturn, rfl, (Option.some.inj h).symm⟩
    · exact .inl ⟨.tab, rfl, (Option.some.inj h).symm⟩
    · cases h
  · rintro (⟨e, rfl, rfl⟩ | ⟨rfl, rfl⟩)
    · cases e <;> rfl
    · rfl

theorem isValidChar_of_not_surrogate {n : Nat} (h : n < 0x10000) (hhigh : ¬ Surrogate.isHigh n) :
    n.isValidChar ↔ ¬ Surrogate.isLow n := by
  simp only [Surrogate.isHigh, Surrogate.isLow, Bool.and_eq_true, decide_eq_true_eq, Nat.isValidChar]
    at hhigh ⊢
  omega

theorem isValidChar_paired {high low : Nat} (hhigh : Surrogate.isHigh high)
    (hlow : Surrogate.isLow low) : (Surrogate.paired high low).isValidChar := by
  simp only [Surrogate.isHigh, Surrogate.isLow, Bool.and_eq_true, decide_eq_true_eq]
    at hhigh hlow
  unfold Surrogate.paired
  exact .inr ⟨by omega, by omega⟩

theorem simple?_u : simple? 'u' = none :=
  rfl

theorem char_simple {c d : Char} (h : simple? c = some d) (rest : List Char) :
    char (c :: rest) = .ok (d, rest) := by
  rw [char, h]

theorem char_u_eq_ok {cs rest : List Char} {c : Char} :
    char ('u' :: cs) = .ok (c, rest) ↔
      ∃ n, code cs = .ok (n, rest) ∧ n.isValidChar ∧ c = Char.ofNat n := by
  rw [char, simple?_u]
  dsimp only
  rw [if_pos rfl]
  constructor
  · intro h
    obtain ⟨⟨n, more⟩, hn, hc⟩ := bind_eq_ok.1 h
    dsimp only at hc
    split at hc
    · next hvalid =>
      cases hc
      exact ⟨n, hn, hvalid, rfl⟩
    · cases hc
  · rintro ⟨n, hn, hvalid, rfl⟩
    exact bind_eq_ok.2 ⟨(n, rest), hn, if_pos hvalid⟩

theorem char_eq_ok {cs rest : List Char} {c : Char} :
    char cs = .ok (c, rest) ↔ ∃ e, cs = e ++ rest ∧ EscapeText true e c := by
  constructor
  · intro h
    cases cs with
    | nil => cases h
    | cons d cs =>
      by_cases hu : d = 'u'
      · subst hu
        obtain ⟨n, hn, hvalid, rfl⟩ := char_u_eq_ok.1 h
        rcases code_eq_ok.1 hn with
          ⟨ds, rfl, hds, hhigh⟩ | ⟨ds, ds', high, low, rfl, hds, hhigh, hds', hlow, hpaired⟩
        · have hlow := (isValidChar_of_not_surrogate hds.lt hhigh).1 hvalid
          exact ⟨'u' :: ds, rfl, .code hds hhigh hlow⟩
        · rw [hpaired]
          exact ⟨'u' :: (ds ++ '\\' :: 'u' :: ds'), by simp, .pair hds hhigh hds' hlow⟩
      · rw [char] at h
        split at h
        · next hsimple =>
          cases h
          rcases simple?_eq_some.1 hsimple with ⟨e, rfl, rfl⟩ | ⟨rfl, rfl⟩
          · exact ⟨[e.letter], rfl, .short e⟩
          · exact ⟨['\''], rfl, .apostrophe⟩
        · rw [if_neg hu] at h
          cases h
  · rintro ⟨e, rfl, he⟩
    cases he with
    | short e => exact char_simple (simple?_eq_some.2 (.inl ⟨e, rfl, rfl⟩)) rest
    | apostrophe => exact char_simple rfl rest
    | @code ds n hds hhigh hlow =>
      have hcode : code (ds ++ rest) = .ok (n, rest) := code_eq_ok.2 (.inl ⟨ds, rfl, hds, hhigh⟩)
      have hvalid := (isValidChar_of_not_surrogate hds.lt hhigh).2 hlow
      exact char_u_eq_ok.2 ⟨n, hcode, hvalid, rfl⟩
    | @pair ds ds' high low hds hhigh hds' hlow =>
      have hcode : code (ds ++ '\\' :: 'u' :: ds' ++ rest) = .ok (Surrogate.paired high low, rest) :=
        code_eq_ok.2 (.inr ⟨ds, ds', high, low, by simp, hds, hhigh, hds', hlow, rfl⟩)
      exact char_u_eq_ok.2 ⟨_, hcode, isValidChar_paired hhigh hlow, rfl⟩

/-- The text that is read from the body of a quoted string is the one it denotes, signs allowed. -/
theorem decode_eq_ok {raw t : List Char} : decode raw = .ok t ↔ Spells true raw t := by
  constructor
  · intro h
    induction raw using decode.induct generalizing t with
    | case1 =>
      rw [decode] at h
      cases h
      exact .nil
    | case2 cs c rest hc ih =>
      rw [decode_escaped hc] at h
      obtain ⟨t, ht, rfl⟩ := map_eq_ok.1 h
      obtain ⟨e, rfl, he⟩ := char_eq_ok.1 hc
      exact .escape he (ih ht)
    | case3 cs fault hfault =>
      rw [decode_escaped_error hfault] at h
      cases h
    | case4 c cs hne ih =>
      have hc : c ≠ '\\' := by
        rintro rfl
        exact hne rfl
      rw [decode_plain hc] at h
      obtain ⟨t, ht, rfl⟩ := map_eq_ok.1 h
      exact .plain hc (ih ht)
  · intro h
    induction h with
    | nil => rw [decode]
    | plain hc _ ih =>
      rw [decode_plain hc, ih]
      rfl
    | escape he _ ih =>
      rw [decode_escaped (char_eq_ok.2 ⟨_, rfl, he⟩), ih]
      rfl

end Escape

/-! ### Signs -/

/-- Somewhere in the body of a quoted string, where an escape begins, it has a code with a sign. -/
def HasSignedCode (raw : List Char) : Prop :=
  ∃ x y t, raw = x ++ '\\' :: 'u' :: '+' :: y ∧ Spells false x t

theorem CodeText.allowSigns {t : List Char} {n : Nat} (h : CodeText false t n) :
    CodeText true t n := by
  cases h with
  | digits n => exact .digits n
  | plus h _ _ _ => cases h

theorem EscapeText.allowSigns {e : List Char} {c : Char} (h : EscapeText false e c) :
    EscapeText true e c := by
  cases h with
  | short e => exact .short e
  | apostrophe => exact .apostrophe
  | code h hhigh hlow => exact .code h.allowSigns hhigh hlow
  | pair h hhigh hu hlow => exact .pair h.allowSigns hhigh hu.allowSigns hlow

theorem Spells.allowSigns {raw t : List Char} (h : Spells false raw t) : Spells true raw t := by
  induction h with
  | nil => exact .nil
  | plain hc _ ih => exact .plain hc ih
  | escape he _ ih => exact .escape he.allowSigns ih

theorem EscapeText.sign {e : List Char} {c : Char} (h : EscapeText true e c) :
    EscapeText false e c ∨ ∃ y, e = 'u' :: '+' :: y := by
  cases h with
  | short e => exact .inl (.short e)
  | apostrophe => exact .inl .apostrophe
  | code h hhigh hlow =>
    cases h with
    | digits n => exact .inl (.code (.digits n) hhigh hlow)
    | plus _ b c d => exact .inr ⟨_, rfl⟩
  | pair h hhigh hu hlow =>
    exact .inl (.pair (h.of_surrogate (.inl hhigh)) hhigh (hu.of_surrogate (.inr hlow)) hlow)

/-- A text is denoted without signs, or there is a first one. -/
theorem Spells.sign {raw t : List Char} (h : Spells true raw t) :
    Spells false raw t ∨ HasSignedCode raw := by
  induction h with
  | nil => exact .inl .nil
  | plain hc _ ih =>
    rcases ih with h | ⟨x, y, t, rfl, hx⟩
    · exact .inl (.plain hc h)
    · exact .inr ⟨_ :: x, y, _ :: t, rfl, .plain hc hx⟩
  | @escape e raw t c he _ ih =>
    rcases he.sign with he | ⟨y, rfl⟩
    · rcases ih with h | ⟨x, y, t, rfl, hx⟩
      · exact .inl (.escape he h)
      · exact .inr ⟨'\\' :: (e ++ x), y, c :: t, by simp, .escape he hx⟩
    · exact .inr ⟨[], y ++ raw, [], rfl, .nil⟩

namespace Escape

/-- What is read from the body of a quoted string: the text it denotes, where signs are allowed in
codes; in a body without them, just the text it denotes. -/
theorem decode_exact (raw t : List Char) :
    (decode raw = .ok t ↔ Spells true raw t) ∧
      (¬ HasSignedCode raw → (decode raw = .ok t ↔ Spells false raw t)) := by
  refine ⟨decode_eq_ok, fun hsign => decode_eq_ok.trans ⟨fun h => ?_, Spells.allowSigns⟩⟩
  rcases h.sign with h | h
  · exact h
  · exact absurd h hsign

/-- A pair of surrogates and a line feed, and a code that is let through for its sign. -/
theorem decode_exact_emoji :
    ¬ HasSignedCode "\\ud83d\\uDE00\\n".toList ∧
      decode "\\ud83d\\uDE00\\n".toList = .ok ['😀', '\n'] ∧
      decode "\\u+041".toList = .ok ['A'] := by
  have hsign : ¬ HasSignedCode "\\ud83d\\uDE00\\n".toList := by
    rintro ⟨x, y, _, heq, _⟩
    have hmem : '+' ∈ x ++ '\\' :: 'u' :: '+' :: y := by simp
    rw [← heq] at hmem
    exact absurd hmem (by decide)
  have hhigh : CodeText false _ _ :=
    .digits ⟨⟨'d', by decide⟩, ⟨'8', by decide⟩, ⟨'3', by decide⟩, ⟨'d', by decide⟩⟩
  have hlow : CodeText false _ _ :=
    .digits ⟨⟨'D', by decide⟩, ⟨'E', by decide⟩, ⟨'0', by decide⟩, ⟨'0', by decide⟩⟩
  have hpair := EscapeText.pair hhigh (by decide) hlow (by decide)
  have hplus : CodeText true ['+', '0', '4', '1'] 0x41 :=
    .plus rfl ⟨'0', by decide⟩ ⟨'4', by decide⟩ ⟨'1', by decide⟩
  have hletter : EscapeText true "u+041".toList 'A' := .code hplus (by decide) (by decide)
  refine ⟨hsign, ?_, ?_⟩
  · have hdenotes := Spells.escape hpair (.escape (.short .lineFeed) .nil)
    rw [((decode_exact _ _).2 hsign).2 hdenotes]
    decide
  · exact (decode_exact _ _).1.2 (.escape hletter .nil)

end Escape

end JsonSpan

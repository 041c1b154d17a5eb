import JsonSpan.Proofs.Scan.Items
import JsonSpan.Proofs.Strings.Escapes
import JsonSpan.Proofs.Text.Decoding

/-!
# The strict reading of string tokens

The strict reading of the body of a string token gives the text of the one JSON string that is
written so, if there is one (`StringToken.decodeStrict_eq_some`). It is used only for tokens with a
backslash; the others are read as UTF-8 alone. The two readings differ where a token without a
backslash holds a control character, and nowhere else (`StringToken.decodeStrict_eq_decode`).
-/

namespace JsonSpan

open Dialect

/-! ### Units of a token -/

theorem Token.text?_code {n : HexCode} (hhigh : ¬ Surrogate.isHigh n.value)
    (hlow : ¬ Surrogate.isLow n.value) (more : Token) :
    text? (.code n :: more) = (text? more).map (Char.ofNat n.value :: ·) := by
  match more with
  | .code m :: more => rw [text?, if_neg hhigh, if_neg hlow]
  | [] | .plain _ _ :: _ | .short _ :: _ => simp [text?, hhigh, hlow]

theorem Token.text?_pair {n m : HexCode} (hhigh : Surrogate.isHigh n.value)
    (hlow : Surrogate.isLow m.value) (more : Token) :
    text? (.code n :: .code m :: more) =
      (text? more).map (Char.ofNat (Surrogate.paired n.value m.value) :: ·) := by
  rw [text?, if_pos hhigh, if_pos hlow]

namespace StringToken

theorem exists_short {e x : UInt8} (h : simple? e = some x) :
    ∃ short : ShortEscape, e = Byte.ofChar short.letter ∧ [x] = String.utf8EncodeChar short.char := by
  rw [simple?] at h
  split_ifs at h with hself hb hf hn hr ht
  · rcases hself with rfl | rfl | rfl
    · exact ⟨.quote, rfl, by rw [← Option.some.inj h]; rfl⟩
    · exact ⟨.backslash, rfl, by rw [← Option.some.inj h]; rfl⟩
    · exact ⟨.slash, rfl, by rw [← Option.some.inj h]; rfl⟩
  · exact ⟨.backspace, hb, by rw [← Option.some.inj h]; rfl⟩
  · exact ⟨.formFeed, hf, by rw [← Option.some.inj h]; rfl⟩
  · exact ⟨.lineFeed, hn, by rw [← Option.some.inj h]; rfl⟩
  · exact ⟨.carriageReturn, hr, by rw [← Option.some.inj h]; rfl⟩
  · exact ⟨.tab, ht, by rw [← Option.some.inj h]; rfl⟩

theorem exists_hexCode {a b c d : UInt8} {n : Nat} (h : hex4? a b c d = some n) :
    ∃ code : HexCode, [a, b, c, d] = [Byte.ofChar code.a.char, Byte.ofChar code.b.char,
      Byte.ofChar code.c.char, Byte.ofChar code.d.char] ∧ n = code.value := by
  have hback (x : UInt8) : Byte.ofChar (Char.ofNat x.toNat) = x := by
    have hx := x.toNat_lt
    have hval : (Char.ofNat x.toNat).toNat = x.toNat := Utf8.val_ofNat (.inl (by omega))
    rw [Byte.ofChar, hval]
    exact UInt8.ofNat_toNat
  have hfold : [Char.ofNat a.toNat, Char.ofNat b.toNat, Char.ofNat c.toNat, Char.ofNat d.toNat].foldlM
      (fun n c => (Text.hexValue? c).map (16 * n + ·)) 0 = some n := h
  obtain ⟨hs, hchars, rfl⟩ := Escape.foldlM_hexValue?.1 hfold
  have hlength : hs.length = 4 := by simpa using (congrArg List.length hchars).symm
  obtain ⟨a', b', c', d', rfl⟩ := List.length_eq_four.1 hlength
  simp only [List.map_cons, List.map_nil, List.cons.injEq, and_true] at hchars
  obtain ⟨ha, hb, hc, hd⟩ := hchars
  refine ⟨⟨a', b', c', d'⟩, ?_, by simp [HexCode.value]⟩
  rw [← ha, ← hb, ← hc, ← hd, hback, hback, hback, hback]

theorem exists_code {r out : Bytes}
    (h : unescape (Byte.backslash :: Byte.ofChar 'u' :: r) = some out) :
    ∃ (n : HexCode) (r' : Bytes), Byte.backslash :: Byte.ofChar 'u' :: r =
      Token.body [.code n] ++ r' ∧ ¬ Surrogate.isLow n.value := by
  rw [unescape.eq_def] at h
  dsimp only at h
  rw [if_neg (by decide), if_neg (by simp), if_pos rfl] at h
  split at h
  · next a b c d r =>
    split at h
    · cases h
    · next n hn =>
      obtain ⟨code, hcode, rfl⟩ := exists_hexCode hn
      split at h
      · cases h
      · next hlow =>
        have hdigits := congrArg (fun ds => Byte.backslash :: Byte.ofChar 'u' :: (ds ++ r)) hcode
        exact ⟨code, r, hdigits, hlow⟩
  · cases h

theorem exists_low {n : HexCode} {r out : Bytes} (hhigh : Surrogate.isHigh n.value)
    (hlow : ¬ Surrogate.isLow n.value) (h : unescape (Token.body [.code n] ++ r) = some out) :
    ∃ (m : HexCode) (r' : Bytes), r = Token.body [.code m] ++ r' ∧ Surrogate.isLow m.value := by
  have hbody : Token.body [.code n] ++ r = Byte.backslash :: Byte.ofChar 'u' ::
      Byte.ofChar n.a.char :: Byte.ofChar n.b.char :: Byte.ofChar n.c.char ::
      Byte.ofChar n.d.char :: r := rfl
  rw [hbody, unescape.eq_def] at h
  dsimp only at h
  rw [if_neg (by decide), if_neg (by simp), if_pos rfl, hex4?_bytes] at h
  dsimp only at h
  rw [if_neg hlow, if_pos hhigh] at h
  split at h
  · next b u a' b' c' d' r =>
    split at h
    · next hmark =>
      split at h
      · cases h
      · next m hm =>
        obtain ⟨code, hcode, rfl⟩ := exists_hexCode hm
        obtain ⟨rfl, rfl⟩ := hmark
        split at h
        · next hlow =>
          have hdigits := congrArg (fun ds => Byte.backslash :: Byte.ofChar 'u' :: (ds ++ r)) hcode
          exact ⟨code, r, hdigits, hlow⟩
        · cases h
    · cases h
  · cases h

/-- Units that are escapes, and that denote a character whatever follows them. -/
structure IsEscapeOf (c : Char) (us : Token) : Prop where
  isEscape : ∃ t, us.body = Byte.backslash :: t
  text? : ∀ more : Token, Token.text? (us ++ more) = more.text?.map (c :: ·)

theorem exists_escape_of_code {n : HexCode} {r out : Bytes} (hlow : ¬ Surrogate.isLow n.value)
    (h : unescape (Token.body [.code n] ++ r) = some out) :
    ∃ (c : Char) (us : Token) (r' out' : Bytes), IsEscapeOf c us ∧
      Token.body [.code n] ++ r = us.body ++ r' ∧ unescape r' = some out' ∧
      out = String.utf8EncodeChar c ++ out' := by
  by_cases hhigh : Surrogate.isHigh n.value
  · obtain ⟨m, r', rfl, hlow'⟩ := exists_low hhigh hlow h
    have hpair := unescape_pair (hex4?_bytes n) hhigh (hex4?_bytes m) r'
    rw [if_pos hlow'] at hpair
    obtain ⟨out', hout', rfl⟩ := Option.map_eq_some_iff.1 (hpair.symm.trans h)
    exact ⟨_, [.code n, .code m], r', out', ⟨⟨_, rfl⟩, Token.text?_pair hhigh hlow'⟩, rfl, hout', rfl⟩
  · have hcode := unescape_code (hex4?_bytes n) (Bool.not_eq_true _ ▸ hhigh)
      (Bool.not_eq_true _ ▸ hlow) r
    obtain ⟨out', hout', rfl⟩ := Option.map_eq_some_iff.1 (hcode.symm.trans h)
    exact ⟨_, [.code n], r, out', ⟨⟨_, rfl⟩, Token.text?_code hhigh hlow⟩, rfl, hout', rfl⟩

theorem exists_escape {r out : Bytes} (h : unescape (Byte.backslash :: r) = some out) :
    ∃ (c : Char) (us : Token) (r' out' : Bytes), IsEscapeOf c us ∧
      Byte.backslash :: r = us.body ++ r' ∧ unescape r' = some out' ∧
      out = String.utf8EncodeChar c ++ out' := by
  cases r with
  | nil => cases h
  | cons e r =>
    by_cases hu : e = Byte.ofChar 'u'
    · subst hu
      obtain ⟨n, r', hbody, hlow⟩ := exists_code h
      rw [hbody] at h ⊢
      exact exists_escape_of_code hlow h
    · rw [unescape.eq_def] at h
      dsimp only at h
      rw [if_neg (by decide), if_neg (by simp), if_neg hu] at h
      split at h
      · cases h
      · next x hx =>
        obtain ⟨short, rfl, hshort⟩ := exists_short hx
        obtain ⟨out', hout', rfl⟩ := Option.map_eq_some_iff.1 h
        refine ⟨short.char, [.short short], r, out', ⟨⟨_, rfl⟩, fun _ => rfl⟩, rfl, hout', ?_⟩
        rw [← hshort]
        rfl

theorem isBody_of_append {t u : Bytes} (ht : IsBody t) (h : IsBody (t ++ u)) : IsBody u := by
  induction ht with
  | nil => exact h
  | escaped b _ ih =>
    rw [List.cons_append, List.cons_append] at h
    cases h with
    | escaped _ h => exact ih h
    | plain _ hb _ => exact absurd rfl hb
  | @plain b t _ hb _ ih =>
    generalize hw : b :: t ++ u = w at h
    cases h with
    | nil => cases hw
    | escaped _ _ => exact absurd (List.cons.inj hw).1 hb
    | plain _ _ h =>
      obtain ⟨_, rfl⟩ := List.cons.inj hw
      exact ih h

theorem unescape_plain {b : UInt8} (hb : b ≠ Byte.backslash) (r : Bytes) :
    unescape (b :: r) = if b < 0x20 then none else (unescape r).map (b :: ·) := by
  rw [unescape.eq_def]
  dsimp only
  rw [if_pos hb]

theorem exists_tail {t r out : Bytes} (ht : ∀ b ∈ t, Utf8.isTail b)
    (h : unescape r = some (t ++ out)) : ∃ r', r = t ++ r' ∧ unescape r' = some out := by
  induction t generalizing r with
  | nil => exact ⟨r, rfl, h⟩
  | cons b t ih =>
    obtain ⟨hb, htail⟩ := List.forall_mem_cons.1 ht
    cases r with
    | nil => cases h
    | cons x r =>
      by_cases hx : x = Byte.backslash
      · subst hx
        obtain ⟨c, _, _, _, _, _, _, hout⟩ := exists_escape h
        obtain ⟨first, more, hc, hfirst, _⟩ := Utf8.exists_encodeChar c
        rw [hc] at hout
        obtain ⟨rfl, _⟩ := List.cons.inj hout
        exact absurd hb hfirst
      · rw [unescape_plain hx] at h
        split at h
        · cases h
        · obtain ⟨out', hout', heq⟩ := Option.map_eq_some_iff.1 h
          obtain ⟨rfl, rfl⟩ := List.cons.inj heq
          obtain ⟨r', rfl, hr'⟩ := ih htail hout'
          exact ⟨r', rfl, hr'⟩

/-- A byte that stands for itself begins a character of the text, all of which stands there. -/
theorem exists_plain {b : UInt8} {r : Bytes} {t : List Char} (hq : b ≠ Byte.quote)
    (hb : b ≠ Byte.backslash) (h : decodeStrict (b :: r) = some t) :
    ∃ (c : Char) (hc : 0x20 ≤ c.toNat ∧ c ≠ '"' ∧ c ≠ '\\') (r' : Bytes) (t' : List Char),
      b :: r = TextUnit.bytes (.plain c hc) ++ r' ∧ t = c :: t' ∧ decodeStrict r' = some t' := by
  obtain ⟨out, hout, ht⟩ := Option.bind_eq_some_iff.1 h
  rw [unescape_plain hb] at hout
  split at hout
  · cases hout
  · next hlow =>
    obtain ⟨out, hr, rfl⟩ := Option.map_eq_some_iff.1 hout
    obtain ⟨c, length, hstep⟩ := Utf8.exists_char_of_decode? ht
    obtain ⟨more, out, rfl, _, hc⟩ := Utf8.step_eq_char hstep
    have hmore : ∀ b ∈ more, Utf8.isTail b := by
      obtain ⟨first, more', hc', _, htail⟩ := Utf8.exists_encodeChar c
      obtain ⟨_, rfl⟩ := List.cons.inj (hc.symm.trans hc')
      exact htail
    obtain ⟨r', rfl, hr'⟩ := exists_tail hmore hr
    have hplain : 0x20 ≤ c.toNat ∧ c ≠ '"' ∧ c ≠ '\\' := by
      by_cases hascii : c.toNat < 0x80
      · rw [Utf8.encodeChar_ascii hascii] at hc
        obtain ⟨rfl, _⟩ := List.cons.inj hc
        refine ⟨?_, ?_, ?_⟩
        · rw [UInt8.lt_iff_toNat_lt, toNat_byteOfChar (by omega)] at hlow
          exact Nat.le_of_not_lt hlow
        · rintro rfl
          exact hq rfl
        · rintro rfl
          exact hb rfl
      · refine ⟨by omega, ?_, ?_⟩ <;> rintro rfl <;> exact absurd (by decide) hascii
    rw [← List.cons_append, ← hc, Utf8.decode?_encode_append] at ht
    obtain ⟨t', ht', rfl⟩ := Option.map_eq_some_iff.1 ht
    refine ⟨c, hplain, r', t', ?_, rfl, ?_⟩
    · rw [TextUnit.bytes, hc, List.cons_append]
    · rw [decodeStrict, hr', Option.bind_some, ht']

theorem exists_token {body : Bytes} {t : List Char} (hb : IsBody body)
    (h : decodeStrict body = some t) : ∃ token : Token, token.body = body ∧ token.text? = some t := by
  induction hn : body.length using Nat.strongRecOn generalizing body t with
  | _ n ih =>
    cases body with
    | nil =>
      cases h
      exact ⟨[], rfl, rfl⟩
    | cons b r =>
      by_cases hslash : b = Byte.backslash
      · subst hslash
        obtain ⟨out, hout, ht⟩ := Option.bind_eq_some_iff.1 h
        obtain ⟨c, us, r', out, hus, hbody, hr', rfl⟩ := exists_escape hout
        rw [Utf8.decode?_encode_append] at ht
        obtain ⟨t, ht', rfl⟩ := Option.map_eq_some_iff.1 ht
        rw [hbody] at hb hn ⊢
        have hrest : decodeStrict r' = some t := by rw [decodeStrict, hr', Option.bind_some, ht']
        have hlt : r'.length < n := by
          obtain ⟨more, hmore⟩ := hus.isEscape
          rw [← hn, hmore, List.length_append, List.length_cons]
          omega
        obtain ⟨token, rfl, htext⟩ := ih _ hlt (isBody_of_append us.isBody hb) hrest rfl
        refine ⟨us ++ token, List.flatMap_append, ?_⟩
        rw [hus.text?, htext, Option.map_some]
      · have hq : b ≠ Byte.quote := by
          cases hb with
          | escaped => exact absurd rfl hslash
          | plain hq _ _ => exact hq
        obtain ⟨c, hc, r', t, hbody, rfl, hrest⟩ := exists_plain hq hslash h
        rw [hbody] at hb hn ⊢
        have hlt : r'.length < n := by
          obtain ⟨first, more, hchar, _⟩ := Utf8.exists_encodeChar c
          rw [← hn, TextUnit.bytes, hchar, List.length_append, List.length_cons]
          omega
        obtain ⟨token, rfl, htext⟩ := ih _ hlt (isBody_of_append (TextUnit.isBody _) hb) hrest rfl
        refine ⟨.plain c hc :: token, List.flatMap_cons, ?_⟩
        rw [Token.text?, htext, Option.map_some]

theorem decodeStrict_eq_some {body : Bytes} {t : List Char} (hb : IsBody body) :
    decodeStrict body = some t ↔ ∃ token : Token, token.body = body ∧ token.text? = some t := by
  constructor
  · exact exists_token hb
  · rintro ⟨token, rfl, ht⟩
    rw [decodeStrict_body, ht]

/-! ### Tokens of documents -/

theorem unescape_of_not_mem {body : Bytes} (h : Byte.backslash ∉ body) :
    unescape body = if ∃ b ∈ body, b < 0x20 then none else some body := by
  induction body with
  | nil => rfl
  | cons b body ih =>
    obtain ⟨hb, hbody⟩ := not_or.1 (mt List.mem_cons.2 h)
    rw [unescape_plain (Ne.symm hb), ih hbody]
    by_cases hlow : b < 0x20
    · rw [if_pos hlow, if_pos ⟨b, List.mem_cons_self, hlow⟩]
    · rw [if_neg hlow]
      by_cases hmore : ∃ b ∈ body, b < 0x20
      · obtain ⟨b', hb', hlow'⟩ := hmore
        rw [if_pos ⟨b', hb', hlow'⟩, if_pos ⟨b', List.mem_cons_of_mem _ hb', hlow'⟩]
        rfl
      · have hall : ¬ ∃ b' ∈ b :: body, b' < 0x20 := by
          simp only [List.mem_cons, exists_eq_or_imp, not_or]
          exact ⟨hlow, hmore⟩
        rw [if_neg hmore, if_neg hall]
        rfl

/-- The strict reading agrees with the reading of the token, save for a token without a backslash in
which some byte is a control character: that one it refuses. -/
theorem decodeStrict_eq (body : Bytes) :
    decodeStrict body = if Byte.backslash ∉ body ∧ ∃ b ∈ body, b < 0x20 then none
      else decode (Byte.quote :: body ++ [Byte.quote]) := by
  rw [decode_quoted, decodeBody]
  by_cases hslash : Byte.backslash ∈ body
  · rw [if_neg fun h => h.1 hslash, if_pos (List.contains_iff_mem.2 hslash)]
  · rw [if_neg (mt List.contains_iff_mem.1 hslash), decodeStrict, unescape_of_not_mem hslash]
    by_cases hlow : ∃ b ∈ body, b < 0x20
    · rw [if_pos hlow, if_pos ⟨hslash, hlow⟩, Option.bind_none]
    · rw [if_neg hlow, if_neg fun h => hlow h.2, Option.bind_some]

end StringToken

/-- A span of a document that holds a string, as the scanners delimit it. -/
structure Span.IsString (doc : Bytes) (s : Span) : Prop where
  isExtent : s.IsExtent doc
  kind : (Place.ofOffset doc s.start).kind? = some .string

theorem Span.IsString.exists_body {doc : Bytes} {s : Span} (h : s.IsString doc) :
    ∃ body, IsBody body ∧ s.slice doc = Byte.quote :: body ++ [Byte.quote] := by
  have hread := h.isExtent
  rw [Span.IsExtent, Place.readValue] at hread
  split at hread
  · next q hskip =>
    obtain ⟨t, ht, hcovers⟩ := exists_isString h.kind hskip
    obtain ⟨hs, hq⟩ := Prod.mk.inj (Except.ok.inj hread)
    obtain @⟨body, hbody⟩ := ht
    have hslice := slice_of_covers (.refl _) hcovers
    rw [hs] at hslice
    exact ⟨body, hbody, hslice⟩
  · cases hread

/-- The strict reading of a string of a document: it gives the texts of JSON strings, and it agrees
with the reading of the token, save for tokens without a backslash in which some byte is a control
character. Those it refuses, and they are read as UTF-8. -/
theorem StringToken.decodeStrict_eq_decode {doc : Bytes} {s : Span} (h : s.IsString doc) :
    ∃ body, s.slice doc = Byte.quote :: body ++ [Byte.quote] ∧
      (∀ t, decodeStrict body = some t ↔
        ∃ token : Token, token.body = body ∧ token.text? = some t) ∧
      decodeStrict body = (if Byte.backslash ∉ body ∧ ∃ b ∈ body, b < 0x20 then none
        else decode (s.slice doc)) ∧
      (Byte.backslash ∉ body → decode (s.slice doc) = Utf8.decode? body) := by
  obtain ⟨body, hbody, hslice⟩ := h.exists_body
  refine ⟨body, hslice, fun t => decodeStrict_eq_some hbody, ?_, fun hslash => ?_⟩
  · rw [hslice]
    exact decodeStrict_eq body
  · rw [hslice, decode_quoted, decodeBody, if_neg (mt List.contains_iff_mem.1 hslash)]

/-- A tab in a string without a backslash is read, though no JSON string has it. -/
theorem StringToken.decodeStrict_eq_decode_tab :
    Span.IsString (utf8 "[\"\t\"]") ⟨1, 4⟩ ∧ decodeStrict [0x09] = none ∧
      decode (Span.slice ⟨1, 4⟩ (utf8 "[\"\t\"]")) = some ['\t'] := by
  have hstring : Span.IsString (utf8 "[\"\t\"]") ⟨1, 4⟩ := ⟨rfl, rfl⟩
  obtain ⟨body, hslice, _, hstrict, hplain⟩ := decodeStrict_eq_decode hstring
  have htab : Span.slice ⟨1, 4⟩ (utf8 "[\"\t\"]") = [Byte.quote, 0x09] ++ [Byte.quote] := rfl
  rw [htab, List.append_left_inj, List.cons.injEq] at hslice
  obtain rfl := hslice.2
  refine ⟨hstring, ?_, ?_⟩
  · rw [hstrict, if_pos (by decide)]
  · rw [hplain (by decide)]
    rfl

end JsonSpan

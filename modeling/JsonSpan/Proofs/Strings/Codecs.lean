import JsonSpan.Proofs.Grammar.Tokens
import JsonSpan.Proofs.Strings.Strict

/-!
# Strings of documents and of paths

A string token of a document spells in a path the text that it has in the document
(`Span.IsString.exists_stringText`), and the canonical quoted form of a text, as a token of a
document, has that text (`Text.decode_quote`).
-/

namespace JsonSpan

open Spelling Dialect

/-! ### Units as characters -/

def TextUnit.chars : TextUnit → List Char
  | plain c _ => [c]
  | short e => ['\\', e.letter]
  | code n => ['\\', 'u', n.a.char, n.b.char, n.c.char, n.d.char]

theorem TextUnit.encode_chars (u : TextUnit) : Utf8.encode u.chars = u.bytes := by
  cases u with
  | plain c h => exact List.flatMap_singleton _ _
  | short e =>
    rw [chars, Utf8.encode_ascii]
    · rfl
    · cases e <;> decide
  | code n =>
    rw [chars, Utf8.encode_ascii]
    · rfl
    · simp only [List.forall_mem_cons]
      exact ⟨by decide, by decide, n.a.toNat_char_lt, n.b.toNat_char_lt, n.c.toNat_char_lt,
        n.d.toNat_char_lt, by simp⟩

theorem HexDigit.ne (d : HexDigit) : d.char ≠ '"' ∧ d.char ≠ '\\' := by
  have hall : ∀ c ∈ ['"', '\\'], ¬ (Text.hexValue? c).isSome := by decide
  exact ⟨fun h => hall _ (by simp) (h ▸ d.valid), fun h => hall _ (by simp) (h ▸ d.valid)⟩

theorem TextUnit.body_chars (u : TextUnit) : Body '"' u.chars := by
  cases u with
  | plain c h => exact .plain h.2.1 h.2.2 .nil
  | short e => exact .escaped _ .nil
  | code n =>
    refine .escaped 'u' (body_of_forall ?_)
    simp only [List.forall_mem_cons]
    exact ⟨n.a.ne, n.b.ne, n.c.ne, n.d.ne, by simp⟩

namespace Token

def chars (t : Token) : List Char :=
  t.flatMap TextUnit.chars

theorem encode_chars (t : Token) : Utf8.encode t.chars = t.body := by
  induction t with
  | nil => rfl
  | cons u t ih =>
    rw [chars, body, List.flatMap_cons, List.flatMap_cons, ← u.encode_chars, Utf8.encode,
      List.flatMap_append]
    exact congrArg _ ih

theorem body_chars (t : Token) : Body '"' t.chars := by
  induction t with
  | nil => exact .nil
  | cons u t ih => exact u.body_chars.append ih

theorem spells {t : Token} {cs : List Char} (h : t.text? = some cs) : Spells false t.chars cs := by
  fun_induction Token.text? t generalizing cs with
  | case1 =>
    cases h
    exact .nil
  | case2 c hc more ih =>
    obtain ⟨cs, hcs, rfl⟩ := Option.map_eq_some_iff.1 h
    exact .plain hc.2.2 (ih hcs)
  | case3 e more ih =>
    obtain ⟨cs, hcs, rfl⟩ := Option.map_eq_some_iff.1 h
    exact .escape (.short e) (ih hcs)
  | case4 n m more hhigh hlow ih =>
    obtain ⟨cs, hcs, rfl⟩ := Option.map_eq_some_iff.1 h
    have hpair : EscapeText false _ _ := .pair (.digits n) hhigh (.digits m) hlow
    have hspells := Spells.escape hpair (ih hcs)
    exact hspells
  | case5 => cases h
  | case6 => cases h
  | case7 n m more hhigh hlow ih =>
    obtain ⟨cs, hcs, rfl⟩ := Option.map_eq_some_iff.1 h
    exact .escape (.code (.digits n) hhigh hlow) (ih hcs)
  | case8 => cases h
  | case9 n more hmore hsurrogate ih =>
    rw [Bool.or_eq_true, not_or] at hsurrogate
    obtain ⟨cs, hcs, rfl⟩ := Option.map_eq_some_iff.1 h
    exact .escape (.code (.digits n) hsurrogate.1 hsurrogate.2) (ih hcs)

end Token

/-! ### Tokens in paths -/

theorem stringText_of_spells {raw t : List Char} (h : Body '"' raw) (hs : Spells false raw t) :
    StringText ('"' :: raw ++ ['"']) (String.ofList t) :=
  .mk (.inl rfl) h (Escape.decode_eq_ok.2 hs.allowSigns)

theorem spells_self {t : List Char} (h : ∀ c ∈ t, c ≠ '"' ∧ c ≠ '\\') : Spells false t t := by
  induction t with
  | nil => exact .nil
  | cons c t ih =>
    obtain ⟨hc, ht⟩ := List.forall_mem_cons.1 h
    exact .plain hc.2 (ih ht)

theorem encode_enclosed (cs : List Char) :
    Utf8.encode ('"' :: cs ++ ['"']) = Byte.quote :: Utf8.encode cs ++ [Byte.quote] := by
  rw [Utf8.encode, List.flatMap_append, List.flatMap_cons]
  rfl

theorem quote_not_mem {bs : Bytes} (h : IsBody bs) (hslash : Byte.backslash ∉ bs) :
    Byte.quote ∉ bs := by
  induction h with
  | nil => exact List.not_mem_nil
  | escaped b _ _ => exact absurd List.mem_cons_self hslash
  | plain hq _ _ ih =>
    rw [List.mem_cons, not_or] at hslash ⊢
    exact ⟨Ne.symm hq, ih hslash.2⟩

/-- A string of a document spells its text in a path, and is all that is read there. -/
theorem Span.IsString.exists_stringText {doc : Bytes} {s : Span} {t : List Char}
    (h : s.IsString doc) (ht : StringToken.decode (s.slice doc) = some t) :
    ∃ cs, s.slice doc = Utf8.encode cs ∧ StringText cs (String.ofList t) := by
  obtain ⟨body, hbody, hslice⟩ := h.exists_body
  rw [hslice] at ht ⊢
  rw [StringToken.decode_quoted, StringToken.decodeBody] at ht
  split at ht
  · obtain ⟨token, rfl, htext⟩ := (StringToken.decodeStrict_eq_some hbody).1 ht
    have hspells := Token.spells htext
    refine ⟨'"' :: token.chars ++ ['"'], ?_, stringText_of_spells token.body_chars hspells⟩
    rw [encode_enclosed, token.encode_chars]
  · next hslash =>
    obtain rfl := Utf8.decode?_eq_some.1 ht
    rw [List.contains_iff_mem] at hslash
    have hplain : ∀ c ∈ t, c ≠ '"' ∧ c ≠ '\\' := by
      refine fun c hc => ⟨?_, ?_⟩
      · rintro rfl
        exact quote_not_mem hbody hslash (List.mem_flatMap.2 ⟨_, hc, List.mem_singleton_self _⟩)
      · rintro rfl
        exact hslash (List.mem_flatMap.2 ⟨_, hc, List.mem_singleton_self _⟩)
    exact ⟨'"' :: t ++ ['"'], (encode_enclosed t).symm,
      stringText_of_spells (body_of_forall hplain) (spells_self hplain)⟩

/-! ### Quoted texts in documents -/

theorem Text.exists_hexCode {n : Nat} (h : n < 0xa0) : ∃ code : HexCode,
    (hexPadded 4 n).toList = [code.a.char, code.b.char, code.c.char, code.d.char] ∧
      code.value = n := by
  obtain ⟨_, hsize, hvalue, hdigits⟩ := Escape.hexPadded_control n h
  have hcode := Escape.codeText_of_signedHex? hsize hvalue
  generalize (hexPadded 4 n).toList = ds at hcode hdigits
  cases hcode with
  | digits code => exact ⟨code, rfl, rfl⟩
  | plus => exact absurd (hdigits '+' List.mem_cons_self) (by decide)

theorem Text.exists_unit (c : Char) : ∃ u : TextUnit, u.chars = quoteChar c ∧
    ∀ more : Token, Token.text? (u :: more) = more.text?.map (c :: ·) := by
  rw [quoteChar]
  split
  · next hc => exact ⟨.short .quote, rfl, fun _ => hc ▸ rfl⟩
  split
  · next hc => exact ⟨.short .backslash, rfl, fun _ => hc ▸ rfl⟩
  split
  · next hc => exact ⟨.short .lineFeed, rfl, fun _ => hc ▸ rfl⟩
  split
  · next hc => exact ⟨.short .carriageReturn, rfl, fun _ => hc ▸ rfl⟩
  split
  · next hc => exact ⟨.short .tab, rfl, fun _ => hc ▸ rfl⟩
  split
  · next hcontrol =>
    have hlt := Escape.lt_of_isControl hcontrol
    obtain ⟨n, hchars, hvalue⟩ := exists_hexCode hlt
    refine ⟨.code n, ?_, fun more => ?_⟩
    · rw [TextUnit.chars, hchars]
    · have hsurrogate : ¬ Surrogate.isHigh n.value ∧ ¬ Surrogate.isLow n.value := by
        simp only [hvalue, Surrogate.isHigh, Surrogate.isLow, Bool.and_eq_true, decide_eq_true_eq]
        omega
      rw [Token.text?_code hsurrogate.1 hsurrogate.2, hvalue, Char.ofNat_toNat]
  · next hquote hslash _ _ _ hcontrol =>
    have hlow : 0x20 ≤ c.toNat := by
      simp only [isControl, Bool.or_eq_true, decide_eq_true_eq, not_or] at hcontrol
      omega
    exact ⟨.plain c ⟨hlow, hquote, hslash⟩, rfl, fun _ => rfl⟩

theorem Text.exists_token (cs : List Char) :
    ∃ token : Token, token.chars = cs.flatMap quoteChar ∧ token.text? = some cs := by
  induction cs with
  | nil => exact ⟨[], rfl, rfl⟩
  | cons c cs ih =>
    obtain ⟨token, hchars, htext⟩ := ih
    obtain ⟨u, hu, hmore⟩ := exists_unit c
    refine ⟨u :: token, ?_, ?_⟩
    · rw [Token.chars, List.flatMap_cons, hu, List.flatMap_cons, ← hchars]
      rfl
    · rw [hmore, htext, Option.map_some]

/-- The canonical quoted form of a text is one string of a document, which has the text. -/
theorem Text.decode_quote (cs : List Char) : Dialect.IsString (Utf8.encode (quote cs)) ∧
    StringToken.decode (Utf8.encode (quote cs)) = some cs := by
  obtain ⟨token, hchars, htext⟩ := exists_token cs
  have hbytes : Utf8.encode (quote cs) = token.bytes := by
    rw [quote, encode_enclosed, ← hchars, token.encode_chars]
    rfl
  rw [hbytes]
  exact ⟨token.isString, token.decode_bytes.trans htext⟩

end JsonSpan

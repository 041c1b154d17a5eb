import JsonSpan.Output.Result
import JsonSpan.Proofs.Output.Tokens
import JsonSpan.Proofs.Strings.Codecs
import JsonSpan.Proofs.Text.Lossy
import JsonSpan.Proofs.Tree.Scan

/-!
# Highlighting JSON texts

In a JSON text each key, string, number and word is written in its style as a whole, and every other
byte is copied (`Layout.highlight_exact`). These tokens are the ones that the scanner reads
(`Place.cut`), and without the terminal codes the text is as before (`Style.strip`).
-/

namespace JsonSpan

open Highlight
open Utf8 (isValid)

/-! ### What the scanner takes as a whole -/

namespace Place

/-- The string, number or word at a place, by its kind and the place after it. -/
def scalar? (p : Place) : Option (Kind × Place) :=
  match p.kind?, p.skipValue with
  | some k, .ok q => if k.isContainer then none else some (k, q)
  | _, _ => none

theorem past_scalar? {p q : Place} {k : Kind} (h : p.scalar? = some (k, q)) : p.Past q := by
  unfold scalar? at h
  split at h
  · next hq =>
    split at h
    · cases h
    · cases h
      exact past_skipValue hq
  · cases h

/-- The bytes from a place on, as the scanner takes them: strings, numbers and words as a whole, with
their kinds, and other bytes one by one. -/
def cut (p : Place) : List (Option Kind × Bytes) :=
  match _ : p.scalar? with
  | some (k, q) => (some k, p.rest.take (q.offset - p.offset)) :: q.cut
  | none =>
    match _ : p.byte? with
    | some b => (none, [b]) :: p.next.cut
    | none => []
termination_by p.rest.length
decreasing_by
  · exact (past_scalar? ‹_›).length_lt
  · exact (past_next ‹_›).length_lt

theorem cut_scalar {offset : Nat} {t r : Bytes} {k : Kind}
    (hkind : (Place.mk offset (t ++ r)).kind? = some k) (hk : k.isContainer = false)
    (hskip : (Place.mk offset (t ++ r)).skipValue = .ok ⟨offset + t.length, r⟩) :
    cut ⟨offset, t ++ r⟩ = (some k, t) :: cut ⟨offset + t.length, r⟩ := by
  have hscalar : (Place.mk offset (t ++ r)).scalar? = some (k, ⟨offset + t.length, r⟩) := by
    rw [scalar?, hkind, hskip]
    simp [hk]
  rw [cut]
  split
  · next h =>
    cases hscalar.symm.trans h
    simp
  · next h => cases hscalar.symm.trans h

theorem cut_byte {offset : Nat} {b : UInt8} {r : Bytes} (h : ∀ k ∈ Kind.ofByte? b, k.isContainer) :
    cut ⟨offset, b :: r⟩ = (none, [b]) :: cut ⟨offset + 1, r⟩ := by
  have hscalar : (Place.mk offset (b :: r)).scalar? = none := by
    unfold scalar?
    split
    · next k q hk _ => rw [if_pos (h k hk)]
    · rfl
  rw [cut]
  split
  · next h => cases hscalar.symm.trans h
  · rfl

theorem cut_nil (offset : Nat) : cut ⟨offset, []⟩ = [] := by
  rw [cut]
  rfl

end Place

/-! ### Tokens of JSON -/

/-- The kind of value that a style is for. -/
def Style.kind? : Style → Option Kind
  | key | string => some .string
  | number => some .number
  | boolean => some .boolean
  | null => some .null
  | noMatch | error => none

namespace Highlight

/-- The bytes of a token, with the kind of value that its style is for. -/
def Lexeme.entry (x : Lexeme) : Option Kind × Bytes :=
  (x.style.bind Style.kind?, x.bytes)

/-- The tokens of JSON texts: a scalar in a style for its kind, or a byte between scalars. -/
inductive Lexeme.IsToken : Lexeme → Prop where
  | scalar (l : Layout) {style : Style} (h : style.kind? = some l.kind) : IsToken ⟨some style, l.bytes⟩
  | bare {b : UInt8} (h : b ∈ Byte.structural) : IsToken ⟨none, [b]⟩

theorem isToken_bare {bs : Bytes} (h : ∀ b ∈ bs, b ∈ Byte.structural) : ∀ x ∈ bare bs, x.IsToken := by
  intro x hx
  obtain ⟨b, hb, rfl⟩ := List.mem_map.1 hx
  exact .bare (h b hb)

end Highlight

theorem Container.isToken_labelLexemes (c : Container) (label : c.Label) :
    ∀ x ∈ c.labelLexemes label, x.IsToken := by
  cases c with
  | array => exact List.forall_mem_nil _
  | object =>
    obtain ⟨token, before, after⟩ := (label : Key)
    refine List.forall_mem_cons.2 ⟨.scalar (.string token) rfl, List.forall_mem_append.2 ⟨?_, ?_⟩⟩
    · exact isToken_bare before.structural
    · exact isToken_bare (List.forall_mem_cons.2 ⟨by decide, after.structural⟩)

mutual

theorem Layout.isToken_lexemes : (l : Layout) → ∀ x ∈ l.lexemes, x.IsToken
  | .null => List.forall_mem_singleton.2 (.scalar .null rfl)
  | .boolean true => List.forall_mem_singleton.2 (.scalar (.boolean true) rfl)
  | .boolean false => List.forall_mem_singleton.2 (.scalar (.boolean false) rfl)
  | .number n => List.forall_mem_singleton.2 (.scalar (.number n) rfl)
  | .string t => List.forall_mem_singleton.2 (.scalar (.string t) rfl)
  | .container c lead children => by
    simp only [Layout.lexemes, List.forall_mem_append]
    exact ⟨isToken_bare (List.forall_mem_cons.2 ⟨c.opener_structural, lead.structural⟩),
      children.isToken_lexemes true, isToken_bare (List.forall_mem_singleton.2 c.closer_structural)⟩

theorem Layouts.isToken_lexemes {c : Container} : (children : Layouts c) → (first : Bool) →
    ∀ x ∈ children.lexemes first, x.IsToken
  | .nil, _ => List.forall_mem_nil _
  | .cons before label value after more, first => by
    simp only [Layouts.lexemes, List.forall_mem_append]
    exact ⟨isToken_bare (by cases first <;> decide), isToken_bare before.structural,
      c.isToken_labelLexemes label, value.isToken_lexemes, isToken_bare after.structural,
      more.isToken_lexemes false⟩

end

namespace Highlight

/-! ### The scanner finds the tokens -/

theorem Lexeme.IsToken.cut {x : Lexeme} (h : x.IsToken) {r : Bytes}
    (hr : x.style = some .number → Numeral.Ends r) (offset : Nat) :
    Place.cut ⟨offset, x.bytes ++ r⟩ = x.entry :: Place.cut ⟨offset + x.bytes.length, r⟩ := by
  cases h with
  | @scalar l style h =>
    have hstops : l.Stops r := by
      cases l with
      | number n => exact hr (by cases style <;> cases h; rfl)
      | _ => trivial
    have hk : l.kind.isContainer = false := by
      cases style <;> cases h' : l.kind <;> rw [h'] at h <;> first | rfl | cases h
    have hcut := Place.cut_scalar (l.kind?_bytes offset r) hk (l.skipValue_bytes offset r hstops)
    rwa [← h] at hcut
  | @bare b h =>
    have hall : ∀ b ∈ Byte.structural, (Kind.ofByte? b).all Kind.isContainer := by decide
    refine Place.cut_byte fun k hk => ?_
    have hb := hall b h
    rwa [Option.mem_def.1 hk] at hb

theorem isScalarByte_of_extendsNumber {b : UInt8} (h : Byte.extendsNumber b) : isScalarByte b := by
  simp only [Byte.extendsNumber, Bool.or_eq_true, beq_iff_eq] at h
  rcases h with ((h | rfl) | rfl) | rfl
  · exact isScalarByte_of_isDigit h
  all_goals rfl

theorem Leads.ends_number {b : UInt8} {t r : Bytes} (h : Leads b t r)
    (hstyle : styleOf b r = some .number) : Numeral.Ends r := by
  have hb : b ≠ Byte.quote := by
    intro hb
    rw [styleOf, if_pos hb] at hstyle
    split at hstyle <;> cases hstyle
  have hscalar := isScalarByte_of_styleOf hb (Option.isSome_iff_exists.2 ⟨_, hstyle⟩)
  intro x hx
  rw [← Bool.not_eq_true]
  intro hextends
  exact absurd (isScalarByte_of_extendsNumber hextends) (by simp [h.stops hb hscalar x hx])

/-- If all tokens are those of JSON, they are what the scanner takes as a whole. -/
theorem cut_eq {json : Bytes} (h : ∀ x ∈ lexemes json, x.IsToken) (offset : Nat) :
    Place.cut ⟨offset, json⟩ = (lexemes json).map Lexeme.entry := by
  induction json using token_induction generalizing offset with
  | nil => rw [Place.cut_nil, lexemes_nil, List.map_nil]
  | token b t r hleads ih =>
    rw [hleads.lexemes] at h ⊢
    rw [List.forall_mem_cons] at h
    rw [List.map_cons, ← ih h.2 (offset + (b :: t).length)]
    exact h.1.cut hleads.ends_number offset

/-! ### Colour -/

/-- A token as it is shown: between the codes of its style, if it has one. -/
def Lexeme.colored (x : Lexeme) : Bytes :=
  match x.style with
  | some style => style.start ++ (x.bytes ++ Style.reset)
  | none => x.bytes

end Highlight

namespace Style

/-- Bytes without terminal codes, each of which goes from an escape byte to the letter `m`. They start
inside of a code, or outside. -/
def strip : Bool → Bytes → Bytes
  | _, [] => []
  | true, b :: r => strip (b != Byte.ofChar 'm') r
  | false, b :: r => if b = Byte.escape then strip true r else b :: strip false r

theorem strip_append {t : Bytes} (h : Byte.escape ∉ t) (r : Bytes) :
    strip false (t ++ r) = t ++ strip false r := by
  induction t with
  | nil => rfl
  | cons b t ih =>
    rw [List.mem_cons, not_or] at h
    rw [List.cons_append, strip, if_neg (Ne.symm h.1), ih h.2, List.cons_append]

theorem strip_start (style : Style) (r : Bytes) : strip false (style.start ++ r) = strip false r := by
  cases style <;> rfl

theorem afterResets_of_not_mem (extra : Bytes) {t : Bytes} (h : Byte.escape ∉ t) :
    afterResets extra t = t := by
  fun_induction afterResets extra t with
  | case1 a b c d r heq =>
    cases (List.cons.inj heq).1
    exact absurd List.mem_cons_self h
  | case2 a b c d r _ ih => rw [ih fun hmem => h (List.mem_cons_of_mem a hmem)]
  | case3 => rfl

end Style

namespace Highlight

/-- Without an escape byte in its tokens, text with colour is the text if the codes are left out. -/
theorem strip_colored {xs : List Lexeme} (h : ∀ x ∈ xs, Byte.escape ∉ x.bytes) :
    Style.strip false (xs.flatMap Lexeme.colored) = xs.flatMap Lexeme.bytes := by
  induction xs with
  | nil => rfl
  | cons x xs ih =>
    rw [List.forall_mem_cons] at h
    rw [List.flatMap_cons, List.flatMap_cons, ← ih h.2]
    obtain ⟨style, bytes⟩ := x
    cases style with
    | none => exact Style.strip_append h.1 _
    | some style =>
      simp only [Lexeme.colored, List.append_assoc]
      rw [Style.strip_start, Style.strip_append h.1]
      rfl

end Highlight

/-! ### Bytes of tokens -/

theorem TextUnit.le_of_mem_bytes (u : TextUnit) : ∀ b ∈ u.bytes, 0x20 ≤ b.toNat := by
  cases u with
  | plain c h => exact fun b hb => (isText_of_mem_encodeChar h hb).1
  | short e => cases e <;> decide
  | code n =>
    simp only [bytes, List.forall_mem_cons]
    exact ⟨by decide, by decide, n.a.isText.1, n.b.isText.1, n.c.isText.1, n.d.isText.1,
      List.forall_mem_nil _⟩

namespace Token

theorem isValid_bytes (t : Token) : isValid t.bytes := by
  have hquote : Byte.quote ≤ 0x7f := by decide
  have hbody : isValid t.body := t.encode_chars ▸ Utf8.isValid_encode t.chars
  exact (Utf8.isValid_append hquote (a := [])).2 ⟨rfl, (Utf8.isValid_append hquote).2 ⟨hbody, rfl⟩⟩

theorem escape_not_mem_bytes (t : Token) : Byte.escape ∉ t.bytes := by
  intro h
  rw [bytes, List.mem_append, List.mem_cons] at h
  rcases h with (h | h) | h
  · cases h
  · obtain ⟨u, _, hu⟩ := List.mem_flatMap.1 h
    exact absurd (u.le_of_mem_bytes _ hu) (by decide)
  · cases List.mem_singleton.1 h

end Token

namespace Highlight

theorem Lexeme.IsToken.isValid {x : Lexeme} (h : x.IsToken) : Utf8.isValid x.bytes := by
  cases h with
  | @scalar l style h =>
    cases l with
    | null => rfl
    | boolean b => cases b <;> rfl
    | number n => exact Utf8.isValid_of_ascii fun b hb => le_of_isScalarByte (n.isScalarByte b hb)
    | string t => exact t.isValid_bytes
    | container c lead children => cases c <;> cases style <;> cases h
  | @bare b h =>
    have hascii : ∀ b ∈ Byte.structural, Utf8.isValid [b] := by decide
    exact hascii b h

theorem Lexeme.IsToken.escape_not_mem {x : Lexeme} (h : x.IsToken) : Byte.escape ∉ x.bytes := by
  cases h with
  | @scalar l style h =>
    cases l with
    | null => exact (by decide : Byte.escape ∉ utf8 "null")
    | boolean b =>
      cases b with
      | false => exact (by decide : Byte.escape ∉ utf8 "false")
      | true => exact (by decide : Byte.escape ∉ utf8 "true")
    | number n => exact fun hmem => absurd (n.isScalarByte _ hmem) (by decide)
    | string t => exact t.escape_not_mem_bytes
    | container c lead children => cases c <;> cases style <;> cases h
  | @bare b h =>
    have hascii : ∀ b ∈ Byte.structural, Byte.escape ∉ [b] := by decide
    exact hascii b h

theorem Lexeme.IsToken.flatten_pieces {x : Lexeme} (h : x.IsToken) :
    (x.pieces true).flatten = x.colored := by
  have htext := Utf8.encode_decodeLossy_eq_iff.2 h.isValid
  have hescape := h.escape_not_mem
  obtain ⟨style, bytes⟩ := x
  cases style with
  | none => exact List.append_nil _
  | some style =>
    show (style.paint true (Utf8.encode (Utf8.decodeLossy bytes))).flatten = _
    rw [htext, Style.paint, if_pos rfl, Style.afterResets_of_not_mem _ hescape]
    simp [colored]

end Highlight

/-- A JSON text is highlighted by its tokens: keys, strings, numbers and words are written between the
codes of their styles, each as a whole, and all other bytes as they are. The tokens are those of the
scanner, and without the codes the text is as before. -/
theorem Layout.highlight_exact (lead : Blanks) (l : Layout) (trail : Blanks) :
    let text := lead.bytes ++ (l.bytes ++ trail.bytes)
    let tokens := bare lead.bytes ++ (l.lexemes ++ bare trail.bytes)
    Sink.unlimited.writeHighlighted true text = ⟨tokens.flatMap Lexeme.colored, .ok ()⟩ ∧
      tokens.flatMap Lexeme.bytes = text ∧
      (Place.ofOffset text 0).cut = tokens.map Lexeme.entry ∧
      Style.strip false (tokens.flatMap Lexeme.colored) = text := by
  intro text tokens
  have hfollows : Follows trail.bytes := List.append_nil trail.bytes ▸ Follows.nil.blanks trail
  have htrail : Highlight.lexemes trail.bytes = bare trail.bytes := by
    have := lexemes_bare trail.structural []
    rwa [List.append_nil, lexemes_nil, List.append_nil] at this
  have hlexemes : Highlight.lexemes text = tokens := by
    rw [lexemes_bare lead.structural, l.lexemes_bytes _ hfollows, htrail]
  have htokens : ∀ x ∈ Highlight.lexemes text, x.IsToken := by
    rw [hlexemes]
    exact List.forall_mem_append.2 ⟨isToken_bare lead.structural,
      List.forall_mem_append.2 ⟨l.isToken_lexemes, isToken_bare trail.structural⟩⟩
  have hbytes := flatMap_lexemes text
  have hstrip := strip_colored fun x hx => (htokens x hx).escape_not_mem
  have hcut := cut_eq htokens 0
  rw [← hlexemes]
  refine ⟨?_, hbytes, hcut, hstrip.trans hbytes⟩
  rw [Sink.writeHighlighted, Sink.write_eq rfl]
  rw [flatten_pieces fun x hx => (htokens x hx).flatten_pieces]

end JsonSpan

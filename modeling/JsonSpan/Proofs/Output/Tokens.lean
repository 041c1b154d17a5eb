import JsonSpan.Proofs.Output.Lexemes
import JsonSpan.Proofs.Tree.Numbers

/-!
# The tokens of JSON texts

A layout knows its tokens: keys, strings, numbers and words are whole, and every other byte is one by
itself (`Layout.lexemes`). Highlighting finds these tokens (`Layout.lexemes_bytes`), although it looks
at nothing but the bytes. What tells a key from a string is the colon after it, so the induction needs
to know that none follows a value, and that no number or word goes on behind it (`Follows`).
-/

namespace JsonSpan

open Highlight

/-! ### Tokens of a layout -/

/-- The bytes that are no part of a string, a number or a word: blanks, brackets, commas and colons. -/
def Byte.structural : Bytes :=
  [0x20, 0x09, 0x0a, 0x0d, openBrace, closeBrace, openBracket, closeBracket, comma, colon]

theorem Blanks.structural (blanks : Blanks) : ∀ b ∈ blanks.bytes, b ∈ Byte.structural := by
  intro b hb
  have hblank := blanks.blank b hb
  simp only [Byte.isBlank, Bool.or_eq_true, beq_iff_eq] at hblank
  rcases hblank with ((rfl | rfl) | rfl) | rfl <;> decide

theorem Container.opener_structural (c : Container) : c.opener ∈ Byte.structural := by
  cases c <;> decide

theorem Container.closer_structural (c : Container) : c.closer ∈ Byte.structural := by
  cases c <;> decide

/-- Bytes that are copied one by one. -/
def Highlight.bare (bs : Bytes) : List Lexeme :=
  bs.map fun b => ⟨none, [b]⟩

/-- The tokens in front of the value of a child. -/
def Container.labelLexemes : (c : Container) → c.Label → List Lexeme
  | array, _ => []
  | object, (key : Key) =>
    ⟨some .key, key.token.bytes⟩ :: (bare key.before.bytes ++ bare (Byte.colon :: key.after.bytes))

mutual

def Layout.lexemes : Layout → List Lexeme
  | .null => [⟨some .null, utf8 "null"⟩]
  | .boolean true => [⟨some .boolean, utf8 "true"⟩]
  | .boolean false => [⟨some .boolean, utf8 "false"⟩]
  | .number n => [⟨some .number, n.bytes⟩]
  | .string t => [⟨some .string, t.bytes⟩]
  | .container c lead children =>
    bare (c.opener :: lead.bytes) ++ (children.lexemes true ++ bare [c.closer])

def Layouts.lexemes {c : Container} (first : Bool) : Layouts c → List Lexeme
  | .nil => []
  | .cons before label value after more =>
    bare (if first then [] else [Byte.comma]) ++ (bare before.bytes ++ (c.labelLexemes label ++
      (value.lexemes ++ (bare after.bytes ++ more.lexemes false))))

end

/-! ### Finding one token -/

namespace Highlight

theorem stringLength_isBody {body : Bytes} (h : Dialect.IsBody body) (r : Bytes) :
    stringLength false (body ++ Byte.quote :: r) = body.length + 1 := by
  induction h with
  | nil =>
    rw [List.nil_append, stringLength.eq_def]
    rfl
  | escaped b _ ih =>
    rw [List.cons_append, List.cons_append, stringLength.eq_def]
    dsimp only
    rw [if_pos rfl, stringLength.eq_def]
    exact congrArg (· + 1 + 1) ih
  | plain hq hb _ ih =>
    rw [List.cons_append, stringLength.eq_def]
    dsimp only
    rw [if_neg hb, if_neg hq, ih, List.length_cons]

theorem Leads.of_isBody {body : Bytes} (h : Dialect.IsBody body) (r : Bytes) :
    Leads Byte.quote (body ++ [Byte.quote]) r := by
  rw [Leads, tokenLength, if_pos rfl, List.append_assoc, List.singleton_append,
    stringLength_isBody h, List.length_append]
  rfl

theorem Leads.of_run {b : UInt8} {t r : Bytes} (h : ∀ x ∈ b :: t, isScalarByte x)
    (hr : ∀ x ∈ r.head?, isScalarByte x = false) : Leads b t r := by
  rw [List.forall_mem_cons] at h
  have hb : b ≠ Byte.quote := by
    rintro rfl
    exact absurd h.1 (by decide)
  have hstop : r.takeWhile isScalarByte = [] := by
    cases r with
    | nil => rfl
    | cons x r => exact List.takeWhile_cons_of_neg (by simpa using hr x rfl)
  rw [Leads, tokenLength, if_neg hb, if_pos h.1, List.takeWhile_append_of_pos h.2, hstop,
    List.append_nil]

theorem lexemes_structural {b : UInt8} (hb : b ∈ Byte.structural) (r : Bytes) :
    lexemes (b :: r) = ⟨none, [b]⟩ :: lexemes r := by
  have hclass : ∀ b ∈ Byte.structural, b ≠ Byte.quote ∧ isScalarByte b = false := by decide
  obtain ⟨hquote, hscalar⟩ := hclass b hb
  have hleads : Leads b [] r := by
    rw [Leads, tokenLength, if_neg hquote, hscalar]
    rfl
  have hstyle : styleOf b r = none := by
    rw [← Option.not_isSome_iff_eq_none]
    intro h
    exact absurd (isScalarByte_of_styleOf hquote h) (by simp [hscalar])
  rw [show b :: r = b :: ([] ++ r) from rfl, hleads.lexemes, hstyle]

theorem lexemes_bare {bs : Bytes} (h : ∀ b ∈ bs, b ∈ Byte.structural) (r : Bytes) :
    lexemes (bs ++ r) = bare bs ++ lexemes r := by
  induction bs with
  | nil => rfl
  | cons b bs ih =>
    rw [List.forall_mem_cons] at h
    rw [List.cons_append, lexemes_structural h.1, ih h.2]
    rfl

theorem lexemes_string (t : Token) (r : Bytes) :
    lexemes (t.bytes ++ r) = ⟨some (if colonNext r then .key else .string), t.bytes⟩ :: lexemes r :=
  (Leads.of_isBody t.isBody r).lexemes

/-! ### What follows a value -/

/-- After a value, no colon makes a key of it, and no number or word goes on. -/
structure Follows (r : Bytes) : Prop where
  noColon : colonNext r = false
  stops : ∀ b ∈ r.head?, isScalarByte b = false

theorem colonNext_append (blanks : Blanks) (r : Bytes) :
    colonNext (blanks.bytes ++ r) = colonNext r := by
  have hspace : ∀ b ∈ blanks.bytes, Byte.isAsciiSpace b := by
    intro b hb
    rw [Byte.isAsciiSpace, blanks.blank b hb]
    rfl
  rw [colonNext, List.dropWhile_append_of_pos hspace, colonNext]

theorem Follows.nil : Follows [] :=
  ⟨rfl, nofun⟩

theorem Follows.cons {b : UInt8} (hb : b ∈ [Byte.comma, Byte.closeBrace, Byte.closeBracket])
    (r : Bytes) : Follows (b :: r) := by
  simp only [List.mem_cons, List.not_mem_nil, or_false] at hb
  rcases hb with rfl | rfl | rfl <;> exact ⟨rfl, fun _ h => by cases h; rfl⟩

theorem Follows.blanks {r : Bytes} (h : Follows r) (blanks : Blanks) :
    Follows (blanks.bytes ++ r) := by
  refine ⟨(colonNext_append blanks r).trans h.noColon, ?_⟩
  have hblank := blanks.structural
  cases hbytes : blanks.bytes with
  | nil => exact h.stops
  | cons b more =>
    intro x hx
    cases hx
    exact (by decide : ∀ b ∈ Byte.structural, isScalarByte b = false) b (hblank b (by simp [hbytes]))

end Highlight

theorem Layouts.follows {c : Container} (children : Layouts c) {r : Bytes} (h : Follows r) :
    Follows (children.bytes false ++ r) := by
  cases children with
  | nil => exact h
  | cons before label value after more => exact .cons (by decide) _

/-! ### Numbers -/

theorem Dialect.IsDigits.isScalarByte {t : Bytes} (h : IsDigits t) :
    ∀ b ∈ t, Highlight.isScalarByte b :=
  fun b hb => isScalarByte_of_isDigit (h.2 b hb)

theorem Dialect.IsFraction.isScalarByte {t : Bytes} (h : IsFraction t) :
    ∀ b ∈ t, Highlight.isScalarByte b := by
  cases h with
  | absent => exact List.forall_mem_nil _
  | present h => exact List.forall_mem_cons.2 ⟨rfl, h.isScalarByte⟩

theorem Dialect.IsExponent.isScalarByte {t : Bytes} (h : IsExponent t) :
    ∀ b ∈ t, Highlight.isScalarByte b := by
  cases h with
  | absent => exact List.forall_mem_nil _
  | @present mark sign t hm hs ht =>
    have hmark : Highlight.isScalarByte mark := by
      rcases hm with rfl | rfl <;> rfl
    have hsign : ∀ b ∈ sign, Highlight.isScalarByte b :=
      (by decide : ∀ sign ∈ [[], [Byte.plus], [Byte.minus]],
        ∀ b ∈ sign, Highlight.isScalarByte b) sign hs
    exact List.forall_mem_append.2 ⟨List.forall_mem_cons.2 ⟨hmark, hsign⟩, ht.isScalarByte⟩

namespace Numeral

theorem isScalarByte (n : Numeral) : ∀ b ∈ n.bytes, Highlight.isScalarByte b := by
  have hsign : ∀ b ∈ n.signBytes, Highlight.isScalarByte b := by
    unfold signBytes
    cases n.negative <;> decide
  rw [n.bytes_eq]
  simp only [List.forall_mem_append]
  exact ⟨hsign, n.whole.isDigits.isScalarByte, n.isFraction.isScalarByte, n.isExponent.isScalarByte⟩

theorem exists_bytes (n : Numeral) :
    ∃ b t, n.bytes = b :: t ∧ (b = Byte.minus ∨ Byte.isDigit b) := by
  obtain ⟨b, more, hwhole⟩ := List.exists_cons_of_ne_nil n.whole.isDigits.1
  rw [n.bytes_eq, signBytes]
  split
  · exact ⟨_, _, rfl, .inl rfl⟩
  · rw [hwhole]
    exact ⟨b, _, rfl, .inr (Digits.isDigit_of_mem_bytes (by rw [hwhole]; simp))⟩

theorem lexemes_bytes (n : Numeral) {r : Bytes} (h : Follows r) :
    Highlight.lexemes (n.bytes ++ r) = ⟨some .number, n.bytes⟩ :: Highlight.lexemes r := by
  obtain ⟨b, t, hbytes, hb⟩ := n.exists_bytes
  have hrun := n.isScalarByte
  rw [hbytes] at hrun ⊢
  have hquote : b ≠ Byte.quote := by
    rintro rfl
    exact absurd hb (by decide)
  have hstyle : styleOf b r = some .number := by
    rw [styleOf, if_neg hquote, if_pos hb]
  rw [List.cons_append, (Leads.of_run hrun h.stops).lexemes, hstyle]

end Numeral

/-! ### Finding all tokens -/

theorem Container.lexemes_label (c : Container) (label : c.Label) (r : Bytes) :
    Highlight.lexemes (c.labelBytes label ++ r) = c.labelLexemes label ++ Highlight.lexemes r := by
  cases c with
  | array => rfl
  | object =>
    obtain ⟨token, before, after⟩ := (label : Key)
    have hcolon : ∀ b ∈ Byte.colon :: after.bytes, b ∈ Byte.structural :=
      List.forall_mem_cons.2 ⟨by decide, after.structural⟩
    have hkey : colonNext (before.bytes ++ (Byte.colon :: after.bytes ++ r)) = true :=
      colonNext_append before _
    have hbytes : (object.labelBytes (Key.mk token before after)) ++ r =
        token.bytes ++ (before.bytes ++ (Byte.colon :: after.bytes ++ r)) := by
      simp [labelBytes]
    rw [hbytes, lexemes_string, hkey, lexemes_bare before.structural, lexemes_bare hcolon]
    simp [labelLexemes]

mutual

/-- The tokens that are found in the bytes of a value are its own. -/
theorem Layout.lexemes_bytes : (l : Layout) → (r : Bytes) → Follows r →
    Highlight.lexemes (l.bytes ++ r) = l.lexemes ++ Highlight.lexemes r
  | .null, r, h => (Leads.of_run (by decide) h.stops : Leads 0x6e [0x75, 0x6c, 0x6c] r).lexemes
  | .boolean true, r, h => (Leads.of_run (by decide) h.stops : Leads 0x74 [0x72, 0x75, 0x65] r).lexemes
  | .boolean false, r, h =>
    (Leads.of_run (by decide) h.stops : Leads 0x66 [0x61, 0x6c, 0x73, 0x65] r).lexemes
  | .number n, r, h => n.lexemes_bytes h
  | .string t, r, h => by
    rw [Layout.bytes, lexemes_string, h.noColon]
    rfl
  | .container c lead children, r, _ => by
    have hclose : Follows (c.closer :: r) := .cons (by cases c <;> decide) r
    have hlead := List.forall_mem_cons.2 ⟨c.opener_structural, lead.structural⟩
    have hbytes : (Layout.container c lead children).bytes ++ r =
        (c.opener :: lead.bytes) ++ (children.bytes true ++ c.closer :: r) := by
      simp [Layout.bytes]
    rw [hbytes, lexemes_bare hlead, children.lexemes_bytes true _ hclose,
      lexemes_structural c.closer_structural, Layout.lexemes]
    simp [bare]

theorem Layouts.lexemes_bytes {c : Container} : (children : Layouts c) → (first : Bool) →
    (r : Bytes) → Follows r →
    Highlight.lexemes (children.bytes first ++ r) = children.lexemes first ++ Highlight.lexemes r
  | .nil, _, _, _ => rfl
  | .cons before label value after more, first, r, h => by
    have hcomma : ∀ b ∈ if first then [] else [Byte.comma], b ∈ Byte.structural := by
      cases first <;> decide
    have hmore := more.follows h
    simp only [Layouts.bytes, Layouts.lexemes, List.append_assoc]
    rw [lexemes_bare hcomma, lexemes_bare before.structural, c.lexemes_label,
      value.lexemes_bytes _ (hmore.blanks after), lexemes_bare after.structural,
      more.lexemes_bytes false r h]

end

end JsonSpan

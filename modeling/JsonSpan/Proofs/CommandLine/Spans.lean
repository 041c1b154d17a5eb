import JsonSpan.Proofs.Number.Positional
import JsonSpan.Proofs.Tree.Layout
import JsonSpan.Proofs.Tree.Numbers
import JsonSpan.Span

/-!
# Spans in print

What is printed of spans is JSON: an array of objects, one for each span, with its two offsets as
numbers (`Span.exists_layout_jsonArray`).
-/

namespace JsonSpan

namespace Numeral

/-- A number as a numeral. -/
def ofNat (n : Nat) : Numeral where
  negative := false
  whole := .ofNat n
  fraction := none
  exponent := none
  noLeadingZero := by
    by_cases hn : n = 0
    · subst hn
      exact .inl rfl
    · exact .inr (Decimal.head?_toDigits (Nat.pos_of_ne_zero hn))

theorem bytes_ofNat (n : Nat) : (ofNat n).bytes = utf8 (toString n) := by
  have hascii : ∀ c ∈ (toString n).toList, c.toNat < 0x80 := by
    intro c hc
    rw [Nat.toString_eq_repr, Nat.toList_repr] at hc
    have hdigit := Decimal.isDigit_of_mem_toDigits hc
    have := (isDigit_iff.1 hdigit).2
    omega
  have hchars : (ofNat n).chars = (toString n).toList := by
    simp [chars, ofNat, Digits.ofNat, fractionChars, exponentChars]
  rw [bytes, hchars, ← Utf8.encode_ascii hascii]
  rfl

end Numeral

/-- The token of a text of which no character needs an escape. -/
def Token.plain (cs : List Char) (h : ∀ c ∈ cs, 0x20 ≤ c.toNat ∧ c ≠ '"' ∧ c ≠ '\\') : Token :=
  cs.pmap TextUnit.plain h

theorem Byte.isBlank_of_mem_nil : ∀ b ∈ ([] : Bytes), isBlank b :=
  nofun

def Blanks.none : Blanks :=
  ⟨[], Byte.isBlank_of_mem_nil⟩

namespace Span

/-- The member of an object with an offset, without any blanks. -/
def member (key : Token) (offset : Nat) (more : Layouts .object) : Layouts .object :=
  .cons .none ⟨key, .none, .none⟩ (.number (.ofNat offset)) .none more

/-- The key of the offset where a span starts. -/
def startKey : Token :=
  .plain "start".toList (by decide)

/-- The key of the offset where a span ends. -/
def endKey : Token :=
  .plain "end".toList (by decide)

/-- The object with the offsets of a span. -/
def tree (s : Span) : Json :=
  .object [(startKey, .number (.ofNat s.start)), (endKey, .number (.ofNat s.stop))]

/-- The object as it is printed. -/
def layout (s : Span) : Layout :=
  .container .object .none (member startKey s.start (member endKey s.stop .nil))

theorem bytes_layout (s : Span) : s.layout.bytes = utf8 s.json := by
  have hopen : utf8 "\x7b\"start\":" = Byte.openBrace :: (startKey.bytes ++ [Byte.colon]) := by decide
  have hcomma : utf8 ",\"end\":" = Byte.comma :: (endKey.bytes ++ [Byte.colon]) := by decide
  have hclose : utf8 "\x7d" = [Byte.closeBrace] := by decide
  simp [layout, member, Layout.bytes, Layouts.bytes, Container.labelBytes, Container.opener,
    Container.closer, Blanks.none, Numeral.bytes_ofNat, json, utf8_append, hopen, hcomma, hclose]

/-- The objects of spans, as they are printed. -/
def layouts : List Span → Layouts .array
  | [] => .nil
  | s :: more => .cons .none () s.layout .none (layouts more)

theorem trees_layouts (spans : List Span) : (layouts spans).trees.map (·.2) = spans.map tree := by
  induction spans with
  | nil => rfl
  | cons s more ih => exact congrArg (s.tree :: ·) ih

theorem bytes_layouts_cons (first : Bool) (s : Span) (more : List Span) :
    (layouts (s :: more)).bytes first =
      (if first then [] else [Byte.comma]) ++ utf8 (",".intercalate ((s :: more).map json)) := by
  induction more generalizing first s with
  | nil =>
    rw [List.map_singleton, String.intercalate_singleton, ← bytes_layout]
    simp [layouts, Layouts.bytes, Container.labelBytes, Blanks.none]
  | cons t more ih =>
    have hintercalate : ",".intercalate ((s :: t :: more).map json) =
        s.json ++ "," ++ ",".intercalate ((t :: more).map json) := by
      apply String.toList_inj.1
      simp [String.toList_intercalate]
    have hcomma : utf8 "," = [Byte.comma] := by decide
    show (if first then [] else [Byte.comma]) ++
      (s.layout.bytes ++ (layouts (t :: more)).bytes false) = _
    rw [ih, hintercalate, utf8_append, utf8_append, ← bytes_layout, hcomma]
    simp

theorem bytes_layouts (spans : List Span) :
    (layouts spans).bytes true = utf8 (",".intercalate (spans.map json)) := by
  cases spans with
  | nil => rfl
  | cons s more => exact bytes_layouts_cons true s more

theorem exists_layout_jsonArray (spans : List Span) :
    ∃ l : Layout, l.bytes = utf8 (jsonArray spans) ∧ l.tree = .array (spans.map tree) := by
  refine ⟨.container .array .none (layouts spans), ?_, congrArg Json.array (trees_layouts spans)⟩
  rw [jsonArray, utf8_append, utf8_append, ← bytes_layouts]
  rfl

end Span

end JsonSpan

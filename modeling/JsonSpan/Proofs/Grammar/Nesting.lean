import JsonSpan.Proofs.Grammar.Balance

/-!
# The brackets of a path

Where the brackets of a spelled path are, at every depth, and which of them hold a filter
(`Brackets`). What looks like a bracket in a literal is none: a text is `Flat` if brackets,
parentheses and quotes stand in its literals only. A bracket encloses such a text or a filter, and
parentheses stand only in filters. Every text that spells a path is made like that
(`exists_brackets`).
-/

namespace JsonSpan.Spelling

/-! ### Texts without brackets -/

/-- A text in which brackets, parentheses and quotes stand in literals only. A regular expression
comes with the operator before it. -/
inductive Flat : List Char → Prop where
  | nil : Flat []
  | append {t u : List Char} (h : Flat t) (h' : Flat u) : Flat (t ++ u)
  | plain {c : Char} (h : c ∉ delimiters) : Flat [c]
  | string {close : Char} {t : List Char} (hq : close = '"' ∨ close = '\'') (h : Body close t) :
    Flat (close :: t ++ [close])
  | regex {w t : List Char} (hw : Blank w) (h : Body '/' t) :
    Flat ('=' :: '~' :: w ++ ('/' :: t ++ ['/']))

theorem Flat.of_forall {t : List Char} (h : ∀ c ∈ t, c ∉ delimiters) : Flat t := by
  induction t with
  | nil => exact .nil
  | cons c t ih =>
    have hmore := ih fun d hd => h d (by simp [hd])
    exact .append (.plain (h c (by simp))) hmore

theorem Blank.plain {w : List Char} (h : Blank w) : ∀ c ∈ w, c ∉ delimiters := by
  have hall : ∀ c ∈ [' ', '\t', '\r', '\n'], c ∉ delimiters := by decide
  exact fun c hc => hall c (mem_blanks (h c hc))

theorem tokenwise_flat : Tokenwise Flat where
  nil := .nil
  append := .append
  cons hc ht := by
    have hall : ∀ c ∈ delimiters, c ∈ special := by decide
    exact .append (.plain fun hmem => hc (hall _ hmem)) ht
  name h := .append (.plain (c := '.') (by decide)) (.of_forall h.plain)
  string := by
    rintro _ _ ⟨hq, h, _⟩
    exact .string hq h
  regex hw h hf := by
    have hall : ∀ c ∈ ['i', 'm', 's', 'x'], c ∉ delimiters := by decide
    have hflags := Flat.of_forall fun c hc => hall c (hf c hc)
    simpa using (Flat.regex hw h).append hflags

/-! ### Brackets -/

/-- A bracket in a text: the offset of its `[` and the offset behind its `]`. If it holds a filter,
that has a span, from behind its `(` to behind the `)` that matches it. -/
structure Bracket where
  start : Nat
  stop : Nat
  filter? : Option Span
  deriving DecidableEq, Repr

namespace Bracket

/-- Whether the bracket is opened in the first bytes of the text and not closed in them. -/
def IsOpen (b : Bracket) (n : Nat) : Prop :=
  b.start < n ∧ n < b.stop

instance (b : Bracket) (n : Nat) : Decidable (b.IsOpen n) :=
  inferInstanceAs (Decidable (_ ∧ _))

/-- The error for a bracket that is open after the first bytes of the text: its filter is reported if
it is open too. -/
def error (b : Bracket) (n : Nat) : PathError :=
  match b.filter? with
  | some filter =>
    if filter.start ≤ n ∧ n < filter.stop then .openFilter b.start else .openBracket b.start
  | none => .openBracket b.start

end Bracket

/-- The brackets of a text that stands at an offset, at every depth. -/
inductive Brackets : Scope → Nat → List Char → List Bracket → Prop where
  | flat {l : Scope} {o : Nat} {t : List Char} (h : Flat t) : Brackets l o t []
  | append {l : Scope} {o : Nat} {t u : List Char} {bs bs' : List Bracket} (h : Brackets l o t bs)
    (h' : Brackets l (o + Utf8.size t) u bs') : Brackets l o (t ++ u) (bs ++ bs')
  | bracket {l : Scope} {o : Nat} {t : List Char} (h : Flat t) :
    Brackets l o ('[' :: t ++ [']']) [⟨o, o + Utf8.size t + 2, none⟩]
  | filter {l : Scope} {o : Nat} {w w₁ t w' : List Char} {bs : List Bracket} (hw : Blank w)
    (h₁ : Blank w₁) (h : Brackets .condition (o + Utf8.size w + Utf8.size w₁ + 3) t bs)
    (hw' : Blank w') :
    Brackets l o ('[' :: w ++ '?' :: w₁ ++ '(' :: t ++ ')' :: w' ++ [']'])
      (⟨o, o + Utf8.size w + Utf8.size w₁ + Utf8.size t + Utf8.size w' + 5,
        some ⟨o + Utf8.size w + Utf8.size w₁ + 3,
          o + Utf8.size w + Utf8.size w₁ + Utf8.size t + 4⟩⟩ :: bs)
  | parenthesis {o : Nat} {t : List Char} {bs : List Bracket}
    (h : Brackets .condition (o + 1) t bs) : Brackets .condition o ('(' :: t ++ [')']) bs

theorem layered_brackets :
    Layered Flat fun l t => ∀ o, ∃ bs, Brackets l o t bs where
  tokens := tokenwise_flat
  flat h _ := ⟨[], .flat h⟩
  append {_ t _} h h' o := by
    obtain ⟨bs, hbs⟩ := h o
    obtain ⟨bs', hbs'⟩ := h' (o + Utf8.size t)
    exact ⟨bs ++ bs', .append hbs hbs'⟩
  bracket h _ := ⟨_, .bracket h⟩
  filter hw h₁ h hw' _ := by
    obtain ⟨bs, hbs⟩ := h _
    exact ⟨_, .filter hw h₁ hbs hw'⟩
  parenthesis h o := by
    obtain ⟨bs, hbs⟩ := h (o + 1)
    exact ⟨bs, .parenthesis hbs⟩

/-- A text that spells a path has its brackets somewhere. -/
theorem exists_brackets {t : List Char} {p : Path} (h : PathText t p) :
    ∃ bs, Brackets .path 0 t bs :=
  layered_brackets.path h 0

end JsonSpan.Spelling

import JsonSpan.Proofs.Grammar.Tokens

/-!
# Properties of spelled texts, part by part

A property of texts that holds of the parts of every rule's text together holds of all texts that
spell a path. Most parts are single characters that mean nothing to a scanner of characters; what
does mean something comes in units, which the property has to hold of as a whole: a name with its
dot, a string, a regular expression with its operator (`Tokenwise`), and what brackets or parentheses
enclose (`Compositional`).

Brackets do not enclose just anything: either there are no other delimiters in them than those of
literals, or they hold a filter; and parentheses stand only in filters. A property that tells these
layers apart goes through the grammar in the same way (`Layered`).
-/

namespace JsonSpan.Spelling

/-- The characters that can mean something to a scanner by themselves. -/
def special : List Char :=
  ['[', ']', '(', ')', '"', '\'', '/', '\\', 'i', 'N']

/-- A property that texts hand on to the text they are put together to, and that characters without
a meaning do not end. -/
structure Additive (P : List Char → Prop) : Prop where
  nil : P []
  append : ∀ {t u : List Char}, P t → P u → P (t ++ u)
  cons : ∀ {c : Char} {t : List Char}, c ∉ special → P t → P (c :: t)

/-- A property that also holds of the units that are no structure. -/
structure Tokenwise (P : List Char → Prop) : Prop extends Additive P where
  name : ∀ {t : List Char} {s : String}, NameText t s → P ('.' :: t)
  string : ∀ {t : List Char} {s : String}, StringText t s → P t
  regex : ∀ {w t flags : List Char}, Blank w → Body '/' t →
    (∀ c ∈ flags, c ∈ ['i', 'm', 's', 'x']) → P ('=' :: '~' :: (w ++ '/' :: (t ++ '/' :: flags)))

/-- Where a text stands: between the segments of the whole path, or in a condition. -/
inductive Scope where
  | path
  | condition

/-- A property `P` of texts, which may depend on where they stand, that goes through the grammar
together with a property `F` of the texts without structure. -/
structure Layered (F : List Char → Prop) (P : Scope → List Char → Prop) : Prop where
  tokens : Tokenwise F
  flat : ∀ {l : Scope} {t : List Char}, F t → P l t
  append : ∀ {l : Scope} {t u : List Char}, P l t → P l u → P l (t ++ u)
  bracket : ∀ {l : Scope} {t : List Char}, F t → P l ('[' :: t ++ [']'])
  filter : ∀ {l : Scope} {w w₁ t w' : List Char}, Blank w → Blank w₁ → P .condition t → Blank w' →
    P l ('[' :: w ++ '?' :: w₁ ++ '(' :: t ++ ')' :: w' ++ [']'])
  parenthesis : ∀ {t : List Char}, P .condition t → P .condition ('(' :: t ++ [')'])

/-- A property that parts of a spelled text hand on to the whole. -/
structure Compositional (P : List Char → Prop) : Prop extends Additive P where
  name : ∀ {t : List Char} {s : String}, NameText t s → P ('.' :: t)
  string : ∀ {t : List Char} {s : String}, StringText t s → P t
  regex : ∀ {w t flags : List Char}, Blank w → Body '/' t →
    (∀ c ∈ flags, c ∈ ['i', 'm', 's', 'x']) → P ('=' :: '~' :: (w ++ '/' :: (t ++ '/' :: flags)))
  bracket : ∀ {t : List Char}, P t → P ('[' :: t ++ [']'])
  parenthesis : ∀ {t : List Char}, P t → P ('(' :: t ++ [')'])

namespace Additive

variable {P : List Char → Prop} (hP : Additive P)

include hP

theorem of_forall {t : List Char} (h : ∀ c ∈ t, c ∉ special) : P t := by
  induction t with
  | nil => exact hP.nil
  | cons c t ih => exact hP.cons (h c (by simp)) (ih fun d hd => h d (by simp [hd]))

theorem blank {w : List Char} (h : Blank w) : P w := by
  have hall : ∀ c ∈ [' ', '\t', '\r', '\n'], c ∉ special := by decide
  exact hP.of_forall fun c hc => hall c (mem_blanks (h c hc))

/-! ### Tokens -/

theorem digits (ds : Digits) : P ds.chars := by
  have hall : ∀ c ∈ special, c.isDigit = false := by decide
  refine hP.of_forall fun c hc hmem => ?_
  have hdigit := ds.digits c hc
  rw [hall c hmem] at hdigit
  cases hdigit

theorem integer {t : List Char} {i : Int64} (h : IntegerText t i) : P t := by
  cases h with
  | positive ds _ => exact hP.digits ds
  | negative ds _ => exact hP.cons (by decide) (hP.digits ds)

theorem exponent (e : Exponent) : P e.chars := by
  have hmark : (if e.capital then 'E' else 'e') ∉ special := by
    cases e.capital <;> decide
  have hsign : P e.sign.chars := by
    cases e.sign with
    | none => exact hP.nil
    | plus => exact hP.cons (by decide) hP.nil
    | minus => exact hP.cons (by decide) hP.nil
  exact hP.append (hP.cons hmark hsign) (hP.digits e.digits)

theorem numeral (n : Numeral) : P n.chars := by
  have hsign : P (if n.negative then ['-'] else []) := by
    cases n.negative with
    | true => exact hP.cons (by decide) hP.nil
    | false => exact hP.nil
  have hfraction : P n.fractionChars := by
    rw [Numeral.fractionChars]
    cases n.fraction with
    | none => exact hP.nil
    | some ds => exact hP.cons (by decide) (hP.digits ds)
  have hexponent : P n.exponentChars := by
    rw [Numeral.exponentChars]
    cases n.exponent with
    | none => exact hP.nil
    | some e => exact hP.exponent e
  exact hP.append (hP.append (hP.append hsign (hP.digits n.whole)) hfraction) hexponent

theorem comparison {t : List Char} {op : Comparison} (h : ComparisonText t op) : P t := by
  cases h <;> exact hP.of_forall (by decide)

theorem bound {t : List Char} {b : Option Int64} (h : BoundText t b) : P t := by
  cases h with
  | none => exact hP.nil
  | some h => exact hP.integer h

theorem slice {t : List Char} {start stop step : Option Int64} (h : SliceText t start stop step) :
    P t := by
  cases h with
  | two h hw hw' h' =>
    have hfront := hP.append (hP.append (hP.bound h) (hP.blank hw))
      (hP.cons (c := ':') (by decide) (hP.blank hw'))
    exact hP.append hfront (hP.bound h')
  | three h h₁ h₂ h' h₃ h₄ h'' =>
    have hfront := hP.append (hP.append (hP.bound h) (hP.blank h₁))
      (hP.cons (c := ':') (by decide) (hP.blank h₂))
    have hmiddle := hP.append (hP.append hfront (hP.bound h')) (hP.blank h₃)
    exact hP.append (hP.append hmiddle (hP.cons (by decide) (hP.blank h₄))) (hP.bound h'')

end Additive

namespace Tokenwise

variable {P : List Char → Prop} (hP : Tokenwise P)

include hP

theorem literal {t : List Char} {v : Literal} (h : LiteralText t v) : P t := by
  cases h with
  | number n => exact hP.numeral n
  | string h => exact hP.string h
  | true => exact hP.of_forall (by decide)
  | false => exact hP.of_forall (by decide)
  | null => exact hP.of_forall (by decide)

theorem pattern {t w : List Char} {p : Pattern} (h : PatternText t p) (hw : Blank w) :
    P ('=' :: '~' :: (w ++ t)) := by
  cases h with
  | regex h hf _ => exact hP.regex hw h hf
  | string h _ =>
    exact hP.cons (by decide) (hP.cons (by decide) (hP.append (hP.blank hw) (hP.string h)))

theorem members {t : List Char} {ss : List Selector} (h : MembersText t ss) : P t := by
  have hmember : ∀ {t : List Char} {s : Selector}, MemberText t s → P t := by
    intro t s h
    cases h with
    | name h => exact hP.string h
    | index h => exact hP.integer h
  induction h with
  | one h => exact hmember h
  | cons h hw hw' _ ih =>
    have hfront := hP.append (hP.append (hmember h) (hP.blank hw))
      (hP.cons (c := ',') (by decide) (hP.blank hw'))
    exact hP.append hfront ih

end Tokenwise

namespace Layered

variable {F : List Char → Prop} {P : Scope → List Char → Prop}

/-! ### Texts without structure -/

section

variable (hP : Layered F P)

include hP

theorem blank {l : Scope} {w : List Char} (h : Blank w) : P l w :=
  hP.flat (hP.tokens.blank h)

theorem cons {l : Scope} {c : Char} {t : List Char} (hc : c ∉ special) (h : P l t) : P l (c :: t) :=
  hP.append (hP.flat (hP.tokens.cons hc hP.tokens.nil)) h

theorem flatSelector {l : Scope} {w t w' : List Char} (hw : Blank w) (h : F t) (hw' : Blank w') :
    P l ('[' :: w ++ t ++ w' ++ [']']) := by
  have hinside := hP.tokens.append (hP.tokens.append (hP.tokens.blank hw) h) (hP.tokens.blank hw')
  simpa using hP.bracket hinside

end

/-! ### Segments and conditions -/

mutual

theorem segments (hP : Layered F P) :
    ∀ {l : Scope} {t : List Char} {ss : List Segment}, SegmentsText t ss → P l t
  | _, _, _, .nil => hP.flat hP.tokens.nil
  | _, _, _, .cons h h' => hP.append (segment hP h) (segments hP h')

theorem segment (hP : Layered F P) :
    ∀ {l : Scope} {t : List Char} {ss : List Segment}, SegmentText t ss → P l t
  | _, _, _, .name h => hP.flat (hP.tokens.name h)
  | _, _, _, .wildcard => hP.flat (hP.tokens.of_forall (by decide))
  | _, _, _, .bracket h => bracketed hP h
  | _, _, _, .belowName h => hP.cons (by decide) (hP.flat (hP.tokens.name h))
  | _, _, _, .belowWildcard => hP.flat (hP.tokens.of_forall (by decide))
  | _, _, _, .belowBracket h => hP.cons (by decide) (hP.cons (by decide) (bracketed hP h))

theorem bracketed (hP : Layered F P) :
    ∀ {l : Scope} {t : List Char} {s : Segment}, BracketText t s → P l t
  | _, _, _, .mk hw h hw' => selector hP h hw hw'

theorem selector (hP : Layered F P) :
    ∀ {l : Scope} {t w w' : List Char} {s : Segment}, SelectorText t s → Blank w → Blank w' →
      P l ('[' :: w ++ t ++ w' ++ [']'])
  | l, _, _, _, _, .filter h₁ h₂ h h₃, hw, hw' => by
    have hinside := hP.append (hP.append (hP.blank h₂) (or hP h)) (hP.blank h₃)
    have hall := hP.filter (l := l) hw h₁ hinside hw'
    simpa using hall
  | _, _, _, _, _, .union h _, hw, hw' => hP.flatSelector hw (hP.tokens.members h) hw'
  | _, _, _, _, _, .slice h _, hw, hw' => hP.flatSelector hw (hP.tokens.slice h) hw'
  | _, _, _, _, _, .wildcard, hw, hw' => hP.flatSelector hw (hP.tokens.of_forall (by decide)) hw'
  | _, _, _, _, _, .index h, hw, hw' => hP.flatSelector hw (hP.tokens.integer h) hw'
  | _, _, _, _, _, .name h, hw, hw' => hP.flatSelector hw (hP.tokens.string h) hw'

theorem or (hP : Layered F P) : ∀ {t : List Char} {c : Condition}, OrText t c → P .condition t
  | _, _, .one h => and hP h
  | _, _, .or h hw hw' h' => by
    have hsign : P .condition ('|' :: '|' :: _) :=
      hP.cons (by decide) (hP.cons (by decide) (hP.blank hw'))
    exact hP.append (hP.append (hP.append (or hP h) (hP.blank hw)) hsign) (and hP h')

theorem and (hP : Layered F P) : ∀ {t : List Char} {c : Condition}, AndText t c → P .condition t
  | _, _, .one h => unary hP h
  | _, _, .and h hw hw' h' => by
    have hsign : P .condition ('&' :: '&' :: _) :=
      hP.cons (by decide) (hP.cons (by decide) (hP.blank hw'))
    exact hP.append (hP.append (hP.append (and hP h) (hP.blank hw)) hsign) (unary hP h')

theorem unary (hP : Layered F P) : ∀ {t : List Char} {c : Condition}, UnaryText t c → P .condition t
  | _, _, .not hw h => hP.cons (by decide) (hP.append (hP.blank hw) (unary hP h))
  | _, _, .group hw h hw' =>
    hP.parenthesis (hP.append (hP.append (hP.blank hw) (or hP h)) (hP.blank hw'))
  | _, _, .compare h hw ho hw' h' => by
    have hsign := hP.append (hP.append (hP.append (operand hP h) (hP.blank hw))
      (hP.flat (hP.tokens.comparison ho))) (hP.blank hw')
    exact hP.append hsign (operand hP h')
  | _, _, .like h hw hw' h' => by
    have hpattern := hP.flat (l := .condition) (hP.tokens.pattern h' hw')
    have hall := hP.append (hP.append (operand hP h) (hP.blank hw)) hpattern
    simpa using hall
  | _, _, .present h => query hP h

theorem operand (hP : Layered F P) :
    ∀ {t : List Char} {a : Operand}, OperandText t a → P .condition t
  | _, _, .query h => query hP h
  | _, _, .literal h => hP.flat (hP.tokens.literal h)

theorem query (hP : Layered F P) : ∀ {t : List Char} {a : Operand}, QueryText t a → P .condition t
  | _, _, .current h => hP.cons (by decide) (segments hP h)
  | _, _, .root h => hP.cons (by decide) (segments hP h)

end

theorem path (hP : Layered F P) {t : List Char} {p : Path} (h : PathText t p) : P .path t := by
  obtain ⟨h⟩ := h
  exact hP.cons (by decide) (hP.segments h)

end Layered

namespace Compositional

variable {P : List Char → Prop} (hP : Compositional P)

include hP

/-- A property that brackets and parentheses hand on, whatever they enclose, goes through all layers
alike. -/
theorem layered : Layered P fun _ => P where
  tokens := ⟨hP.toAdditive, hP.name, hP.string, hP.regex⟩
  flat := id
  append := hP.append
  bracket := hP.bracket
  filter hw h₁ h hw' := by
    have hinside := hP.cons (c := '?') (by decide) (hP.append (hP.blank h₁) (hP.parenthesis h))
    have hall := hP.bracket (hP.append (hP.append (hP.blank hw) hinside) (hP.blank hw'))
    simpa using hall
  parenthesis := hP.parenthesis

theorem segment {t : List Char} {ss : List Segment} (h : SegmentText t ss) : P t :=
  hP.layered.segment (l := .path) h

theorem or {t : List Char} {c : Condition} (h : OrText t c) : P t :=
  hP.layered.or h

theorem and {t : List Char} {c : Condition} (h : AndText t c) : P t :=
  hP.layered.and h

theorem operand {t : List Char} {a : Operand} (h : OperandText t a) : P t :=
  hP.layered.operand h

theorem path {t : List Char} {p : Path} (h : PathText t p) : P t :=
  hP.layered.path h

end Compositional

end JsonSpan.Spelling

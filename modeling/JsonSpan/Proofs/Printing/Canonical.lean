import JsonSpan.Proofs.Printing.Form
import JsonSpan.Proofs.Printing.Regrouping

/-!
# The canonical text spells the path

A well-formed path whose tokens can be read is spelled by its canonical text, up to the grouping of
chains (`Path.pathText_text`). A condition is printed in three ways, bare, as an item of a chain of
`&&`, and after `!`, and it has to stand in each of them and as the next item of a chain
(`Condition.Printed`).
-/

namespace JsonSpan.Spelling

theorem blank_nil : Blank [] := by
  intro c hc
  cases hc

theorem blank_space : Blank [' '] := by
  intro c hc
  rw [List.mem_singleton.1 hc]
  rfl

/-! ### Selectors -/

theorem membersText_chars {ss : List Selector} (h : ss ≠ []) :
    MembersText ([','].intercalate (ss.map Selector.chars)) ss := by
  have hmember : ∀ s : Selector, MemberText s.chars s := by
    intro s
    cases s with
    | name s => exact .name (stringText_quote s)
    | index i => exact .index (integerText_indexChars i)
  induction ss with
  | nil => exact absurd rfl h
  | cons s ss ih =>
    cases ss with
    | nil =>
      rw [List.map_singleton, List.intercalate_singleton]
      exact .one (hmember s)
    | cons s' ss =>
      have hmore := MembersText.cons (hmember s) blank_nil blank_nil (ih (by simp))
      rw [List.map_cons, List.map_cons, List.intercalate_cons_cons]
      simpa using hmore

theorem sliceText_chars (start stop step : Option Int64) :
    SliceText (sliceChars start stop step) start stop step := by
  have hbound : ∀ b : Option Int64, BoundText ((b.map indexChars).getD []) b := by
    intro b
    cases b with
    | none => exact .none
    | some i => exact .some (integerText_indexChars i)
  cases step with
  | none =>
    have htwo := SliceText.two (hbound start) blank_nil blank_nil (hbound stop)
    simpa [sliceChars] using htwo
  | some i =>
    have hthree := SliceText.three (hbound start) blank_nil blank_nil (hbound stop) blank_nil
      blank_nil (hbound (some i))
    simpa [sliceChars] using hthree

theorem nameText_toList {name : String} (h : isPlainName name.toList) :
    NameText name.toList name := by
  rw [isPlainName, Bool.and_eq_true, Bool.not_eq_true', List.isEmpty_eq_false_iff,
    List.all_eq_true] at h
  have htext := NameText.mk h.1 h.2
  rwa [String.ofList_toList] at htext

theorem bracketText_of {t : List Char} {s : Segment} (h : SelectorText t s) :
    BracketText ('[' :: t ++ [']']) s := by
  have hbracket := BracketText.mk blank_nil h blank_nil
  simpa using hbracket

end JsonSpan.Spelling

namespace JsonSpan

/-! ### Conditions -/

open Spelling

/-- What the text of a condition spells wherever it is printed: bare, in a chain of `||` and as the
next item of one, in a chain of `&&` and as the next item of one, and after `!`. -/
structure Condition.Printed (c : Condition) : Prop where
  bare : OrText c.chars c.regroup
  nextOr : ∀ {t : List Char} {a : Condition}, OrText t a →
    OrText (t ++ " || ".toList ++ c.chars) (a.joinOr c.regroup)
  item : AndText (parenthesize c.isOr c.chars) c.regroup
  nextAnd : ∀ {t : List Char} {a : Condition}, AndText t a →
    AndText (t ++ " && ".toList ++ parenthesize c.isOr c.chars) (a.joinAnd c.regroup)
  tight : UnaryText (parenthesize (!c.isTight) c.chars) c.regroup

namespace Condition

theorem or_spaced {t u : List Char} {a b : Condition} (h : OrText t a) (h' : AndText u b) :
    OrText (t ++ " || ".toList ++ u) (.or a b) := by
  have hor := OrText.or h blank_space blank_space h'
  simpa using hor

theorem and_spaced {t u : List Char} {a b : Condition} (h : AndText t a) (h' : UnaryText u b) :
    AndText (t ++ " && ".toList ++ u) (.and a b) := by
  have hand := AndText.and h blank_space blank_space h'
  simpa using hand

theorem group_bare {t : List Char} {c : Condition} (h : OrText t c) :
    UnaryText (parenthesize true t) c := by
  have hgroup := UnaryText.group blank_nil h blank_nil
  simpa [parenthesize] using hgroup

theorem printed_of_unary {c : Condition} (hor : c.isOr = false) (hand : c.isAnd = false)
    (h : UnaryText c.chars c.regroup) : c.Printed := by
  have hbare : OrText c.chars c.regroup := .one (.one h)
  refine ⟨hbare, ?_, ?_, ?_, ?_⟩
  · intro t a ht
    rw [joinOr_of_not_isOr a (by rwa [isOr_regroup])]
    exact or_spaced ht (.one h)
  · rw [hor]
    exact .one h
  · intro t a ht
    rw [joinAnd_of_not_isAnd a (by rwa [isAnd_regroup]), hor]
    exact and_spaced ht h
  · cases c.isTight with
    | true => exact h
    | false => exact group_bare hbare

theorem printed_and {left right : Condition} (hl : left.Printed) (hr : right.Printed) :
    (Condition.and left right).Printed := by
  have hchars : (Condition.and left right).chars = parenthesize left.isOr left.chars ++
      " && ".toList ++ parenthesize right.isOr right.chars := by
    rw [Condition.chars]
  have hitem : AndText (Condition.and left right).chars (Condition.and left right).regroup := by
    rw [hchars]
    exact hr.nextAnd hl.item
  refine ⟨.one hitem, ?_, hitem, ?_, group_bare (.one hitem)⟩
  · intro t a ht
    rw [joinOr_of_not_isOr a (isOr_regroup _)]
    exact or_spaced ht hitem
  · -- the items of the chain are put one by one after the chain before it
    intro t a ht
    show AndText (t ++ " && ".toList ++ (Condition.and left right).chars)
      (a.joinAnd (left.regroup.joinAnd right.regroup))
    rw [joinAnd_joinAnd, hchars]
    have hnext := hr.nextAnd (hl.nextAnd ht)
    simpa using hnext

theorem printed_or {left right : Condition} (hl : left.Printed) (hr : right.Printed) :
    (Condition.or left right).Printed := by
  have hchars : (Condition.or left right).chars = left.chars ++ " || ".toList ++ right.chars := by
    rw [Condition.chars]
  have hbare : OrText (Condition.or left right).chars (Condition.or left right).regroup := by
    rw [hchars]
    exact hr.nextOr hl.bare
  have hgroup := group_bare hbare
  refine ⟨hbare, ?_, .one hgroup, ?_, hgroup⟩
  · intro t a ht
    show OrText (t ++ " || ".toList ++ (Condition.or left right).chars)
      (a.joinOr (left.regroup.joinOr right.regroup))
    rw [joinOr_joinOr, hchars]
    have hnext := hr.nextOr (hl.nextOr ht)
    simpa using hnext
  · intro t a ht
    rw [joinAnd_of_not_isAnd a (isAnd_regroup _)]
    exact and_spaced ht hgroup

end Condition

/-! ### Segments, conditions and operands -/

/-- What stands before a segment that is for a descent. -/
def leadChars (afterDescent : Bool) : List Char :=
  if afterDescent then ['.', '.'] else []

/-- The segment that stands before one that is for a descent. -/
def leadSegments (afterDescent : Bool) : List Segment :=
  if afterDescent then [.descent] else []

/-- The text of one segment of several. -/
def Segment.charsAfter (afterDescent : Bool) (s : Segment) : List Char :=
  match s with
  | .field name => if afterDescent && isPlainName name.toList then name.toList else s.chars
  | .wildcard => if afterDescent then ['*'] else s.chars
  | _ => s.chars

theorem Segment.charsAll_cons (afterDescent : Bool) (s : Segment) (ss : List Segment) :
    Segment.charsAll afterDescent (s :: ss) =
      s.charsAfter afterDescent ++ Segment.charsAll s.isDescent ss := by
  cases s <;> rfl

theorem segmentText_of_bracket {afterDescent : Bool} {t : List Char} {s : Segment}
    (h : BracketText t s) :
    SegmentText (leadChars afterDescent ++ t) (leadSegments afterDescent ++ [s]) := by
  cases afterDescent with
  | true => exact .belowBracket h
  | false => exact .bracket h

theorem segmentText_field (afterDescent : Bool) (name : String) :
    SegmentText (leadChars afterDescent ++ (Segment.field name).charsAfter afterDescent)
      (leadSegments afterDescent ++ [.field name]) := by
  rw [Segment.charsAfter]
  by_cases hname : isPlainName name.toList = true
  · have hchars : (Segment.field name).chars = '.' :: name.toList := by
      rw [Segment.chars, if_pos hname]
    cases afterDescent with
    | true =>
      rw [if_pos (by simpa using hname)]
      exact .belowName (nameText_toList hname)
    | false =>
      rw [if_neg (by simp), hchars]
      exact .name (nameText_toList hname)
  · have hchars : (Segment.field name).chars = '[' :: Text.quote name.toList ++ [']'] := by
      rw [Segment.chars, if_neg hname]
    rw [if_neg (by simp [hname]), hchars]
    exact segmentText_of_bracket (bracketText_of (.name (stringText_quote name)))

theorem segmentText_wildcard (afterDescent : Bool) :
    SegmentText (leadChars afterDescent ++ Segment.wildcard.charsAfter afterDescent)
      (leadSegments afterDescent ++ [.wildcard]) := by
  cases afterDescent with
  | true => exact .belowWildcard
  | false => exact .bracket (bracketText_of .wildcard)

mutual

theorem Segment.segmentText_chars (afterDescent : Bool) : ∀ {s : Segment}, s.isWellFormed →
    s.isReprintable → s.isDescent = false →
    SegmentText (leadChars afterDescent ++ s.charsAfter afterDescent)
      (leadSegments afterDescent ++ [s.regroup])
  | .field name, _, _, _ => segmentText_field afterDescent name
  | .wildcard, _, _, _ => segmentText_wildcard afterDescent
  | .index i, _, _, _ =>
    segmentText_of_bracket (bracketText_of (.index (integerText_indexChars i)))
  | .slice start stop step, hw, _, _ => by
    have hstep : step ≠ some 0 := by simpa [Segment.isWellFormed] using hw
    have htext := SelectorText.slice (sliceText_chars start stop step) hstep
    simpa [Segment.charsAfter, Segment.chars, Segment.regroup] using
      segmentText_of_bracket (bracketText_of htext)
  | .union selectors, hw, _, _ => by
    have hlen : 2 ≤ selectors.length := by simpa [Segment.isWellFormed] using hw
    have hne : selectors ≠ [] := by
      rintro rfl
      simp at hlen
    have htext := SelectorText.union (membersText_chars hne) hlen
    simpa [Segment.charsAfter, Segment.chars, Segment.regroup] using
      segmentText_of_bracket (bracketText_of htext)
  | .descent, _, _, hs => by cases hs
  | .filter condition, hw, hr, _ => by
    have hcondition := (Condition.printed_of_isWellFormed (c := condition) hw hr).bare
    have htext := SelectorText.filter blank_nil blank_nil hcondition blank_nil
    simpa [Segment.charsAfter, Segment.chars, Segment.regroup] using
      segmentText_of_bracket (bracketText_of htext)

theorem Segment.segmentsText_charsAll : ∀ {afterDescent : Bool} {ss : List Segment},
    Segment.areWellFormed afterDescent ss → Segment.areReprintable ss →
    SegmentsText (leadChars afterDescent ++ Segment.charsAll afterDescent ss)
      (leadSegments afterDescent ++ Segment.regroupAll ss)
  | true, [], hw, _ => by cases hw
  | false, [], _, _ => .nil
  | afterDescent, s :: ss, hw, hr => by
    simp only [Segment.areWellFormed, Bool.and_eq_true, Bool.not_eq_true'] at hw
    rw [Segment.areReprintable, Bool.and_eq_true] at hr
    obtain ⟨⟨hs, hdescent⟩, hss⟩ := hw
    have hmore := Segment.segmentsText_charsAll hss hr.2
    rw [Segment.charsAll_cons, Segment.regroupAll]
    by_cases hd : s.isDescent = true
    · -- a descent is spelled together with the segment it is for
      rw [hd, Bool.and_true] at hdescent
      subst hdescent
      cases s with
      | descent => exact hmore
      | _ => cases hd
    · have hd : s.isDescent = false := by simpa using hd
      have hfirst := Segment.segmentText_chars afterDescent hs hr.1 hd
      rw [hd] at hmore ⊢
      have hall := SegmentsText.cons hfirst hmore
      simpa [leadChars, leadSegments] using hall

theorem Condition.printed_of_isWellFormed : ∀ {c : Condition}, c.isWellFormed → c.isReprintable →
    c.Printed
  | .or left right, hw, hr => by
    rw [Condition.isWellFormed, Bool.and_eq_true] at hw
    rw [Condition.isReprintable, Bool.and_eq_true] at hr
    exact Condition.printed_or (Condition.printed_of_isWellFormed hw.1 hr.1)
      (Condition.printed_of_isWellFormed hw.2 hr.2)
  | .and left right, hw, hr => by
    rw [Condition.isWellFormed, Bool.and_eq_true] at hw
    rw [Condition.isReprintable, Bool.and_eq_true] at hr
    exact Condition.printed_and (Condition.printed_of_isWellFormed hw.1 hr.1)
      (Condition.printed_of_isWellFormed hw.2 hr.2)
  | .not inner, hw, hr => by
    refine Condition.printed_of_unary rfl rfl ?_
    have hinner := (Condition.printed_of_isWellFormed (c := inner) hw hr).tight
    rw [Condition.chars, Condition.regroup]
    exact .not blank_nil hinner
  | .compare left op right, hw, hr => by
    rw [Condition.isWellFormed, Bool.and_eq_true] at hw
    rw [Condition.isReprintable, Bool.and_eq_true] at hr
    refine Condition.printed_of_unary rfl rfl ?_
    have hcompare := UnaryText.compare (Operand.operandText_chars hw.1 hr.1) blank_space
      (comparisonText_chars op) blank_space (Operand.operandText_chars hw.2 hr.2)
    rw [Condition.chars, Condition.regroup]
    simpa using hcompare
  | .like operand pattern, hw, hr => by
    rw [Condition.isReprintable, Bool.and_eq_true] at hr
    refine Condition.printed_of_unary rfl rfl ?_
    have hlike := UnaryText.like (Operand.operandText_chars hw hr.1) blank_space blank_space
      (patternText_text hr.2)
    rw [Condition.chars, Condition.regroup]
    simpa using hlike
  | .present operand, hw, hr => by
    rw [Condition.isWellFormed, Bool.and_eq_true, Bool.not_eq_true'] at hw
    refine Condition.printed_of_unary rfl rfl ?_
    rw [Condition.chars, Condition.regroup]
    exact .present (Operand.queryText_chars hw.2 hr hw.1)

theorem Operand.operandText_chars : ∀ {a : Operand}, a.isWellFormed → a.isReprintable →
    OperandText a.chars a.regroup
  | .current _, hw, hr => .query (.current (Segment.segmentsText_charsAll hw hr))
  | .root _, hw, hr => .query (.root (Segment.segmentsText_charsAll hw hr))
  | .literal _, _, hr => .literal (literalText_chars hr)

theorem Operand.queryText_chars : ∀ {a : Operand}, a.isWellFormed → a.isReprintable →
    a.isLiteral = false → QueryText a.chars a.regroup
  | .current _, hw, hr, _ => .current (Segment.segmentsText_charsAll hw hr)
  | .root _, hw, hr, _ => .root (Segment.segmentsText_charsAll hw hr)
  | .literal _, _, _, hl => by cases hl

end

/-- The canonical text spells the path with its chains grouped to the left. -/
theorem Path.pathText_text {p : Path} (hw : p.isWellFormed) (hr : p.isReprintable) :
    PathText p.text.toList p.regroup := by
  rw [Path.text, String.toList_ofList]
  exact .mk (Segment.segmentsText_charsAll hw hr)

end JsonSpan

import JsonSpan.Proofs.Printing.Tokens

/-!
# The form of paths that have a spelling

A path that is built piece by piece need not be one that any text denotes: its slices may have the
step zero, its unions too few items, a descent may have nothing after it. Paths that are read from a
text are free of this (`Path.isWellFormed_of_pathText`). They need not be free of the tokens whose
own text cannot be read, which is what `Path.isReprintable` says.
-/

namespace JsonSpan

def Operand.isLiteral : Operand → Bool
  | .literal _ => true
  | _ => false

mutual

/-- Whether a segment is of a form that some text spells. -/
def Segment.isWellFormed : Segment → Bool
  | .slice _ _ step => step != some 0
  | .union selectors => 2 ≤ selectors.length
  | .filter condition => condition.isWellFormed
  | _ => true

/-- Whether segments are, one after the other; the flag says whether `..` stands before them. Each
descent is for a segment right after it, which is not one itself. -/
def Segment.areWellFormed (afterDescent : Bool) : List Segment → Bool
  | [] => !afterDescent
  | s :: ss =>
    s.isWellFormed && !(afterDescent && s.isDescent) && Segment.areWellFormed s.isDescent ss

/-- Whether a condition is; no condition is that a constant is there. -/
def Condition.isWellFormed : Condition → Bool
  | .or left right => left.isWellFormed && right.isWellFormed
  | .and left right => left.isWellFormed && right.isWellFormed
  | .not inner => inner.isWellFormed
  | .compare left _ right => left.isWellFormed && right.isWellFormed
  | .like operand _ => operand.isWellFormed
  | .present operand => !operand.isLiteral && operand.isWellFormed

def Operand.isWellFormed : Operand → Bool
  | .current segments => Segment.areWellFormed false segments
  | .root segments => Segment.areWellFormed false segments
  | .literal _ => true

end

mutual

/-- Whether the text of every constant and pattern in a segment can be read. -/
def Segment.isReprintable : Segment → Bool
  | .filter condition => condition.isReprintable
  | _ => true

/-- Whether the text of every constant and pattern in segments can be read. -/
def Segment.areReprintable : List Segment → Bool
  | [] => true
  | s :: ss => s.isReprintable && Segment.areReprintable ss

/-- Whether the text of every constant and pattern in a condition can be read. -/
def Condition.isReprintable : Condition → Bool
  | .or left right => left.isReprintable && right.isReprintable
  | .and left right => left.isReprintable && right.isReprintable
  | .not inner => inner.isReprintable
  | .compare left _ right => left.isReprintable && right.isReprintable
  | .like operand pattern => operand.isReprintable && pattern.isReprintable
  | .present operand => operand.isReprintable

/-- Whether the text of every constant and pattern in an operand can be read. -/
def Operand.isReprintable : Operand → Bool
  | .current segments => Segment.areReprintable segments
  | .root segments => Segment.areReprintable segments
  | .literal value => value.isReprintable

end

/-- Whether a path is of a form that some text spells, its tokens apart. -/
def Path.isWellFormed (p : Path) : Bool :=
  Segment.areWellFormed false p

/-- Whether the text of every constant and pattern in a path can be read. -/
def Path.isReprintable (p : Path) : Bool :=
  Segment.areReprintable p

/-! ### What is read is well-formed -/

theorem Segment.areWellFormed_append {afterDescent : Bool} {ss ss' : List Segment}
    (h : Segment.areWellFormed afterDescent ss) (h' : Segment.areWellFormed false ss') :
    Segment.areWellFormed afterDescent (ss ++ ss') := by
  induction ss generalizing afterDescent with
  | nil =>
    cases afterDescent with
    | true => cases h
    | false => exact h'
  | cons s ss ih =>
    rw [Segment.areWellFormed, Bool.and_eq_true] at h
    rw [List.cons_append, Segment.areWellFormed, Bool.and_eq_true]
    exact ⟨h.1, ih h.2⟩

theorem Segment.areWellFormed_one {afterDescent : Bool} {s : Segment} (h : s.isWellFormed)
    (hs : s.isDescent = false) : Segment.areWellFormed afterDescent [s] := by
  simp [Segment.areWellFormed, h, hs]

theorem Segment.areWellFormed_below {s : Segment} (h : s.isWellFormed) (hs : s.isDescent = false) :
    Segment.areWellFormed false [.descent, s] := by
  rw [Segment.areWellFormed, Bool.and_eq_true]
  exact ⟨rfl, areWellFormed_one h hs⟩

namespace Spelling

theorem QueryText.isLiteral {t : List Char} {a : Operand} (h : QueryText t a) :
    a.isLiteral = false := by
  cases h <;> rfl

theorem SelectorText.isDescent {t : List Char} {s : Segment} (h : SelectorText t s) :
    s.isDescent = false := by
  cases h <;> rfl

theorem BracketText.isDescent {t : List Char} {s : Segment} (h : BracketText t s) :
    s.isDescent = false := by
  obtain ⟨_, h, _⟩ := h
  exact h.isDescent

mutual

theorem SegmentsText.isWellFormed : ∀ {t : List Char} {ss : List Segment}, SegmentsText t ss →
    Segment.areWellFormed false ss
  | _, _, .nil => rfl
  | _, _, .cons h h' => Segment.areWellFormed_append h.isWellFormed h'.isWellFormed

theorem SegmentText.isWellFormed : ∀ {t : List Char} {ss : List Segment}, SegmentText t ss →
    Segment.areWellFormed false ss
  | _, _, .name _ => rfl
  | _, _, .wildcard => rfl
  | _, _, .bracket h => Segment.areWellFormed_one h.isWellFormed h.isDescent
  | _, _, .belowName _ => rfl
  | _, _, .belowWildcard => rfl
  | _, _, .belowBracket h => Segment.areWellFormed_below h.isWellFormed h.isDescent

theorem BracketText.isWellFormed : ∀ {t : List Char} {s : Segment}, BracketText t s →
    s.isWellFormed
  | _, _, .mk _ h _ => h.isWellFormed

theorem SelectorText.isWellFormed : ∀ {t : List Char} {s : Segment}, SelectorText t s →
    s.isWellFormed
  | _, _, .filter _ _ h _ => h.isWellFormed
  | _, _, .union _ hlen => decide_eq_true hlen
  | _, _, .slice _ hstep => by simpa [Segment.isWellFormed] using hstep
  | _, _, .wildcard => rfl
  | _, _, .index _ => rfl
  | _, _, .name _ => rfl

theorem OrText.isWellFormed : ∀ {t : List Char} {c : Condition}, OrText t c → c.isWellFormed
  | _, _, .one h => h.isWellFormed
  | _, _, .or h _ _ h' => Bool.and_eq_true_iff.2 ⟨h.isWellFormed, h'.isWellFormed⟩

theorem AndText.isWellFormed : ∀ {t : List Char} {c : Condition}, AndText t c → c.isWellFormed
  | _, _, .one h => h.isWellFormed
  | _, _, .and h _ _ h' => Bool.and_eq_true_iff.2 ⟨h.isWellFormed, h'.isWellFormed⟩

theorem UnaryText.isWellFormed : ∀ {t : List Char} {c : Condition}, UnaryText t c →
    c.isWellFormed
  | _, _, .not _ h => h.isWellFormed
  | _, _, .group _ h _ => h.isWellFormed
  | _, _, .compare h _ _ _ h' => Bool.and_eq_true_iff.2 ⟨h.isWellFormed, h'.isWellFormed⟩
  | _, _, .like h _ _ _ => h.isWellFormed
  | _, _, .present h => by
    rw [Condition.isWellFormed, h.isLiteral]
    exact h.isWellFormed

theorem OperandText.isWellFormed : ∀ {t : List Char} {a : Operand}, OperandText t a →
    a.isWellFormed
  | _, _, .query h => h.isWellFormed
  | _, _, .literal _ => rfl

theorem QueryText.isWellFormed : ∀ {t : List Char} {a : Operand}, QueryText t a → a.isWellFormed
  | _, _, .current h => h.isWellFormed
  | _, _, .root h => h.isWellFormed

end

end Spelling

/-- A path that has a spelling is well-formed. -/
theorem Path.isWellFormed_of_pathText {t : List Char} {p : Path} (h : Spelling.PathText t p) :
    p.isWellFormed := by
  obtain ⟨h⟩ := h
  exact h.isWellFormed

end JsonSpan

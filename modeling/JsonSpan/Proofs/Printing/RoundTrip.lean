import JsonSpan.Proofs.Printing.Reparsing

/-!
# Printing and reading back

Every well-formed path whose tokens can be read is read back from its canonical text, up to the
grouping of its chains (`Path.parse_text_wellFormed`). What that grouping may change is said by a
relation: `c.Reassociates d` if `d` comes from `c` by moving parentheses in chains of `||` and of
`&&` to the left, and by nothing else. A path whose chains are grouped to the left already is read
back as it is.
-/

namespace JsonSpan

mutual

/-- The second segment is the first one, with chains in it grouped further to the left. -/
inductive Segment.Reassociates : Segment → Segment → Prop where
  | refl (s : Segment) : Segment.Reassociates s s
  | filter {c c' : Condition} (h : Condition.Reassociates c c') :
      Segment.Reassociates (.filter c) (.filter c')

/-- The same of segments one by one. -/
inductive Segment.ReassociatesAll : List Segment → List Segment → Prop where
  | nil : Segment.ReassociatesAll [] []
  | cons {s s' : Segment} {ss ss' : List Segment} (h : Segment.Reassociates s s')
      (hs : Segment.ReassociatesAll ss ss') : Segment.ReassociatesAll (s :: ss) (s' :: ss')

/-- The second condition is the first one, with chains in it grouped further to the left. -/
inductive Condition.Reassociates : Condition → Condition → Prop where
  | refl (c : Condition) : Condition.Reassociates c c
  | trans {c d e : Condition} (h : Condition.Reassociates c d) (h' : Condition.Reassociates d e) :
      Condition.Reassociates c e
  | orLeft (a b c : Condition) : Condition.Reassociates (.or a (.or b c)) (.or (.or a b) c)
  | andLeft (a b c : Condition) : Condition.Reassociates (.and a (.and b c)) (.and (.and a b) c)
  | or {a a' b b' : Condition} (h : Condition.Reassociates a a') (h' : Condition.Reassociates b b') :
      Condition.Reassociates (.or a b) (.or a' b')
  | and {a a' b b' : Condition} (h : Condition.Reassociates a a') (h' : Condition.Reassociates b b') :
      Condition.Reassociates (.and a b) (.and a' b')
  | not {c c' : Condition} (h : Condition.Reassociates c c') :
      Condition.Reassociates (.not c) (.not c')
  | compare {a a' b b' : Operand} (op : Comparison) (h : Operand.Reassociates a a')
      (h' : Operand.Reassociates b b') :
      Condition.Reassociates (.compare a op b) (.compare a' op b')
  | like {a a' : Operand} (pattern : Pattern) (h : Operand.Reassociates a a') :
      Condition.Reassociates (.like a pattern) (.like a' pattern)
  | present {a a' : Operand} (h : Operand.Reassociates a a') :
      Condition.Reassociates (.present a) (.present a')

/-- The second operand is the first one, with chains in it grouped further to the left. -/
inductive Operand.Reassociates : Operand → Operand → Prop where
  | current {ss ss' : List Segment} (h : Segment.ReassociatesAll ss ss') :
      Operand.Reassociates (.current ss) (.current ss')
  | root {ss ss' : List Segment} (h : Segment.ReassociatesAll ss ss') :
      Operand.Reassociates (.root ss) (.root ss')
  | literal (value : Literal) : Operand.Reassociates (.literal value) (.literal value)

end

/-- The second path is the first one, with chains in it grouped further to the left. -/
def Path.Reassociates (p q : Path) : Prop :=
  Segment.ReassociatesAll p q

/-! ### Regrouping only reassociates -/

namespace Condition

theorem reassociates_joinOr (a b : Condition) : (Condition.or a b).Reassociates (a.joinOr b) := by
  fun_induction joinOr a b with
  | case1 b c ih => exact .trans (.orLeft a b c) (.or ih (.refl c))
  | case2 c _ => exact .refl _

theorem reassociates_joinAnd (a b : Condition) : (Condition.and a b).Reassociates (a.joinAnd b) := by
  fun_induction joinAnd a b with
  | case1 b c ih => exact .trans (.andLeft a b c) (.and ih (.refl c))
  | case2 c _ => exact .refl _

end Condition

mutual

theorem Segment.reassociates_regroup : ∀ s : Segment, s.Reassociates s.regroup
  | .filter c => .filter (Condition.reassociates_regroup c)
  | .field _ | .wildcard | .index _ | .slice _ _ _ | .union _ | .descent => .refl _

theorem Segment.reassociates_regroupAll : ∀ ss : List Segment,
    Segment.ReassociatesAll ss (Segment.regroupAll ss)
  | [] => .nil
  | s :: ss => .cons (Segment.reassociates_regroup s) (Segment.reassociates_regroupAll ss)

theorem Condition.reassociates_regroup : ∀ c : Condition, c.Reassociates c.regroup
  | .or left right =>
    .trans (.or (Condition.reassociates_regroup left) (Condition.reassociates_regroup right))
      (Condition.reassociates_joinOr _ _)
  | .and left right =>
    .trans (.and (Condition.reassociates_regroup left) (Condition.reassociates_regroup right))
      (Condition.reassociates_joinAnd _ _)
  | .not inner => .not (Condition.reassociates_regroup inner)
  | .compare left op right =>
    .compare op (Operand.reassociates_regroup left) (Operand.reassociates_regroup right)
  | .like operand pattern => .like pattern (Operand.reassociates_regroup operand)
  | .present operand => .present (Operand.reassociates_regroup operand)

theorem Operand.reassociates_regroup : ∀ a : Operand, a.Reassociates a.regroup
  | .current segments => .current (Segment.reassociates_regroupAll segments)
  | .root segments => .root (Segment.reassociates_regroupAll segments)
  | .literal value => .literal value

end

/-! ### Chains that are grouped to the left -/

mutual

/-- Whether every chain in a segment is grouped to the left. -/
def Segment.isLeftGrouped : Segment → Bool
  | .filter condition => condition.isLeftGrouped
  | _ => true

def Segment.areLeftGrouped : List Segment → Bool
  | [] => true
  | s :: ss => s.isLeftGrouped && Segment.areLeftGrouped ss

/-- Whether every chain in a condition is grouped to the left: no right side of an `||` is an `||`,
and no right side of an `&&` is an `&&`. -/
def Condition.isLeftGrouped : Condition → Bool
  | .or left right => !right.isOr && (left.isLeftGrouped && right.isLeftGrouped)
  | .and left right => !right.isAnd && (left.isLeftGrouped && right.isLeftGrouped)
  | .not inner => inner.isLeftGrouped
  | .compare left _ right => left.isLeftGrouped && right.isLeftGrouped
  | .like operand _ => operand.isLeftGrouped
  | .present operand => operand.isLeftGrouped

def Operand.isLeftGrouped : Operand → Bool
  | .current segments => Segment.areLeftGrouped segments
  | .root segments => Segment.areLeftGrouped segments
  | .literal _ => true

end

/-- Whether every chain in a path is grouped to the left. -/
def Path.isLeftGrouped (p : Path) : Bool :=
  Segment.areLeftGrouped p

mutual

theorem Segment.regroup_eq : ∀ {s : Segment}, s.isLeftGrouped → s.regroup = s
  | .filter _, h => congrArg Segment.filter (Condition.regroup_eq h)
  | .field _, _ | .wildcard, _ | .index _, _ | .slice _ _ _, _ | .union _, _ | .descent, _ => rfl

theorem Segment.regroupAll_eq : ∀ {ss : List Segment}, Segment.areLeftGrouped ss →
    Segment.regroupAll ss = ss
  | [], _ => rfl
  | s :: ss, h => by
    rw [Segment.areLeftGrouped, Bool.and_eq_true] at h
    rw [Segment.regroupAll, Segment.regroup_eq h.1, Segment.regroupAll_eq h.2]

theorem Condition.regroup_eq : ∀ {c : Condition}, c.isLeftGrouped → c.regroup = c
  | .or left right, h => by
    rw [Condition.isLeftGrouped, Bool.and_eq_true, Bool.and_eq_true, Bool.not_eq_true'] at h
    rw [Condition.regroup, Condition.regroup_eq h.2.1, Condition.regroup_eq h.2.2,
      Condition.joinOr_of_not_isOr left h.1]
  | .and left right, h => by
    rw [Condition.isLeftGrouped, Bool.and_eq_true, Bool.and_eq_true, Bool.not_eq_true'] at h
    rw [Condition.regroup, Condition.regroup_eq h.2.1, Condition.regroup_eq h.2.2,
      Condition.joinAnd_of_not_isAnd left h.1]
  | .not _, h => congrArg Condition.not (Condition.regroup_eq h)
  | .compare left op right, h => by
    rw [Condition.isLeftGrouped, Bool.and_eq_true] at h
    rw [Condition.regroup, Operand.regroup_eq h.1, Operand.regroup_eq h.2]
  | .like _ pattern, h => congrArg (Condition.like · pattern) (Operand.regroup_eq h)
  | .present _, h => congrArg Condition.present (Operand.regroup_eq h)

theorem Operand.regroup_eq : ∀ {a : Operand}, a.isLeftGrouped → a.regroup = a
  | .current _, h => congrArg Operand.current (Segment.regroupAll_eq h)
  | .root _, h => congrArg Operand.root (Segment.regroupAll_eq h)
  | .literal _, _ => rfl

end

/-! ### Equality of paths whose numbers are finite -/

theorem Binary64.sameNumber_refl {x : Binary64} (h : x.isFinite) : x.sameNumber x := by
  have hfinite : x.magnitude < infinity := by simpa [isFinite] using h
  have hkey : ∃ k, x.key? = some k := by
    rw [key?, if_neg (by simp only [isNaN, decide_eq_true_eq]; omega)]
    split <;> exact ⟨_, rfl⟩
  obtain ⟨k, hk⟩ := hkey
  simp [sameNumber, compare?, hk]

theorem Literal.same_refl {v : Literal} (h : v.isReprintable) : v.same v := by
  cases v with
  | number x => exact Binary64.sameNumber_refl h
  | string s => exact beq_self_eq_true s
  | boolean b => exact beq_self_eq_true b
  | null => rfl

mutual

theorem Segment.same_refl : ∀ {s : Segment}, s.isReprintable → s.same s
  | .filter _, h => by
    rw [Segment.same]
    exact Condition.same_refl h
  | .field _, _ | .wildcard, _ | .index _, _ | .slice _ _ _, _ | .union _, _ | .descent, _ => by
    simp [Segment.same]

theorem Segment.sameAll_refl : ∀ {ss : List Segment}, Segment.areReprintable ss →
    Segment.sameAll ss ss
  | [], _ => by rw [Segment.sameAll]
  | _ :: _, h => by
    rw [Segment.areReprintable, Bool.and_eq_true] at h
    rw [Segment.sameAll, Segment.same_refl h.1, Segment.sameAll_refl h.2, Bool.and_true]

theorem Condition.same_refl : ∀ {c : Condition}, c.isReprintable → c.same c
  | .or _ _, h => by
    rw [Condition.isReprintable, Bool.and_eq_true] at h
    rw [Condition.same, Condition.same_refl h.1, Condition.same_refl h.2, Bool.and_true]
  | .and _ _, h => by
    rw [Condition.isReprintable, Bool.and_eq_true] at h
    rw [Condition.same, Condition.same_refl h.1, Condition.same_refl h.2, Bool.and_true]
  | .not _, h => by
    rw [Condition.same]
    exact Condition.same_refl h
  | .compare _ op _, h => by
    rw [Condition.isReprintable, Bool.and_eq_true] at h
    rw [Condition.same, Operand.same_refl h.1, Operand.same_refl h.2, beq_self_eq_true op,
      Bool.and_true, Bool.and_true]
  | .like _ pattern, h => by
    rw [Condition.isReprintable, Bool.and_eq_true] at h
    have hpattern : (pattern == pattern) = true :=
      Bool.and_eq_true_iff.2 ⟨beq_self_eq_true _, beq_self_eq_true _⟩
    rw [Condition.same, Operand.same_refl h.1, hpattern, Bool.and_true]
  | .present _, h => by
    rw [Condition.same]
    exact Operand.same_refl h

theorem Operand.same_refl : ∀ {a : Operand}, a.isReprintable → a.same a
  | .current _, h | .root _, h => by
    rw [Operand.same]
    exact Segment.sameAll_refl h
  | .literal _, h => by
    rw [Operand.same]
    exact Literal.same_refl h

end

theorem Path.same_refl {p : Path} (h : p.isReprintable) : p.same p :=
  Segment.sameAll_refl h

/-! ### Reading back what was printed -/

/-- A well-formed path whose tokens can be read is read back from its text as a path that differs
from it at most in the grouping of chains, has the same text and leads to the same values, or to the
same fault, in every document. If its chains are grouped to the left, it is read back as it is. -/
theorem Path.parse_text_wellFormed {p : Path} (hw : p.isWellFormed) (hr : p.isReprintable) :
    ∃ p', Path.parse p.text = .ok p' ∧ p.Reassociates p' ∧ p'.text = p.text ∧
      (∀ doc, p'.select doc = p.select doc) ∧ (p.isLeftGrouped → p' = p ∧ p'.same p) := by
  refine ⟨p.regroup, parse_text_of_isReprintable hw hr, Segment.reassociates_regroupAll p,
    text_regroup p, select_regroup p, fun hleft => ?_⟩
  have hsame : p.regroup = p := Segment.regroupAll_eq hleft
  rw [hsame]
  exact ⟨rfl, same_refl hr⟩

/-- A path with a chain that is not grouped to the left: `a || (b < -1.5 || !$[0])` below a descent,
where `a` is a name that needs quotes. -/
def Path.rightGrouped : Path :=
  [.descent, .filter (.or (.present (.current [.field "a b\\"]))
    (.or (.compare (.current [.descent, .field "b"]) .less (.literal (.number ⟨0xbff8000000000000⟩)))
      (.not (.present (.root [.index 0])))))]

theorem Path.parse_text_rightGrouped :
    Path.rightGrouped.isWellFormed ∧ Path.rightGrouped.isReprintable ∧
      Path.rightGrouped.isLeftGrouped = false ∧
      ∃ p', Path.parse Path.rightGrouped.text = .ok p' ∧ Path.rightGrouped.Reassociates p' ∧
        p'.text = Path.rightGrouped.text ∧
        ∀ doc, p'.select doc = Path.rightGrouped.select doc := by
  have hw : Path.rightGrouped.isWellFormed := by decide
  have hr : Path.rightGrouped.isReprintable := by decide
  obtain ⟨p', hparse, hreassociates, htext, hselect, _⟩ := Path.parse_text_wellFormed hw hr
  exact ⟨hw, hr, by decide, p', hparse, hreassociates, htext, hselect⟩

end JsonSpan

import JsonSpan.Path.Printer
import JsonSpan.Proofs.Query.Outcome

/-!
# Chains of conditions, grouped to the left

The text of a condition does not tell `a || (b || c)` from `(a || b) || c`, nor the same two of `&&`,
and the first of them is read as the second. Here a path is regrouped to the one that its text is
read as. Nothing else changes: the regrouped path has the same text (`Path.text_regroup`) and leads
to the same values, or to the same fault (`Path.select_regroup`).
-/

namespace JsonSpan

/-- A condition or another one, which may be a chain of `||` itself. -/
def Condition.joinOr (a : Condition) : Condition → Condition
  | .or b c => .or (a.joinOr b) c
  | c => .or a c

/-- A condition and another one, which may be a chain of `&&` itself. -/
def Condition.joinAnd (a : Condition) : Condition → Condition
  | .and b c => .and (a.joinAnd b) c
  | c => .and a c

mutual

def Segment.regroup : Segment → Segment
  | .filter condition => .filter condition.regroup
  | s => s

def Segment.regroupAll : List Segment → List Segment
  | [] => []
  | s :: ss => s.regroup :: Segment.regroupAll ss

def Condition.regroup : Condition → Condition
  | .or left right => left.regroup.joinOr right.regroup
  | .and left right => left.regroup.joinAnd right.regroup
  | .not inner => .not inner.regroup
  | .compare left op right => .compare left.regroup op right.regroup
  | .like operand pattern => .like operand.regroup pattern
  | .present operand => .present operand.regroup

def Operand.regroup : Operand → Operand
  | .current segments => .current (Segment.regroupAll segments)
  | .root segments => .root (Segment.regroupAll segments)
  | .literal value => .literal value

end

/-- A path with every chain in it grouped to the left. -/
def Path.regroup (p : Path) : Path :=
  Segment.regroupAll p

namespace Condition

/-! ### Joining -/

theorem joinOr_of_not_isOr (a : Condition) {b : Condition} (h : b.isOr = false) :
    a.joinOr b = .or a b := by
  cases b with
  | or b c => cases h
  | _ => rfl

theorem joinOr_joinOr (a b c : Condition) : a.joinOr (b.joinOr c) = (a.joinOr b).joinOr c := by
  match c with
  | .or c d =>
    rw [joinOr, joinOr, joinOr, joinOr_joinOr a b c]
  | .and _ _ | .not _ | .compare _ _ _ | .like _ _ | .present _ => rfl

/-- Whether a condition is a conjunction, which binds less than all others but `||`. -/
def isAnd : Condition → Bool
  | .and _ _ => true
  | _ => false

theorem joinAnd_of_not_isAnd (a : Condition) {b : Condition} (h : b.isAnd = false) :
    a.joinAnd b = .and a b := by
  cases b with
  | and b c => cases h
  | _ => rfl

theorem joinAnd_joinAnd (a b c : Condition) : a.joinAnd (b.joinAnd c) = (a.joinAnd b).joinAnd c := by
  match c with
  | .and c d =>
    rw [joinAnd, joinAnd, joinAnd, joinAnd_joinAnd a b c]
  | .or _ _ | .not _ | .compare _ _ _ | .like _ _ | .present _ => rfl

theorem isOr_joinOr (a b : Condition) : (a.joinOr b).isOr = true := by
  cases b <;> rfl

theorem isOr_joinAnd (a b : Condition) : (a.joinAnd b).isOr = false := by
  cases b <;> rfl

theorem isAnd_joinOr (a b : Condition) : (a.joinOr b).isAnd = false := by
  cases b <;> rfl

theorem isAnd_joinAnd (a b : Condition) : (a.joinAnd b).isAnd = true := by
  cases b <;> rfl

theorem isTight_joinOr (a b : Condition) : (a.joinOr b).isTight = false := by
  cases b <;> rfl

theorem isTight_joinAnd (a b : Condition) : (a.joinAnd b).isTight = false := by
  cases b <;> rfl

@[simp] theorem isOr_regroup (c : Condition) : c.regroup.isOr = c.isOr := by
  cases c with
  | or left right => exact isOr_joinOr _ _
  | and left right => exact isOr_joinAnd _ _
  | _ => rfl

@[simp] theorem isAnd_regroup (c : Condition) : c.regroup.isAnd = c.isAnd := by
  cases c with
  | or left right => exact isAnd_joinOr _ _
  | and left right => exact isAnd_joinAnd _ _
  | _ => rfl

@[simp] theorem isTight_regroup (c : Condition) : c.regroup.isTight = c.isTight := by
  cases c with
  | or left right => exact isTight_joinOr _ _
  | and left right => exact isTight_joinAnd _ _
  | _ => rfl

/-! ### The same text -/

theorem chars_joinOr (a b : Condition) : (a.joinOr b).chars = (Condition.or a b).chars := by
  match b with
  | .or b c =>
    rw [joinOr, Condition.chars, chars_joinOr a b]
    simp only [Condition.chars, List.append_assoc]
  | .and _ _ | .not _ | .compare _ _ _ | .like _ _ | .present _ => rfl

theorem chars_joinAnd (a b : Condition) : (a.joinAnd b).chars = (Condition.and a b).chars := by
  match b with
  | .and b c =>
    rw [joinAnd, Condition.chars, chars_joinAnd a b, isOr_joinAnd]
    simp only [Condition.chars, isOr, parenthesize, Bool.false_eq_true, ↓reduceIte, List.append_assoc]
  | .or _ _ | .not _ | .compare _ _ _ | .like _ _ | .present _ => rfl

end Condition

mutual

theorem Segment.chars_regroup : ∀ s : Segment, s.regroup.chars = s.chars
  | .filter c => by rw [Segment.regroup, Segment.chars, Segment.chars, Condition.chars_regroup c]
  | .field _ | .wildcard | .index _ | .slice _ _ _ | .union _ | .descent => rfl

theorem Segment.charsAll_regroupAll : ∀ (afterDescent : Bool) (ss : List Segment),
    Segment.charsAll afterDescent (Segment.regroupAll ss) = Segment.charsAll afterDescent ss
  | _, [] => rfl
  | afterDescent, s :: ss => by
    have hs := Segment.chars_regroup s
    have hss := fun b => Segment.charsAll_regroupAll b ss
    cases s <;> simp only [Segment.regroupAll, Segment.regroup, Segment.charsAll] at hs ⊢ <;>
      rw [hss]
    rw [hs]

theorem Condition.chars_regroup : ∀ c : Condition, c.regroup.chars = c.chars
  | .or left right => by
    rw [Condition.regroup, Condition.chars_joinOr, Condition.chars, Condition.chars,
      Condition.chars_regroup left, Condition.chars_regroup right]
  | .and left right => by
    rw [Condition.regroup, Condition.chars_joinAnd, Condition.chars, Condition.chars,
      Condition.isOr_regroup, Condition.isOr_regroup, Condition.chars_regroup left,
      Condition.chars_regroup right]
  | .not inner => by
    rw [Condition.regroup, Condition.chars, Condition.chars, Condition.isTight_regroup,
      Condition.chars_regroup inner]
  | .compare left op right => by
    rw [Condition.regroup, Condition.chars, Condition.chars, Operand.chars_regroup left,
      Operand.chars_regroup right]
  | .like operand pattern => by
    rw [Condition.regroup, Condition.chars, Condition.chars, Operand.chars_regroup operand]
  | .present operand => by
    rw [Condition.regroup, Condition.chars, Condition.chars, Operand.chars_regroup operand]

theorem Operand.chars_regroup : ∀ a : Operand, a.regroup.chars = a.chars
  | .current segments => by
    rw [Operand.regroup, Operand.chars, Operand.chars, Segment.charsAll_regroupAll false segments]
  | .root segments => by
    rw [Operand.regroup, Operand.chars, Operand.chars, Segment.charsAll_regroupAll false segments]
  | .literal _ => rfl

end

theorem Path.text_regroup (p : Path) : p.regroup.text = p.text := by
  rw [Path.text, Path.text, Path.regroup, Segment.charsAll_regroupAll]

/-! ### The same outcome -/

section

variable (site : Site) (s : Span)

theorem Condition.result_test_joinOr (a b : Condition) :
    ((a.joinOr b).test site s).result = ((Condition.or a b).test site s).result := by
  match b with
  | .or b c =>
    rw [joinOr, result_test_or, result_test_joinOr a b, result_test_or, result_test_or,
      result_test_or, bind_assoc]
    congr 1
    funext holds
    cases holds <;> rfl
  | .and _ _ | .not _ | .compare _ _ _ | .like _ _ | .present _ => rfl

theorem Condition.result_test_joinAnd (a b : Condition) :
    ((a.joinAnd b).test site s).result = ((Condition.and a b).test site s).result := by
  match b with
  | .and b c =>
    rw [joinAnd, result_test_and, result_test_joinAnd a b, result_test_and, result_test_and,
      result_test_and, bind_assoc]
    congr 1
    funext holds
    cases holds <;> rfl
  | .or _ _ | .not _ | .compare _ _ _ | .like _ _ | .present _ => rfl

end

mutual

theorem Segment.result_step_regroup (site : Site) : ∀ (segment : Segment) (s : Span),
    (segment.regroup.step site s).result = (segment.step site s).result
  | .filter c, s => by
    rw [Segment.regroup, Segment.result_step_filter, Segment.result_step_filter]
    congr 1
    funext children
    exact pick_congr fun child _ => Condition.result_test_regroup site c child
  | .field _, _ | .wildcard, _ | .index _, _ | .slice _ _ _, _ | .union _, _ | .descent, _ => rfl

theorem Segment.result_stepAll_regroup (site : Site) : ∀ (ss : List Segment) (spans : List Span),
    (Segment.stepAll site spans (Segment.regroupAll ss)).result =
      (Segment.stepAll site spans ss).result
  | [], _ => rfl
  | segment :: ss, spans => by
    rw [Segment.regroupAll, Segment.result_stepAll_cons, Segment.result_stepAll_cons,
      gather_congr fun s _ => Segment.result_step_regroup site segment s]
    congr 1
    funext reached
    exact Segment.result_stepAll_regroup site ss reached

theorem Condition.result_test_regroup (site : Site) : ∀ (c : Condition) (s : Span),
    (c.regroup.test site s).result = (c.test site s).result
  | .or left right, s => by
    rw [Condition.regroup, Condition.result_test_joinOr, Condition.result_test_or,
      Condition.result_test_or, Condition.result_test_regroup site left,
      Condition.result_test_regroup site right]
  | .and left right, s => by
    rw [Condition.regroup, Condition.result_test_joinAnd, Condition.result_test_and,
      Condition.result_test_and, Condition.result_test_regroup site left,
      Condition.result_test_regroup site right]
  | .not inner, s => by
    rw [Condition.regroup, Condition.result_test_not, Condition.result_test_not,
      Condition.result_test_regroup site inner]
  | .compare left op right, s => by
    rw [Condition.regroup, Condition.result_test_compare, Condition.result_test_compare,
      Operand.result_resolve_regroup site left, Operand.result_resolve_regroup site right]
  | .like operand pattern, s => by
    rw [Condition.regroup, Condition.result_test_like, Condition.result_test_like,
      Operand.result_resolve_regroup site operand]
  | .present operand, s => by
    rw [Condition.regroup, Condition.result_test_present, Condition.result_test_present,
      Operand.result_exists_regroup site operand]

theorem Operand.result_resolve_regroup (site : Site) : ∀ (a : Operand) (s : Span),
    (a.regroup.resolve site s).result = (a.resolve site s).result
  | .current segments, s => by
    rw [Operand.regroup, Operand.result_resolve_current, Operand.result_resolve_current,
      Segment.result_stepAll_regroup site segments]
  | .root segments, s => by
    rw [Operand.regroup, Operand.result_resolve_root, Operand.result_resolve_root,
      Segment.result_stepAll_regroup site segments]
  | .literal _, _ => rfl

theorem Operand.result_exists_regroup (site : Site) : ∀ (a : Operand) (s : Span),
    (a.regroup.exists site s).result = (a.exists site s).result
  | .current segments, s => by
    rw [Operand.regroup, Operand.result_exists_current, Operand.result_exists_current,
      Segment.result_stepAll_regroup site segments]
  | .root segments, s => by
    rw [Operand.regroup, Operand.result_exists_root, Operand.result_exists_root,
      Segment.result_stepAll_regroup site segments]
  | .literal _, _ => rfl

end

/-- Regrouping changes neither what a path leads to nor the fault it ends with. -/
theorem Path.select_regroup (p : Path) (doc : Bytes) : p.regroup.select doc = p.select doc := by
  rw [Path.select_eq, Path.select_eq]
  congr 1
  funext root
  exact Segment.result_stepAll_regroup ⟨doc, root⟩ p [root]

end JsonSpan

import JsonSpan.Query.Evaluate

/-!
# The outcome of an evaluation

An evaluation reports events besides what it gives. Its outcome does not depend on them, so here the
equations of the evaluator are restated for the outcome alone, as a computation in `Except`. The
shortcut that ends an evaluation once no values are left changes nothing about the outcome, and does
not appear in them (`Segment.result_stepAll_cons`).
-/

namespace JsonSpan

section

variable {ε α β : Type}

/-- What a step gives for each of a list, put together. -/
def gather (f : α → Except ε (List β)) : List α → Except ε (List β)
  | [] => .ok []
  | a :: as => do return (← f a) ++ (← gather f as)

/-- The items of a list for which a test says yes. -/
def pick (test : α → Except ε Bool) : List α → Except ε (List α)
  | [] => .ok []
  | a :: as => do
    let keep ← test a
    let more ← pick test as
    return if keep then a :: more else more

theorem gather_singleton (f : α → Except ε (List β)) (a : α) : gather f [a] = f a := by
  rw [gather]
  cases f a with
  | error fault => rfl
  | ok bs => exact congrArg Except.ok (List.append_nil bs)

theorem mem_of_gather {f : α → Except ε (List β)} {as : List α} {bs : List β}
    (h : gather f as = .ok bs) : ∀ b ∈ bs, ∃ a ∈ as, ∃ ds, f a = .ok ds ∧ b ∈ ds := by
  induction as generalizing bs with
  | nil =>
    cases h
    simp
  | cons a as ih =>
    simp only [gather, bind, Except.bind, pure, Except.pure] at h
    split at h
    · cases h
    · next ds hd =>
      split at h
      · cases h
      · next es he =>
        cases h
        intro b hb
        rcases List.mem_append.1 hb with hb | hb
        · exact ⟨a, by simp, ds, hd, hb⟩
        · obtain ⟨a', ha', es', hf, hb'⟩ := ih he b hb
          exact ⟨a', by simp [ha'], es', hf, hb'⟩

theorem sublist_of_pick {test : α → Except ε Bool} {as bs : List α} (h : pick test as = .ok bs) :
    bs.Sublist as := by
  induction as generalizing bs with
  | nil =>
    cases h
    exact .slnil
  | cons a as ih =>
    simp only [pick, bind, Except.bind, pure, Except.pure] at h
    split at h
    · cases h
    · next keep _ =>
      split at h
      · cases h
      · next more hm =>
        cases h
        cases keep with
        | true => exact (ih hm).cons_cons a
        | false => exact (ih hm).cons a

theorem gather_congr {f g : α → Except ε (List β)} {as : List α} (h : ∀ a ∈ as, f a = g a) :
    gather f as = gather g as := by
  induction as with
  | nil => rfl
  | cons a as ih =>
    rw [gather, gather, h a (by simp), ih fun b hb => h b (by simp [hb])]

theorem pick_congr {f g : α → Except ε Bool} {as : List α} (h : ∀ a ∈ as, f a = g a) :
    pick f as = pick g as := by
  induction as with
  | nil => rfl
  | cons a as ih =>
    rw [pick, pick, h a (by simp), ih fun b hb => h b (by simp [hb])]

end

namespace Traced

variable {α β : Type}

@[simp] theorem result_pure (a : α) : (Pure.pure a : Traced α).result = .ok a := rfl

@[simp] theorem result_lift (x : Except Fault α) : (lift x).result = x := rfl

@[simp] theorem result_report (e : Event) : (report e).result = .ok () := rfl

@[simp] theorem result_bind (x : Traced α) (f : α → Traced β) :
    (x >>= f).result = x.result >>= fun a => (f a).result := by
  show (Traced.bind x f).result = _
  rw [Traced.bind]
  cases x.result <;> rfl

@[simp] theorem result_collect (f : α → Traced (List β)) (as : List α) :
    (collect f as).result = gather (fun a => (f a).result) as := by
  induction as with
  | nil => rfl
  | cons a as ih =>
    show (f a >>= fun bs => collect f as >>= fun more => (Pure.pure (bs ++ more) : Traced _)).result
      = _
    rw [result_bind, gather]
    congr 1
    funext bs
    rw [result_bind, ih]
    rfl

@[simp] theorem result_select (test : α → Traced Bool) (as : List α) :
    (select test as).result = pick (fun a => (test a).result) as := by
  induction as with
  | nil => rfl
  | cons a as ih =>
    show (test a >>= fun keep => select test as >>= fun more =>
      (Pure.pure (if keep then a :: more else more) : Traced _)).result = _
    rw [result_bind, pick]
    congr 1
    funext keep
    rw [result_bind, ih]
    rfl

end Traced

/-! ### Equations of the evaluator -/

section

variable (site : Site) (s : Span)

@[simp] theorem Segment.result_step_field (name : String) :
    ((Segment.field name).step site s).result = site.field name s := rfl

@[simp] theorem Segment.result_step_wildcard :
    (Segment.wildcard.step site s).result = childValues site.doc s := rfl

@[simp] theorem Segment.result_step_index (i : Int64) :
    ((Segment.index i).step site s).result = site.index i.toInt s := rfl

@[simp] theorem Segment.result_step_slice (start stop step : Option Int64) :
    ((Segment.slice start stop step).step site s).result =
      site.slice (start.map (·.toInt)) (stop.map (·.toInt)) (step.map (·.toInt)) s := rfl

@[simp] theorem Segment.result_step_union (selectors : List Selector) :
    ((Segment.union selectors).step site s).result = site.union s selectors := rfl

@[simp] theorem Segment.result_step_descent :
    (Segment.descent.step site s).result = descendants site.doc s := rfl

@[simp] theorem Segment.result_step_filter (condition : Condition) :
    ((Segment.filter condition).step site s).result =
      childValues site.doc s >>= pick fun child => (condition.test site child).result := by
  refine (Traced.result_bind _ _).trans ?_
  simp

@[simp] theorem Segment.result_stepAll_nil (spans : List Span) :
    (Segment.stepAll site spans []).result = .ok spans := rfl

theorem Segment.result_stepAll_empty (segments : List Segment) :
    (Segment.stepAll site [] segments).result = .ok [] := by
  cases segments <;> rfl

@[simp] theorem Segment.result_stepAll_cons (spans : List Span) (segment : Segment)
    (more : List Segment) :
    (Segment.stepAll site spans (segment :: more)).result =
      gather (fun s => (segment.step site s).result) spans >>= fun reached =>
        (Segment.stepAll site reached more).result := by
  cases spans with
  | nil => exact (Segment.result_stepAll_empty site more).symm
  | cons s spans =>
    refine (Traced.result_bind _ _).trans ?_
    rw [Traced.result_collect]
    rfl

@[simp] theorem Condition.result_test_or (left right : Condition) :
    ((Condition.or left right).test site s).result =
      (left.test site s).result >>= fun holds =>
        if holds then .ok true else (right.test site s).result := by
  refine (Traced.result_bind _ _).trans ?_
  congr 1
  funext holds
  cases holds <;> rfl

@[simp] theorem Condition.result_test_and (left right : Condition) :
    ((Condition.and left right).test site s).result =
      (left.test site s).result >>= fun holds =>
        if holds then (right.test site s).result else .ok false := by
  refine (Traced.result_bind _ _).trans ?_
  congr 1
  funext holds
  cases holds <;> rfl

@[simp] theorem Condition.result_test_not (inner : Condition) :
    ((Condition.not inner).test site s).result =
      (inner.test site s).result >>= fun holds => .ok !holds := by
  refine (Traced.result_bind _ _).trans ?_
  rfl

/-- Whether two operands satisfy an operator; one that stands for no scalar satisfies none. -/
def Scalar.comparesBoth (a : Option Scalar) (op : Comparison) (b : Option Scalar) : Bool :=
  match a, b with
  | some a, some b => a.compares op b
  | _, _ => false

@[simp] theorem Condition.result_test_compare (left right : Operand) (op : Comparison) :
    ((Condition.compare left op right).test site s).result =
      (left.resolve site s).result >>= fun a => (right.resolve site s).result >>= fun b =>
        .ok (Scalar.comparesBoth a op b) := by
  refine (Traced.result_bind _ _).trans ?_
  congr 1
  funext a
  rw [Traced.result_bind]
  congr 1
  funext b
  cases a <;> cases b <;> rfl

/-- Whether a scalar is a text that a pattern matches. -/
def Pattern.matchesScalar (pattern : Pattern) : Option Scalar → Bool
  | some (.text cs) => pattern.isMatch cs
  | _ => false

@[simp] theorem Condition.result_test_like (operand : Operand) (pattern : Pattern) :
    ((Condition.like operand pattern).test site s).result =
      (operand.resolve site s).result >>= fun a => .ok (pattern.matchesScalar a) := by
  refine (Traced.result_bind _ _).trans ?_
  congr 1
  funext a
  rcases a with _ | _ | _ | _ | _ <;> rfl

@[simp] theorem Condition.result_test_present (operand : Operand) :
    ((Condition.present operand).test site s).result = (operand.exists site s).result := rfl

@[simp] theorem Operand.result_resolve_literal (value : Literal) :
    ((Operand.literal value).resolve site s).result = .ok (some (.ofLiteral value)) := rfl

@[simp] theorem Operand.result_resolve_current (segments : List Segment) :
    ((Operand.current segments).resolve site s).result =
      (Segment.stepAll site [s] segments).result >>= site.onlyScalar :=
  Traced.result_bind _ _

@[simp] theorem Operand.result_resolve_root (segments : List Segment) :
    ((Operand.root segments).resolve site s).result =
      (Segment.stepAll site [site.root] segments).result >>= site.onlyScalar :=
  Traced.result_bind _ _

@[simp] theorem Operand.result_exists_literal (value : Literal) :
    ((Operand.literal value).exists site s).result = .ok true := rfl

@[simp] theorem Operand.result_exists_current (segments : List Segment) :
    ((Operand.current segments).exists site s).result =
      (Segment.stepAll site [s] segments).result >>= fun spans => .ok !spans.isEmpty :=
  Traced.result_bind _ _

@[simp] theorem Operand.result_exists_root (segments : List Segment) :
    ((Operand.root segments).exists site s).result =
      (Segment.stepAll site [site.root] segments).result >>= fun spans => .ok !spans.isEmpty :=
  Traced.result_bind _ _

end

theorem Path.select_eq (p : Path) (doc : Bytes) :
    p.select doc = locateRoot doc >>= fun root => (Segment.stepAll ⟨doc, root⟩ [root] p).result := by
  rw [Path.select, Path.trace, Traced.result_bind, Path.traceMatches, Traced.result_bind,
    Traced.result_lift]
  cases locateRoot doc with
  | error fault => rfl
  | ok root =>
    show ((Segment.stepAll ⟨doc, root⟩ [root] p).result >>= fun spans =>
      (Traced.report (.matched p spans.length) >>= fun _ => Pure.pure spans).result) =
        (Segment.stepAll ⟨doc, root⟩ [root] p).result
    cases (Segment.stepAll ⟨doc, root⟩ [root] p).result <;> rfl

end JsonSpan

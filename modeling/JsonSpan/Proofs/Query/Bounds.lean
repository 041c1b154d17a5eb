import JsonSpan.Proofs.Query.Checked

/-!
# No access is out of range

The spans of an evaluation are sound: they are extents of values, they lie inside of the root, and
any two of them are apart (`select_sound`). On the strength of this no access of an evaluation, or of
writing its matches, is out of range, for any bytes and any path.
-/

namespace JsonSpan

namespace Slice

theorem range_of_mem_walk {step bound i j : Int} (h : j ∈ walk step bound i) :
    0 < step ∧ i ≤ j ∧ j < bound ∨ step < 0 ∧ j ≤ i := by
  fun_induction walk step bound i with
  | case1 i hc ih =>
    rcases List.mem_cons.1 h with rfl | h
    · omega
    · have := ih h
      omega
  | case2 => simp at h

theorem ends_le (length : Nat) (start stop : Option Int) (step : Int) :
    (0 < step → (ends length start stop step).2 ≤ length) ∧
      (step < 0 → (ends length start stop step).1 < length) := by
  unfold ends clamp
  split <;> constructor <;> intro _ <;> simp only <;> omega

theorem lt_of_mem_indices {length i : Nat} {start stop step : Option Int}
    (h : i ∈ indices length start stop step) : i < length := by
  obtain ⟨j, hj, hi⟩ := List.mem_filterMap.1 h
  have hji := Int.mem_toNat?.1 hi
  have hends := ends_le length start stop (step.getD 1)
  have hj' : j ∈ walk (step.getD 1) (ends length start stop (step.getD 1)).2
      (ends length start stop (step.getD 1)).1 := hj
  rcases range_of_mem_walk hj' with ⟨hstep, -, hlt⟩ | ⟨hstep, hle⟩
  · have := hends.1 hstep
    omega
  · have := hends.2 hstep
    omega

end Slice

namespace Checked

theorem slice?_of_isExtent {doc : Bytes} {s : Span} (h : s.IsExtent doc) :
    s.slice? doc = some (s.slice doc) :=
  slice?_eq (Nat.le_of_lt h.bounds.1) h.bounds.2

theorem keyMatches_eq {doc : Bytes} {low high : Nat} {key : Span}
    (h : Place.IsKey doc low high key) (name : String) :
    keyMatches doc key name = .ok (JsonSpan.keyMatches doc key name) := by
  obtain ⟨_, _, htwo, _, hlen⟩ := h
  have hpos : 0 < key.stop := by omega
  have hslice : Span.slice? ⟨key.start + 1, key.stop - 1⟩ doc =
      some (Span.slice ⟨key.start + 1, key.stop - 1⟩ doc) :=
    slice?_eq (by show key.start + 1 ≤ key.stop - 1; omega)
      (by show key.stop - 1 ≤ doc.length; omega)
  rw [keyMatches, if_pos hpos, hslice]
  rfl

theorem findNamed_eq {doc : Bytes} {low : Nat} (name : String) {children : List Child}
    (h : ∀ c ∈ children, Place.Found doc low c) :
    findNamed doc name children =
      .ok ((children.find? (Child.isNamed doc name)).map Child.value) := by
  induction children with
  | nil => rfl
  | cons c more ih =>
    have hmore := ih fun d hd => h d (by simp [hd])
    obtain ⟨key, value⟩ := c
    cases key with
    | none =>
      rw [findNamed, hmore]
      rfl
    | some key =>
      rw [findNamed, keyMatches_eq ((h _ List.mem_cons_self).key key rfl), List.find?_cons]
      have hnamed : Child.isNamed doc name ⟨some key, value⟩ = JsonSpan.keyMatches doc key name := rfl
      rw [hnamed]
      cases JsonSpan.keyMatches doc key name with
      | true => rfl
      | false => exact hmore

theorem pickAll_eq {values : List Span} {positions : List Nat}
    (h : ∀ i ∈ positions, i < values.length) :
    pickAll values positions = .ok (positions.filterMap (values[·]?)) := by
  induction positions with
  | nil => rfl
  | cons i more ih =>
    have hi := List.getElem?_eq_getElem (h i (by simp))
    rw [pickAll, ih fun j hj => h j (by simp [hj]), hi, List.filterMap_cons, hi]
    rfl

theorem slice_eq (site : Site) (s : Span) (start stop step : Option Int) :
    slice site start stop step s = lift (site.slice start stop step s) := by
  rw [slice, Site.slice]
  refine lift_bind fun k hk => ?_
  split
  · refine lift_bind fun values _ => ?_
    exact pickAll_eq fun i hi => Slice.lt_of_mem_indices hi
  · rfl

theorem index_eq (site : Site) (s : Span) (i : Int) : index site i s = lift (site.index i s) := by
  rw [index, Site.index]
  refine lift_bind fun k hk => ?_
  split
  · split
    · exact lift_bind fun _ _ => rfl
    · next hneg =>
      refine lift_bind fun values _ => ?_
      dsimp only
      split
      · -- the index is negative, so the position it counts to lies before the end
        have hlt : ((values.length : Int) + i).toNat < values.length := by omega
        simp only [List.getElem?_eq_getElem hlt]
        rfl
      · rfl
  · rfl

theorem field_eq {site : Site} {s : Span} (hs : s.IsExtent site.doc) (name : String) :
    field site name s = lift (site.field name s) := by
  rw [field, Site.field]
  refine lift_bind fun k hk => ?_
  split
  · next ho =>
    subst ho
    have hfound := fun c hc => ((hs.listing hk rfl).2 c hc).1
    rw [findMember, JsonSpan.findMember, findNamed_eq name hfound, Listing.find?]
    cases (Listing.ofOffset .object site.doc s.start).children.find? (Child.isNamed site.doc name) with
    | some c => rfl
    | none => cases (Listing.ofOffset .object site.doc s.start).fault? <;> rfl
  · rfl

theorem union_eq {site : Site} {s : Span} (hs : s.IsExtent site.doc) (selectors : List Selector) :
    union site s selectors = lift (site.union s selectors) := by
  induction selectors with
  | nil => rfl
  | cons selector more ih =>
    cases selector with
    | name name =>
      rw [union, Site.union, Site.selector, field_eq hs, ih]
      exact lift_bind fun _ _ => lift_bind fun _ _ => rfl
    | index i =>
      rw [union, Site.union, Site.selector, index_eq site s, ih]
      exact lift_bind fun _ _ => lift_bind fun _ _ => rfl

theorem onlyScalar_eq {site : Site} {spans : List Span} (h : ∀ s ∈ spans, s.IsExtent site.doc) :
    onlyScalar site spans = lift (site.onlyScalar spans) := by
  match spans with
  | [] => rfl
  | [s] =>
    rw [onlyScalar, slice?_of_isExtent (h s (by simp))]
    exact lift_bind fun _ _ => rfl
  | _ :: _ :: _ => rfl

/-! ### Evaluation -/

mutual

/-- Where a segment starts at an extent, no access on its way is out of range. -/
theorem step_eq (site : Site) (hroot : site.root.IsExtent site.doc) (s : Span)
    (hs : s.IsExtent site.doc) :
    (segment : Segment) → step site s segment = lift (segment.step site s).result
  | .field name => by
    rw [step, Segment.result_step_field]
    exact field_eq hs name
  | .wildcard => by rw [step, Segment.result_step_wildcard]
  | .index i => by
    rw [step, Segment.result_step_index]
    exact index_eq site s i.toInt
  | .slice start stop stride => by
    rw [step, Segment.result_step_slice]
    exact slice_eq site s _ _ _
  | .union selectors => by
    rw [step, Segment.result_step_union]
    exact union_eq hs selectors
  | .descent => by rw [step, Segment.result_step_descent]
  | .filter condition => by
    rw [step, Segment.result_step_filter]
    refine lift_bind fun children hc => ?_
    exact pick_eq_lift fun child hm =>
      test_eq site hroot child (isExtent_of_childValues hs hc child hm) condition

theorem stepAll_eq (site : Site) (hroot : site.root.IsExtent site.doc) (spans : List Span)
    (hs : ∀ s ∈ spans, s.IsExtent site.doc) :
    (segments : List Segment) →
      stepAll site spans segments = lift (Segment.stepAll site spans segments).result
  | [] => by
    rw [stepAll, Segment.result_stepAll_nil]
    rfl
  | segment :: more => by
    rw [stepAll, Segment.result_stepAll_cons,
      gather_eq_lift fun s hm => step_eq site hroot s (hs s hm) segment]
    refine lift_bind fun reached hr => ?_
    refine stepAll_eq site hroot reached (fun v hv => ?_) more
    obtain ⟨s, hm, vs, hstep, hv'⟩ := mem_of_gather hr v hv
    exact isExtent_of_step (hs s hm) hstep v hv'

theorem test_eq (site : Site) (hroot : site.root.IsExtent site.doc) (s : Span)
    (hs : s.IsExtent site.doc) :
    (condition : Condition) → test site s condition = lift (condition.test site s).result
  | .or left right => by
    rw [test, Condition.result_test_or, test_eq site hroot s hs left,
      test_eq site hroot s hs right]
    refine lift_bind fun holds _ => ?_
    cases holds <;> rfl
  | .and left right => by
    rw [test, Condition.result_test_and, test_eq site hroot s hs left,
      test_eq site hroot s hs right]
    refine lift_bind fun holds _ => ?_
    cases holds <;> rfl
  | .not inner => by
    rw [test, Condition.result_test_not, test_eq site hroot s hs inner]
    exact lift_bind fun _ _ => rfl
  | .compare left op right => by
    rw [test, Condition.result_test_compare, resolve_eq site hroot s hs left,
      resolve_eq site hroot s hs right]
    exact lift_bind fun _ _ => lift_bind fun _ _ => rfl
  | .like operand pattern => by
    rw [test, Condition.result_test_like, resolve_eq site hroot s hs operand]
    exact lift_bind fun _ _ => rfl
  | .present operand => by
    rw [test, Condition.result_test_present, leads_eq site hroot s hs operand]

theorem resolve_eq (site : Site) (hroot : site.root.IsExtent site.doc) (s : Span)
    (hs : s.IsExtent site.doc) :
    (operand : Operand) → resolve site s operand = lift (operand.resolve site s).result
  | .literal value => by
    rw [resolve, Operand.result_resolve_literal]
    rfl
  | .current segments => by
    rw [resolve, Operand.result_resolve_current,
      stepAll_eq site hroot [s] (by simpa using hs) segments]
    exact lift_bind fun reached hr => onlyScalar_eq (isExtent_of_stepAll (by simpa using hs) hr)
  | .root segments => by
    rw [resolve, Operand.result_resolve_root,
      stepAll_eq site hroot [site.root] (by simpa using hroot) segments]
    exact lift_bind fun reached hr => onlyScalar_eq (isExtent_of_stepAll (by simpa using hroot) hr)

theorem leads_eq (site : Site) (hroot : site.root.IsExtent site.doc) (s : Span)
    (hs : s.IsExtent site.doc) :
    (operand : Operand) → leads site s operand = lift (operand.exists site s).result
  | .literal value => by
    rw [leads, Operand.result_exists_literal]
    rfl
  | .current segments => by
    rw [leads, Operand.result_exists_current,
      stepAll_eq site hroot [s] (by simpa using hs) segments]
    exact lift_bind fun _ _ => rfl
  | .root segments => by
    rw [leads, Operand.result_exists_root,
      stepAll_eq site hroot [site.root] (by simpa using hroot) segments]
    exact lift_bind fun _ _ => rfl

end

theorem select_eq_lift (p : Path) (doc : Bytes) : select p doc = lift (p.select doc) := by
  rw [select, Path.select_eq]
  refine lift_bind fun root hr => ?_
  have he := (isExtent_of_locateRoot hr).1
  exact stepAll_eq ⟨doc, root⟩ he [root] (by simpa using he) p

/-! ### Writing matches -/

theorem laterPieces_eq {doc : Bytes} {spans : List Span} (h : ∀ s ∈ spans, s.IsExtent doc) :
    laterPieces doc spans = .ok (spans.flatMap fun s => [[Byte.comma], s.slice doc]) := by
  induction spans with
  | nil => rfl
  | cons s more ih =>
    rw [laterPieces, slice?_of_isExtent (h s (by simp)), ih fun t ht => h t (by simp [ht])]
    rfl

theorem matchPieces_eq {doc : Bytes} {spans : List Span} (h : ∀ s ∈ spans, s.IsExtent doc) :
    matchPieces doc spans = .ok (JsonSpan.matchPieces doc spans) := by
  match spans with
  | [] => rfl
  | [s] =>
    rw [matchPieces, slice?_of_isExtent (h s (by simp))]
    rfl
  | s :: t :: more =>
    rw [matchPieces, slice?_of_isExtent (h s (by simp)),
      laterPieces_eq fun v hv => h v (List.mem_cons_of_mem s hv)]
    · rfl
    · simp

theorem answer_eq_lift (p : Path) (doc : Bytes) :
    answer p doc = lift ((p.select doc).map (renderMatches doc)) := by
  rw [answer, select_eq_lift]
  cases hs : p.select doc with
  | error f => rfl
  | ok spans =>
    obtain ⟨root, hr, hbelow⟩ := below_of_select hs
    have he := (isExtent_of_locateRoot hr).1
    have hpieces := matchPieces_eq fun s hm => ((hbelow s hm).extent he).1
    show (matchPieces doc spans >>= fun pieces => .ok pieces.flatten) = _
    rw [hpieces]
    rfl

end Checked

/-- The matches of a path lie in the root of the document, each is read back where it starts, and
any two of them are apart; and neither the evaluation nor the writing of its matches accesses
anything that is out of range. -/
theorem Path.select_sound (p : Path) (doc : Bytes) :
    (∀ spans, p.select doc = .ok spans →
      ∃ root, locateRoot doc = .ok root ∧ root.stop ≤ doc.length ∧
        (∀ s ∈ spans, root.start ≤ s.start ∧ s.start < s.stop ∧ s.stop ≤ root.stop ∧
          (Place.ofOffset doc s.start).readValue = .ok (s, .ofOffset doc s.stop)) ∧
        ∀ s ∈ spans, ∀ t ∈ spans, s = t ∨ s.stop ≤ t.start ∨ t.stop ≤ s.start ∨
          s.Encloses t ∨ t.Encloses s) ∧
      Checked.select p doc = (p.select doc).mapError .fault ∧
      Checked.answer p doc = ((p.select doc).map (renderMatches doc)).mapError .fault := by
  refine ⟨fun spans h => ?_, Checked.select_eq_lift p doc, Checked.answer_eq_lift p doc⟩
  obtain ⟨root, hr, hbelow⟩ := below_of_select h
  obtain ⟨he, hne, hlen⟩ := isExtent_of_locateRoot hr
  refine ⟨root, hr, hlen, fun s hs => ?_, fun s hs t ht => ?_⟩
  · obtain ⟨hext, hin⟩ := (hbelow s hs).extent he
    rcases hin with rfl | ⟨hin, _⟩
    · exact ⟨Nat.le_refl _, hne, Nat.le_refl _, hext⟩
    · exact ⟨Nat.le_of_lt hin.1, hext.bounds.1, Nat.le_of_lt hin.2, hext⟩
  · exact apart_of_below he (hbelow s hs) (hbelow t ht)

theorem Path.select_sound_nested :
    ∃ spans, Path.select [.descent, .wildcard] (utf8 "[1,[2]]") = .ok spans ∧ spans.length = 3 ∧
      ∀ s ∈ spans, ∀ t ∈ spans, s = t ∨ s.stop ≤ t.start ∨ t.stop ≤ s.start ∨
        s.Encloses t ∨ t.Encloses s := by
  have hrun : (Path.select [.descent, .wildcard] (utf8 "[1,[2]]")).toOption =
      some [⟨1, 2⟩, ⟨3, 6⟩, ⟨4, 5⟩] := by decide +kernel
  cases h : Path.select [.descent, .wildcard] (utf8 "[1,[2]]") with
  | error f =>
    rw [h] at hrun
    cases hrun
  | ok spans =>
    rw [h] at hrun
    cases hrun
    obtain ⟨_, _, _, _, hapart⟩ := (select_sound [.descent, .wildcard] (utf8 "[1,[2]]")).1 _ h
    exact ⟨_, rfl, rfl, hapart⟩

end JsonSpan

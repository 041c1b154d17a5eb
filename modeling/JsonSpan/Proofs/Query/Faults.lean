import JsonSpan.Proofs.Query.Below
import JsonSpan.Proofs.Scan.Inside

/-!
# What an evaluation reports as wrong

There are two ways for an evaluation to fail. No root is found, and then what is reported is what
stands where the search for it stopped (`failsOnly_locateRoot`). Or children of a value below the
root cannot be read, and then a byte between the brackets of the root is to blame
(`Segment.failsInside_stepAll`); the document cannot end there. So what is reported is always there,
and after the root is found nothing is reported to be missing (`Path.fault_position`).
-/

namespace JsonSpan

/-! ### Where no root is found -/

/-- What a fault says is so: the document ends at its offset, or its byte stands there. -/
def Fault.IsExact (doc : Bytes) : Fault → Prop
  | .truncated offset => offset = doc.length
  | .badByte offset byte => doc[offset]? = some byte

theorem Place.After.isExact_fault {doc : Bytes} {p : Place} (h : (Place.ofOffset doc 0).After p) :
    p.fault.IsExact doc := by
  obtain ⟨taken, hdoc, hoffset⟩ := h
  obtain ⟨offset, rest⟩ := p
  simp only [Place.ofOffset, List.drop_zero, Nat.zero_add] at hdoc hoffset
  subst hdoc hoffset
  cases rest with
  | nil => simp [Place.fault, Fault.IsExact]
  | cons b r => simp [Place.fault, Fault.IsExact]

theorem failsOnly_locateRoot (doc : Bytes) : FailsOnly (Fault.IsExact doc) (locateRoot doc) := by
  intro fault h
  have hblanks := Place.after_skipBlanks (.ofOffset doc 0)
  have hstop := Place.local_skipValue.after (Place.ofOffset doc 0).skipBlanks
  rw [locateRoot, Place.readValue] at h
  cases hskip : (Place.ofOffset doc 0).skipBlanks.skipValue with
  | ok q =>
    rw [hskip] at h
    cases h
  | error q =>
    rw [hskip] at h hstop
    cases h
    exact (hblanks.trans hstop).isExact_fault

/-! ### Lists of steps -/

section

variable {ε α β : Type} {P : ε → Prop} {as : List α}

theorem FailsOnly.gather {f : α → Except ε (List β)} (h : ∀ a ∈ as, FailsOnly P (f a)) :
    FailsOnly P (gather f as) := by
  induction as with
  | nil => exact .ok []
  | cons a as ih =>
    refine .bind (h a (by simp)) fun _ _ => ?_
    exact .bind (ih fun b hb => h b (by simp [hb])) fun _ _ => .ok _

theorem FailsOnly.pick {test : α → Except ε Bool} (h : ∀ a ∈ as, FailsOnly P (test a)) :
    FailsOnly P (pick test as) := by
  induction as with
  | nil => exact .ok []
  | cons a as ih =>
    refine .bind (h a (by simp)) fun _ _ => ?_
    exact .bind (ih fun b hb => h b (by simp [hb])) fun _ _ => .ok _

end

/-! ### Listings -/

namespace Listing

variable {P : Fault → Prop} {l : Listing}

theorem failsOnly_values (h : ∀ x, l.fault? = some x → P x) : FailsOnly P l.values := by
  intro x hx
  unfold values at hx
  split at hx
  · next hl =>
    cases hx
    exact h x hl
  · cases hx

theorem failsOnly_find? (h : ∀ x, l.fault? = some x → P x) (test : Child → Bool) :
    FailsOnly P (l.find? test) := by
  intro x hx
  unfold find? at hx
  split at hx
  · cases hx
  · split at hx
    · next hl =>
      cases hx
      exact h x hl
    · cases hx

theorem failsOnly_get? (h : ∀ x, l.fault? = some x → P x) (i : Nat) : FailsOnly P (l.get? i) := by
  intro x hx
  unfold get? at hx
  split at hx
  · cases hx
  · split at hx
    · next hl =>
      cases hx
      exact h x hl
    · cases hx

end Listing

/-! ### What is asked of a value below the root -/

namespace Site

/-- A computation that fails only because of a byte between the brackets of the root. -/
def FailsInside {α : Type} (site : Site) (x : Except Fault α) : Prop :=
  FailsOnly (Fault.IsInside site.doc site.root) x

/-- The root is the extent of a value, and whatever cuts the listing of a value below it short is of
a kind. -/
structure Blames (site : Site) (P : Fault → Prop) : Prop where
  extent : site.root.IsExtent site.doc
  fault : ∀ {s : Span}, Below site.doc site.root s → ∀ {k : Kind} {container : Container},
    (Place.ofOffset site.doc s.start).kind = .ok k → k.container? = some container →
    ∀ x, (Listing.ofOffset container site.doc s.start).fault? = some x → P x

variable {site : Site} {s : Span}

theorem blames_isInside (hroot : site.root.IsExtent site.doc) :
    site.Blames (Fault.IsInside site.doc site.root) where
  extent := hroot
  fault hs _ _ hk hc x hx := by
    obtain ⟨hextent, hwhere⟩ := hs.extent hroot
    have hx := hextent.isInside_of_fault hk hc hx
    rcases hwhere with rfl | ⟨hin, _⟩
    · exact hx
    · obtain ⟨offset, byte, rfl, hlow, hhigh, hbyte⟩ := hx
      exact ⟨offset, byte, rfl, Nat.lt_trans hin.1 hlow, Nat.lt_trans hhigh hin.2, hbyte⟩

variable {P : Fault → Prop}

section

variable (hb : site.Blames P) (hs : Below site.doc site.root s)

include hb hs

theorem failsOnly_kind : FailsOnly P (Place.ofOffset site.doc s.start).kind := by
  obtain ⟨k, hk⟩ := (hs.extent hb.extent).1.exists_kind
  rw [hk]
  exact .ok k

theorem failsOnly_childValues : FailsOnly P (childValues site.doc s) := by
  refine .bind (failsOnly_kind hb hs) fun k hk => ?_
  split
  · next container hc => exact Listing.failsOnly_values (hb.fault hs hk hc)
  · exact .ok []

theorem failsOnly_field (name : String) : FailsOnly P (site.field name s) := by
  refine .bind (failsOnly_kind hb hs) fun k hk => ?_
  split
  · next ho =>
    have hfault := hb.fault hs hk (congrArg Kind.container? ho)
    exact .bind (Listing.failsOnly_find? hfault _) fun _ _ => .ok _
  · exact .ok []

theorem failsOnly_index (i : Int) : FailsOnly P (site.index i s) := by
  refine .bind (failsOnly_kind hb hs) fun k hk => ?_
  split
  · next ha =>
    have hfault := hb.fault hs hk (congrArg Kind.container? ha)
    split
    · exact .bind (Listing.failsOnly_get? hfault _) fun _ _ => .ok _
    · refine .bind (Listing.failsOnly_values hfault) fun _ _ => ?_
      simp only
      split <;> exact .ok _
  · exact .ok []

theorem failsOnly_slice (start stop step : Option Int) :
    FailsOnly P (site.slice start stop step s) := by
  refine .bind (failsOnly_kind hb hs) fun k hk => ?_
  split
  · next ha =>
    have hfault := hb.fault hs hk (congrArg Kind.container? ha)
    exact .bind (Listing.failsOnly_values hfault) fun _ _ => .ok _
  · exact .ok []

theorem failsOnly_union (selectors : List Selector) : FailsOnly P (site.union s selectors) := by
  induction selectors with
  | nil => exact .ok []
  | cons selector more ih =>
    have hselector : FailsOnly P (site.selector s selector) := by
      cases selector with
      | name name => exact failsOnly_field hb hs name
      | index i => exact failsOnly_index hb hs i.toInt
    exact .bind hselector fun _ _ => .bind ih fun _ _ => .ok _

end

theorem failsOnly_walk (hb : site.Blames P) {stack : List Span}
    (hstack : ∀ s ∈ stack, Below site.doc site.root s) :
    FailsOnly P (Descent.walk site.doc stack) := by
  fun_induction Descent.walk site.doc stack with
  | case1 => exact .ok []
  | case2 node stack fault hc =>
    intro x hx
    cases hx
    exact failsOnly_childValues hb (hstack node (by simp)) fault hc
  | case3 node stack children hc ih =>
    refine .map (ih fun s hs => ?_)
    rcases List.mem_append.1 hs with hs | hs
    · exact (hstack node (by simp)).trans (isChild_of_childValues hc s hs).below
    · exact hstack s (by simp [hs])

theorem failsOnly_onlyScalar (hb : site.Blames P) {spans : List Span}
    (h : ∀ s ∈ spans, Below site.doc site.root s) : FailsOnly P (site.onlyScalar spans) := by
  match spans with
  | [] => exact .ok none
  | [s] => exact .bind (failsOnly_kind hb (h s (by simp))) fun _ _ => .ok _
  | _ :: _ :: _ => exact .ok none

end Site

/-! ### Evaluation -/

theorem Below.stepAll {site : Site} {spans reached : List Span} {segments : List Segment}
    (hs : ∀ s ∈ spans, Below site.doc site.root s)
    (h : (Segment.stepAll site spans segments).result = .ok reached) :
    ∀ v ∈ reached, Below site.doc site.root v := by
  intro v hv
  obtain ⟨s, hm, hb⟩ := below_of_stepAll h v hv
  exact (hs s hm).trans hb

mutual

theorem Segment.failsOnly_step {site : Site} {P : Fault → Prop} (hb : site.Blames P) {s : Span}
    (hs : Below site.doc site.root s) :
    (segment : Segment) → FailsOnly P (segment.step site s).result
  | .field name => by
    rw [Segment.result_step_field]
    exact Site.failsOnly_field hb hs name
  | .wildcard => by
    rw [Segment.result_step_wildcard]
    exact Site.failsOnly_childValues hb hs
  | .index i => by
    rw [Segment.result_step_index]
    exact Site.failsOnly_index hb hs i.toInt
  | .slice start stop step => by
    rw [Segment.result_step_slice]
    exact Site.failsOnly_slice hb hs _ _ _
  | .union selectors => by
    rw [Segment.result_step_union]
    exact Site.failsOnly_union hb hs selectors
  | .descent => by
    rw [Segment.result_step_descent]
    exact Site.failsOnly_walk hb (List.forall_mem_singleton.2 hs)
  | .filter condition => by
    rw [Segment.result_step_filter]
    refine .bind (Site.failsOnly_childValues hb hs) fun children hc => ?_
    refine .pick fun child hm => ?_
    exact Condition.failsOnly_test hb (hs.trans (isChild_of_childValues hc child hm).below)
      condition

theorem Segment.failsOnly_stepAll {site : Site} {P : Fault → Prop} (hb : site.Blames P)
    {spans : List Span} (hs : ∀ s ∈ spans, Below site.doc site.root s) :
    (segments : List Segment) → FailsOnly P (Segment.stepAll site spans segments).result
  | [] => by
    rw [Segment.result_stepAll_nil]
    exact .ok spans
  | segment :: more => by
    rw [Segment.result_stepAll_cons]
    refine .bind (.gather fun s hm => Segment.failsOnly_step hb (hs s hm) segment)
      fun reached hr => ?_
    refine Segment.failsOnly_stepAll hb (fun v hv => ?_) more
    obtain ⟨s, hm, vs, hvs, hv⟩ := mem_of_gather hr v hv
    exact (hs s hm).trans (below_of_step hvs v hv)

theorem Condition.failsOnly_test {site : Site} {P : Fault → Prop} (hb : site.Blames P) {s : Span}
    (hs : Below site.doc site.root s) :
    (condition : Condition) → FailsOnly P (condition.test site s).result
  | .or left right => by
    rw [Condition.result_test_or]
    refine .bind (Condition.failsOnly_test hb hs left) fun holds _ => ?_
    split
    · exact .ok true
    · exact Condition.failsOnly_test hb hs right
  | .and left right => by
    rw [Condition.result_test_and]
    refine .bind (Condition.failsOnly_test hb hs left) fun holds _ => ?_
    split
    · exact Condition.failsOnly_test hb hs right
    · exact .ok false
  | .not inner => by
    rw [Condition.result_test_not]
    exact .bind (Condition.failsOnly_test hb hs inner) fun _ _ => .ok _
  | .compare left op right => by
    rw [Condition.result_test_compare]
    refine .bind (Operand.failsOnly_resolve hb hs left) fun _ _ => ?_
    exact .bind (Operand.failsOnly_resolve hb hs right) fun _ _ => .ok _
  | .like operand pattern => by
    rw [Condition.result_test_like]
    exact .bind (Operand.failsOnly_resolve hb hs operand) fun _ _ => .ok _
  | .present operand => by
    rw [Condition.result_test_present]
    exact Operand.failsOnly_exists hb hs operand

theorem Operand.failsOnly_resolve {site : Site} {P : Fault → Prop} (hb : site.Blames P) {s : Span}
    (hs : Below site.doc site.root s) :
    (operand : Operand) → FailsOnly P (operand.resolve site s).result
  | .literal value => by
    rw [Operand.result_resolve_literal]
    exact .ok _
  | .current segments => by
    have hone := List.forall_mem_singleton.2 hs
    rw [Operand.result_resolve_current]
    exact .bind (Segment.failsOnly_stepAll hb hone segments) fun _ h =>
      Site.failsOnly_onlyScalar hb (Below.stepAll hone h)
  | .root segments => by
    have hself : Below site.doc site.root site.root := .refl _
    have hone := List.forall_mem_singleton.2 hself
    rw [Operand.result_resolve_root]
    exact .bind (Segment.failsOnly_stepAll hb hone segments) fun _ h =>
      Site.failsOnly_onlyScalar hb (Below.stepAll hone h)

theorem Operand.failsOnly_exists {site : Site} {P : Fault → Prop} (hb : site.Blames P) {s : Span}
    (hs : Below site.doc site.root s) :
    (operand : Operand) → FailsOnly P (operand.exists site s).result
  | .literal value => by
    rw [Operand.result_exists_literal]
    exact .ok _
  | .current segments => by
    rw [Operand.result_exists_current]
    exact .bind (Segment.failsOnly_stepAll hb (List.forall_mem_singleton.2 hs) segments)
      fun _ _ => .ok _
  | .root segments => by
    have hself : Below site.doc site.root site.root := .refl _
    have hone := List.forall_mem_singleton.2 hself
    rw [Operand.result_exists_root]
    exact .bind (Segment.failsOnly_stepAll hb hone segments) fun _ _ => .ok _

end

/-- Once the root is found, an evaluation fails only because of a byte between its brackets. -/
theorem Segment.failsInside_stepAll {site : Site} (hroot : site.root.IsExtent site.doc)
    {spans : List Span} (hs : ∀ s ∈ spans, Below site.doc site.root s) (segments : List Segment) :
    site.FailsInside (Segment.stepAll site spans segments).result :=
  Segment.failsOnly_stepAll (Site.blames_isInside hroot) hs segments

/-! ### Paths -/

theorem Path.select_nil (doc : Bytes) : Path.select [] doc = (locateRoot doc).map ([·]) := by
  rw [Path.select_eq]
  cases locateRoot doc with
  | error fault => rfl
  | ok root => exact Segment.result_stepAll_nil ⟨doc, root⟩ [root]

/-- A path fails because there is no root, or because of a byte between the brackets of the root. -/
theorem Path.failsOnly_select (p : Path) (doc : Bytes) :
    FailsOnly (fun x => locateRoot doc = .error x ∧ x.IsExact doc ∨
      ∃ root, locateRoot doc = .ok root ∧ x.IsInside doc root) (p.select doc) := by
  rw [Path.select_eq]
  refine .bind (fun x h => .inl ⟨h, failsOnly_locateRoot doc x h⟩) fun root hr => ?_
  refine .mono (fun x h => .inr ⟨root, hr, h⟩) ?_
  have he : (Site.mk doc root).root.IsExtent doc := (isExtent_of_locateRoot hr).1
  exact Segment.failsInside_stepAll he (List.forall_mem_singleton.2 (.refl root)) p

/-- Faults are exact. That something is missing at the end of the document is reported at that end,
and only if the root itself is not complete, so that the empty path fails in the same way. A byte is
reported where it stands, which is strictly inside of the root if there is one. -/
theorem Path.fault_position (p : Path) (doc : Bytes) :
    (∀ offset, p.select doc = .error (.truncated offset) →
      offset = doc.length ∧ Path.select [] doc = .error (.truncated offset)) ∧
    (∀ offset byte, p.select doc = .error (.badByte offset byte) →
      offset < doc.length ∧ doc[offset]? = some byte ∧
        ∀ root, locateRoot doc = .ok root → root.start < offset ∧ offset < root.stop) ∧
    ∀ spans, Path.select [] doc = .ok spans → ∀ offset, p.select doc ≠ .error (.truncated offset) := by
  have htruncated : ∀ offset, p.select doc = .error (.truncated offset) →
      offset = doc.length ∧ Path.select [] doc = .error (.truncated offset) := by
    intro offset h
    obtain ⟨hroot, hend⟩ | ⟨root, _, _, _, hx, _⟩ := p.failsOnly_select doc _ h
    · rw [Path.select_nil, hroot]
      exact ⟨hend, rfl⟩
    · cases hx
  refine ⟨htruncated, fun offset byte h => ?_, fun spans hspans offset h => ?_⟩
  · obtain ⟨hroot, hbyte⟩ | ⟨root, hroot, _, _, hx, hlow, hhigh, hbyte⟩ := p.failsOnly_select doc _ h
    · refine ⟨(List.getElem?_eq_some_iff.1 hbyte).1, hbyte, fun root hr => ?_⟩
      cases hroot.symm.trans hr
    · cases hx
      refine ⟨(List.getElem?_eq_some_iff.1 hbyte).1, hbyte, fun root' hr => ?_⟩
      cases hroot.symm.trans hr
      exact ⟨hlow, hhigh⟩
  · cases hspans.symm.trans (htruncated offset h).2

theorem Path.fault_position_stray :
    (utf8 "\x7b\"a\" 1\x7d")[5]? = some (Byte.ofChar '1') ∧
    (∀ root, locateRoot (utf8 "\x7b\"a\" 1\x7d") = .ok root → root.start < 5 ∧ 5 < root.stop) ∧
    Path.select [] (utf8 "[1,") = .error (.truncated 3) ∧
    ∀ offset, Path.select [.wildcard] (utf8 "[1 2]") ≠ .error (.truncated offset) := by
  obtain ⟨_, hbyte, hroot⟩ := (fault_position [.field "b"] (utf8 "\x7b\"a\" 1\x7d")).2.1 5
    (Byte.ofChar '1') (by decide +kernel)
  obtain ⟨_, hend⟩ := (fault_position [.wildcard] (utf8 "[1,")).1 3 (by decide +kernel)
  exact ⟨hbyte, hroot, hend,
    (fault_position [.wildcard] (utf8 "[1 2]")).2.2 [⟨0, 5⟩] (by decide +kernel)⟩

end JsonSpan

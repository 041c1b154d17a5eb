import JsonSpan.Proofs.Query.Below
import JsonSpan.Proofs.Scan.Framing

/-!
# Evaluation in a frame

From the values of a document every segment leads to the same values, or to the same fault, whatever
stands before and after the document, up to the offsets, which move with it
(`Segment.result_stepAll_frame`). Conditions that ask for the root need the roots to correspond.

Hence only the top-level value of a document matters: a path gives the same in the whole document as
in the bytes of that value alone, moved to where the value starts (`Path.select_root_slice`).
-/

namespace JsonSpan

/-! ### Paths that ask for the root -/

mutual

/-- Whether a segment asks for the root, at any depth of its conditions. -/
def Segment.usesRoot : Segment → Bool
  | .filter condition => condition.usesRoot
  | _ => false

def Segment.anyUsesRoot : List Segment → Bool
  | [] => false
  | s :: ss => s.usesRoot || Segment.anyUsesRoot ss

def Condition.usesRoot : Condition → Bool
  | .or left right => left.usesRoot || right.usesRoot
  | .and left right => left.usesRoot || right.usesRoot
  | .not inner => inner.usesRoot
  | .compare left _ right => left.usesRoot || right.usesRoot
  | .like operand _ => operand.usesRoot
  | .present operand => operand.usesRoot

def Operand.usesRoot : Operand → Bool
  | .current segments => Segment.anyUsesRoot segments
  | .root _ => true
  | .literal _ => false

end

/-- Whether a condition of a path asks for the root. -/
def Path.usesRoot (p : Path) : Bool :=
  Segment.anyUsesRoot p

/-! ### Lists of steps -/

section

variable {ε ε' α α' β β' : Type} {e : ε → ε'}

theorem gather_eq_mapBoth {g : α → α'} {h : β → β'} {F : α' → Except ε' (List β')}
    {G : α → Except ε (List β)} {as : List α} (hF : ∀ a ∈ as, F (g a) = mapBoth e (List.map h) (G a)) :
    gather F (as.map g) = mapBoth e (List.map h) (gather G as) := by
  induction as with
  | nil => rfl
  | cons a as ih =>
    refine bind_eq_mapBoth (hF a (by simp)) fun bs _ => ?_
    refine bind_eq_mapBoth (ih fun b hb => hF b (by simp [hb])) fun more _ => ?_
    simp [pure, Except.pure]

theorem pick_eq_mapBoth {g : α → α'} {F : α' → Except ε' Bool} {G : α → Except ε Bool} {as : List α}
    (hF : ∀ a ∈ as, F (g a) = mapBoth e id (G a)) :
    pick F (as.map g) = mapBoth e (List.map g) (pick G as) := by
  induction as with
  | nil => rfl
  | cons a as ih =>
    refine bind_eq_mapBoth (hF a (by simp)) fun keep _ => ?_
    refine bind_eq_mapBoth (ih fun b hb => hF b (by simp [hb])) fun more _ => ?_
    cases keep <;> rfl

end

/-! ### Listings -/

namespace Frame

variable (f : Frame)

theorem values_listing (l : Listing) :
    (f.listing l).values = mapBoth f.fault (List.map f.span) l.values := by
  obtain ⟨children, fault?⟩ := l
  cases fault? with
  | some x => rfl
  | none => simp [Listing.values, listing, child]

theorem get?_listing (l : Listing) (i : Nat) :
    (f.listing l).get? i = mapBoth f.fault (Option.map f.span) (l.get? i) := by
  obtain ⟨children, fault?⟩ := l
  simp only [Listing.get?, listing, List.getElem?_map]
  cases children[i]? with
  | some c => rfl
  | none => cases fault? <;> rfl

theorem find?_listing {l : Listing} {test test' : Child → Bool}
    (h : ∀ c ∈ l.children, test' (f.child c) = test c) :
    (f.listing l).find? test' = mapBoth f.fault (Option.map f.span) (l.find? test) := by
  obtain ⟨children, fault?⟩ := l
  have hfind : (children.map f.child).find? test' = (children.find? test).map f.child := by
    induction children with
    | nil => rfl
    | cons c cs ih =>
      rw [List.map_cons, List.find?_cons, List.find?_cons, h c (by simp)]
      cases test c with
      | true => rfl
      | false => exact ih fun d hd => h d (List.mem_cons_of_mem c hd)
  simp only [Listing.find?, listing, hfind]
  cases children.find? test with
  | some c => rfl
  | none => cases fault? <;> rfl

end Frame

/-! ### What is asked of one value -/

section

variable {inner : Bytes} {s r r' : Span} (f : Frame)

theorem Scalar.ofSpan_frame (hs : s.IsExtent inner) :
    Scalar.ofSpan (f.doc inner) (f.span s) = mapBoth f.fault id (Scalar.ofSpan inner s) := by
  refine bind_eq_mapBoth (hs.kind_frame f) fun k _ => ?_
  rw [f.slice_span hs.bounds.2]
  rfl

theorem childValues_frame (hs : s.IsExtent inner) :
    childValues (f.doc inner) (f.span s) =
      mapBoth f.fault (List.map f.span) (childValues inner s) := by
  refine bind_eq_mapBoth (hs.kind_frame f) fun k hk => ?_
  cases hc : k.container? with
  | none => simp [hc, pure, Except.pure]
  | some container => simp [hc, hs.listing_frame f hk hc, f.values_listing]

theorem keyMatches_frame {low high : Nat} {key : Span} (hkey : Place.IsKey inner low high key)
    (name : String) :
    keyMatches (f.doc inner) (f.span key) name = keyMatches inner key name := by
  obtain ⟨_, _, htwo, _, hlen⟩ := hkey
  have hraw : Span.slice ⟨(f.span key).start + 1, (f.span key).stop - 1⟩ (f.doc inner) =
      Span.slice ⟨key.start + 1, key.stop - 1⟩ inner := by
    have hspan : (⟨(f.span key).start + 1, (f.span key).stop - 1⟩ : Span) =
        f.span ⟨key.start + 1, key.stop - 1⟩ := by
      simp only [Frame.span, Span.shift, Span.mk.injEq]
      omega
    rw [hspan, f.slice_span (by show key.stop - 1 ≤ inner.length; omega)]
  rw [keyMatches, keyMatches, hraw]

theorem findMember_frame (hs : s.IsExtent inner)
    (hk : (Place.ofOffset inner s.start).kind = .ok .object) (name : String) :
    findMember (f.doc inner) (f.span s).start name =
      mapBoth f.fault (Option.map f.span) (findMember inner s.start name) := by
  rw [findMember, findMember, hs.listing_frame f hk rfl]
  refine f.find?_listing fun c hc => ?_
  have hfound := ((hs.listing hk rfl).2 c hc).1
  obtain ⟨key, value⟩ := c
  cases key with
  | none => rfl
  | some key => exact keyMatches_frame f (hfound.key key rfl) name

namespace Site

theorem field_frame (hs : s.IsExtent inner) (name : String) :
    field ⟨f.doc inner, r⟩ name (f.span s) =
      mapBoth f.fault (List.map f.span) (field ⟨inner, r'⟩ name s) := by
  refine bind_eq_mapBoth (hs.kind_frame f) fun k hk => ?_
  simp only [id]
  split
  · next ho =>
    subst ho
    refine bind_eq_mapBoth (findMember_frame f hs hk name) fun found _ => ?_
    cases found <;> rfl
  · rfl

theorem index_frame (hs : s.IsExtent inner) (i : Int) :
    index ⟨f.doc inner, r⟩ i (f.span s) =
      mapBoth f.fault (List.map f.span) (index ⟨inner, r'⟩ i s) := by
  refine bind_eq_mapBoth (hs.kind_frame f) fun k hk => ?_
  simp only [id]
  split
  · next ha =>
    subst ha
    simp only [hs.listing_frame f hk rfl]
    split
    · refine bind_eq_mapBoth (f.get?_listing _ _) fun found _ => ?_
      cases found <;> rfl
    · refine bind_eq_mapBoth (f.values_listing _) fun values _ => ?_
      rw [List.length_map]
      split
      · rw [List.getElem?_map]
        cases values[((values.length : Int) + i).toNat]? <;> rfl
      · rfl
  · rfl

theorem slice_frame (hs : s.IsExtent inner) (start stop step : Option Int) :
    slice ⟨f.doc inner, r⟩ start stop step (f.span s) =
      mapBoth f.fault (List.map f.span) (slice ⟨inner, r'⟩ start stop step s) := by
  refine bind_eq_mapBoth (hs.kind_frame f) fun k hk => ?_
  simp only [id]
  split
  · next ha =>
    subst ha
    rw [hs.listing_frame f hk rfl]
    refine bind_eq_mapBoth (f.values_listing _) fun values _ => ?_
    simp [pure, Except.pure, List.map_filterMap]
  · rfl

theorem union_frame (hs : s.IsExtent inner) (selectors : List Selector) :
    union ⟨f.doc inner, r⟩ (f.span s) selectors =
      mapBoth f.fault (List.map f.span) (union ⟨inner, r'⟩ s selectors) := by
  induction selectors with
  | nil => rfl
  | cons selector more ih =>
    have hselector : Site.selector ⟨f.doc inner, r⟩ (f.span s) selector =
        mapBoth f.fault (List.map f.span) (Site.selector ⟨inner, r'⟩ s selector) := by
      cases selector with
      | name name => exact field_frame f hs name
      | index i => exact index_frame f hs i.toInt
    refine bind_eq_mapBoth hselector fun found _ => ?_
    refine bind_eq_mapBoth ih fun later _ => ?_
    simp [pure, Except.pure]

theorem onlyScalar_frame {spans : List Span} (h : ∀ s ∈ spans, s.IsExtent inner) :
    onlyScalar ⟨f.doc inner, r⟩ (spans.map f.span) =
      mapBoth f.fault id (onlyScalar ⟨inner, r'⟩ spans) := by
  match spans with
  | [] => rfl
  | [s] => exact Scalar.ofSpan_frame f (h s (by simp))
  | _ :: _ :: _ => rfl

end Site

theorem Descent.walk_cons (doc : Bytes) (node : Span) (stack : List Span) :
    walk doc (node :: stack) =
      childValues doc node >>= fun children => (walk doc (children ++ stack)).map (node :: ·) := by
  rw [walk]
  split <;> rename_i hc <;> rw [hc] <;> rfl

theorem Descent.walk_frame {stack : List Span} (h : ∀ s ∈ stack, s.IsExtent inner) :
    walk (f.doc inner) (stack.map f.span) =
      mapBoth f.fault (List.map f.span) (walk inner stack) := by
  fun_induction walk inner stack with
  | case1 =>
    rw [List.map_nil, walk]
    rfl
  | case2 node stack x hx =>
    rw [List.map_cons, walk_cons, childValues_frame f (h node (by simp)), hx]
    rfl
  | case3 node stack children hc ih =>
    have hstack : ∀ s ∈ children ++ stack, s.IsExtent inner := by
      intro s hs
      rcases List.mem_append.1 hs with hs | hs
      · exact isExtent_of_childValues (h node (by simp)) hc s hs
      · exact h s (by simp [hs])
    rw [List.map_cons, walk_cons, childValues_frame f (h node (by simp)), hc]
    show (walk (f.doc inner) (children.map f.span ++ stack.map f.span)).map _ = _
    rw [← List.map_append, ih hstack]
    cases walk inner (children ++ stack) <;> rfl

end

/-! ### Evaluation -/

mutual

theorem Segment.result_step_frame (f : Frame) {inner : Bytes} {r r' : Span}
    (hr' : r'.IsExtent inner) {s : Span} (hs : s.IsExtent inner) :
    (segment : Segment) → (segment.usesRoot → r = f.span r') →
    (segment.step ⟨f.doc inner, r⟩ (f.span s)).result =
      mapBoth f.fault (List.map f.span) (segment.step ⟨inner, r'⟩ s).result
  | .field name, _ => by
    rw [Segment.result_step_field, Segment.result_step_field]
    exact Site.field_frame f hs name
  | .wildcard, _ => by
    rw [Segment.result_step_wildcard, Segment.result_step_wildcard]
    exact childValues_frame f hs
  | .index i, _ => by
    rw [Segment.result_step_index, Segment.result_step_index]
    exact Site.index_frame f hs i.toInt
  | .slice start stop step, _ => by
    rw [Segment.result_step_slice, Segment.result_step_slice]
    exact Site.slice_frame f hs _ _ _
  | .union selectors, _ => by
    rw [Segment.result_step_union, Segment.result_step_union]
    exact Site.union_frame f hs selectors
  | .descent, _ => by
    rw [Segment.result_step_descent, Segment.result_step_descent]
    exact Descent.walk_frame f (List.forall_mem_singleton.2 hs)
  | .filter condition, hroot => by
    rw [Segment.result_step_filter, Segment.result_step_filter]
    refine bind_eq_mapBoth (childValues_frame f hs) fun children hc => ?_
    exact pick_eq_mapBoth fun child hm =>
      Condition.result_test_frame f hr' (isExtent_of_childValues hs hc child hm) condition hroot

theorem Segment.result_stepAll_frame (f : Frame) {inner : Bytes} {r r' : Span}
    (hr' : r'.IsExtent inner) {spans : List Span} (hs : ∀ s ∈ spans, s.IsExtent inner) :
    (segments : List Segment) → (Segment.anyUsesRoot segments → r = f.span r') →
    (Segment.stepAll ⟨f.doc inner, r⟩ (spans.map f.span) segments).result =
      mapBoth f.fault (List.map f.span) (Segment.stepAll ⟨inner, r'⟩ spans segments).result
  | [], _ => by
    rw [Segment.result_stepAll_nil, Segment.result_stepAll_nil]
    rfl
  | segment :: more, hroot => by
    rw [Segment.anyUsesRoot, Bool.or_eq_true, or_imp] at hroot
    obtain ⟨hfirst, hmore⟩ := hroot
    rw [Segment.result_stepAll_cons, Segment.result_stepAll_cons]
    have hstep : gather (fun s => (segment.step ⟨f.doc inner, r⟩ s).result) (spans.map f.span) =
        mapBoth f.fault (List.map f.span)
          (gather (fun s => (segment.step ⟨inner, r'⟩ s).result) spans) :=
      gather_eq_mapBoth fun s hm => Segment.result_step_frame f hr' (hs s hm) segment hfirst
    refine bind_eq_mapBoth hstep fun reached hreached => ?_
    refine Segment.result_stepAll_frame f hr' (fun v hv => ?_) more hmore
    obtain ⟨s, hm, vs, hvs, hv'⟩ := mem_of_gather hreached v hv
    exact isExtent_of_step (hs s hm) hvs v hv'

theorem Condition.result_test_frame (f : Frame) {inner : Bytes} {r r' : Span}
    (hr' : r'.IsExtent inner) {s : Span} (hs : s.IsExtent inner) :
    (condition : Condition) → (condition.usesRoot → r = f.span r') →
    (condition.test ⟨f.doc inner, r⟩ (f.span s)).result =
      mapBoth f.fault id (condition.test ⟨inner, r'⟩ s).result
  | .or left right, hroot => by
    rw [Condition.usesRoot, Bool.or_eq_true, or_imp] at hroot
    obtain ⟨hleft, hright⟩ := hroot
    rw [Condition.result_test_or, Condition.result_test_or]
    refine bind_eq_mapBoth (Condition.result_test_frame f hr' hs left hleft) fun holds _ => ?_
    cases holds with
    | true => rfl
    | false => exact Condition.result_test_frame f hr' hs right hright
  | .and left right, hroot => by
    rw [Condition.usesRoot, Bool.or_eq_true, or_imp] at hroot
    obtain ⟨hleft, hright⟩ := hroot
    rw [Condition.result_test_and, Condition.result_test_and]
    refine bind_eq_mapBoth (Condition.result_test_frame f hr' hs left hleft) fun holds _ => ?_
    cases holds with
    | true => exact Condition.result_test_frame f hr' hs right hright
    | false => rfl
  | .not inner, hroot => by
    rw [Condition.result_test_not, Condition.result_test_not]
    exact bind_eq_mapBoth (Condition.result_test_frame f hr' hs inner hroot) fun _ _ => rfl
  | .compare left op right, hroot => by
    rw [Condition.usesRoot, Bool.or_eq_true, or_imp] at hroot
    obtain ⟨hleft, hright⟩ := hroot
    rw [Condition.result_test_compare, Condition.result_test_compare]
    refine bind_eq_mapBoth (Operand.result_resolve_frame f hr' hs left hleft) fun a _ => ?_
    exact bind_eq_mapBoth (Operand.result_resolve_frame f hr' hs right hright) fun _ _ => rfl
  | .like operand pattern, hroot => by
    rw [Condition.result_test_like, Condition.result_test_like]
    exact bind_eq_mapBoth (Operand.result_resolve_frame f hr' hs operand hroot) fun _ _ => rfl
  | .present operand, hroot => by
    rw [Condition.result_test_present, Condition.result_test_present]
    exact Operand.result_exists_frame f hr' hs operand hroot

theorem Operand.result_resolve_frame (f : Frame) {inner : Bytes} {r r' : Span}
    (hr' : r'.IsExtent inner) {s : Span} (hs : s.IsExtent inner) :
    (operand : Operand) → (operand.usesRoot → r = f.span r') →
    (operand.resolve ⟨f.doc inner, r⟩ (f.span s)).result =
      mapBoth f.fault id (operand.resolve ⟨inner, r'⟩ s).result
  | .literal value, _ => by
    rw [Operand.result_resolve_literal, Operand.result_resolve_literal]
    rfl
  | .current segments, hroot => by
    have hone := List.forall_mem_singleton.2 hs
    rw [Operand.result_resolve_current, Operand.result_resolve_current]
    refine bind_eq_mapBoth (Segment.result_stepAll_frame f hr' hone segments hroot)
      fun reached h => ?_
    exact Site.onlyScalar_frame f (isExtent_of_stepAll hone h)
  | .root segments, hroot => by
    have hone := List.forall_mem_singleton.2 hr'
    have hr : r = f.span r' := hroot rfl
    rw [Operand.result_resolve_root, Operand.result_resolve_root]
    subst hr
    refine bind_eq_mapBoth (Segment.result_stepAll_frame f hr' hone segments fun _ => rfl)
      fun reached h => ?_
    exact Site.onlyScalar_frame f (isExtent_of_stepAll hone h)

theorem Operand.result_exists_frame (f : Frame) {inner : Bytes} {r r' : Span}
    (hr' : r'.IsExtent inner) {s : Span} (hs : s.IsExtent inner) :
    (operand : Operand) → (operand.usesRoot → r = f.span r') →
    (operand.exists ⟨f.doc inner, r⟩ (f.span s)).result =
      mapBoth f.fault id (operand.exists ⟨inner, r'⟩ s).result
  | .literal value, _ => by
    rw [Operand.result_exists_literal, Operand.result_exists_literal]
    rfl
  | .current segments, hroot => by
    have hone := List.forall_mem_singleton.2 hs
    rw [Operand.result_exists_current, Operand.result_exists_current]
    refine bind_eq_mapBoth (Segment.result_stepAll_frame f hr' hone segments hroot)
      fun reached _ => ?_
    cases reached <;> rfl
  | .root segments, hroot => by
    have hone := List.forall_mem_singleton.2 hr'
    have hr : r = f.span r' := hroot rfl
    rw [Operand.result_exists_root, Operand.result_exists_root]
    subst hr
    refine bind_eq_mapBoth (Segment.result_stepAll_frame f hr' hone segments fun _ => rfl)
      fun reached _ => ?_
    cases reached <;> rfl

end

/-! ### The value of a document -/

theorem locateRoot_eq_ok {doc : Bytes} {root : Span} :
    locateRoot doc = .ok root ↔
      (Place.ofOffset doc 0).skipBlanks = .ofOffset doc root.start ∧ root.IsExtent doc := by
  have hblanks : (Place.ofOffset doc 0).skipBlanks =
      .ofOffset doc (Place.ofOffset doc 0).skipBlanks.offset :=
    (Place.after_skipBlanks _).ofOffset
  constructor
  · intro h
    refine ⟨?_, (isExtent_of_locateRoot h).1⟩
    rw [locateRoot, Place.readValue] at h
    cases hskip : (Place.ofOffset doc 0).skipBlanks.skipValue with
    | error q =>
      rw [hskip] at h
      cases h
    | ok q =>
      rw [hskip] at h
      cases h
      exact hblanks
  · rintro ⟨hstart, hextent⟩
    rw [locateRoot, hstart, hextent]

theorem locateRoot_whole {doc : Bytes} (h : (Span.whole doc).IsExtent doc) :
    locateRoot doc = .ok (Span.whole doc) :=
  locateRoot_eq_ok.2 ⟨Place.skipBlanks_of_skipValue h.skipValue, h⟩

theorem locateRoot_blanks {blanks : Bytes} (h : ∀ b ∈ blanks, Byte.isBlank b) (doc : Bytes) :
    locateRoot (blanks ++ doc) =
      mapBoth (Fault.shift blanks.length) (Span.shift blanks.length) (locateRoot doc) := by
  let f : Frame := ⟨blanks, []⟩
  have hblanks : (Place.ofOffset (blanks ++ doc) 0).skipBlanks =
      f.place (Place.ofOffset doc 0).skipBlanks := by
    rw [← Place.skipBlanks_frame (.inr rfl), Frame.place, List.append_nil]
    exact Place.skipWhile_append h doc 0
  rw [locateRoot, locateRoot, hblanks, Place.readValue_frame (.inr rfl)]
  cases (Place.ofOffset doc 0).skipBlanks.readValue with
  | error q => exact congrArg Except.error (Frame.fault_place (.inr rfl))
  | ok found => rfl

theorem locateRoot_of_append {inner behind : Bytes} {root : Span}
    (h : locateRoot (inner ++ behind) = .ok root) (hs : root.stop ≤ inner.length) :
    locateRoot inner = .ok root := by
  let f : Frame := ⟨[], behind⟩
  obtain ⟨hblanks, hextent⟩ := locateRoot_eq_ok.1 h
  have hne := hextent.bounds.1
  refine locateRoot_eq_ok.2 ⟨?_, hextent.of_frame f hs⟩
  refine Except.ok.inj ((Place.local_skipWhile Byte.isBlank).cut (f := f) ?_)
  rw [Frame.place_ofOffset f (Nat.zero_le _), Frame.place_ofOffset f (by omega)]
  exact congrArg Except.ok hblanks

/-- A root that is not a number stays the root whatever bytes are put behind the document. -/
theorem locateRoot_append {inner : Bytes} {root : Span} (h : locateRoot inner = .ok root)
    (hk : (Place.ofOffset inner root.start).kind? ≠ some .number) (behind : Bytes) :
    locateRoot (inner ++ behind) = .ok root := by
  let f : Frame := ⟨[], behind⟩
  obtain ⟨hblanks, hextent⟩ := locateRoot_eq_ok.1 h
  have hbounds := hextent.bounds
  have hrest : (Place.ofOffset inner 0).skipBlanks.rest ≠ [] := by
    rw [hblanks]
    exact (Place.past_skipValue hextent.skipValue).rest_ne_nil
  have hframe := Place.skipBlanks_frame (f := f) (.inl hrest)
  rw [hblanks, Frame.place_ofOffset f (Nat.zero_le _), Frame.place_ofOffset f (by omega)] at hframe
  exact locateRoot_eq_ok.2 ⟨hframe, hextent.in_frame f hk⟩

theorem locateRoot_behind {doc : Bytes} {root : Span} (h : locateRoot doc = .ok root)
    (hk : (Place.ofOffset doc root.start).kind? ≠ some .number) (behind : Bytes) :
    locateRoot (doc.take root.stop ++ behind) = .ok root := by
  obtain ⟨hne, hlen⟩ := (isExtent_of_locateRoot h).2
  have hstop : root.stop ≤ (doc.take root.stop).length := Nat.le_of_eq (List.length_take_of_le hlen).symm
  have hinner : locateRoot (doc.take root.stop) = .ok root := by
    rw [← List.take_append_drop root.stop doc] at h
    exact locateRoot_of_append h hstop
  refine locateRoot_append hinner ?_ behind
  have hbyte : (Place.ofOffset (doc.take root.stop) root.start).byte? =
      (Place.ofOffset doc root.start).byte? := by
    simp only [Place.byte?, Place.ofOffset, List.head?_drop, List.getElem?_take_of_lt hne]
  rw [Place.kind?, hbyte]
  exact hk

/-- What segments lead to from a value is what they select in the bytes of that value alone, moved
to where the value starts. -/
theorem Segment.result_stepAll_slice {doc : Bytes} {r v : Span} (hv : v.IsExtent doc) (p : Path)
    (hroot : p.usesRoot → r = v) :
    (Segment.stepAll ⟨doc, r⟩ [v] p).result =
      mapBoth (Fault.shift v.start) (List.map (Span.shift v.start)) (p.select (v.slice doc)) := by
  have hwhole := hv.slice
  have hone := List.forall_mem_singleton.2 hwhole
  have hspan := hv.frame_span
  have hframe := Segment.result_stepAll_frame (r := r) (v.frame doc) hwhole hone p fun h =>
    (hroot h).trans hspan.symm
  rw [List.map_singleton, hspan, Span.frame_doc (Nat.le_of_lt hv.bounds.1)] at hframe
  rw [hframe, Path.select_eq, locateRoot_whole hwhole]
  show mapBoth (Fault.shift _) (List.map (Span.shift _)) _ = _
  rw [hv.length_before]
  rfl

theorem Condition.result_test_slice {doc : Bytes} {r v : Span} (hv : v.IsExtent doc)
    (condition : Condition) (hroot : condition.usesRoot → r = v) :
    (condition.test ⟨doc, r⟩ v).result =
      mapBoth (Fault.shift v.start) id
        (condition.test ⟨v.slice doc, .whole (v.slice doc)⟩ (.whole (v.slice doc))).result := by
  have hspan := hv.frame_span
  have hframe := Condition.result_test_frame (r := r) (v.frame doc) hv.slice hv.slice condition
    fun h => (hroot h).trans hspan.symm
  rw [hspan, Span.frame_doc (Nat.le_of_lt hv.bounds.1)] at hframe
  rw [hframe]
  show mapBoth (Fault.shift _) _ _ = _
  rw [hv.length_before]

/-- A path selects in a document what it selects in the bytes of the root. -/
theorem Path.select_of_locateRoot (p : Path) {doc : Bytes} {root : Span}
    (h : locateRoot doc = .ok root) :
    p.select doc =
      mapBoth (Fault.shift root.start) (List.map (Span.shift root.start))
        (p.select (root.slice doc)) := by
  rw [← Segment.result_stepAll_slice (isExtent_of_locateRoot h).1 p fun _ => rfl, Path.select_eq, h]
  rfl

theorem Path.select_blanks {blanks : Bytes} (h : ∀ b ∈ blanks, Byte.isBlank b) (p : Path)
    (doc : Bytes) :
    p.select (blanks ++ doc) =
      mapBoth (Fault.shift blanks.length) (List.map (Span.shift blanks.length)) (p.select doc) := by
  let f : Frame := ⟨blanks, []⟩
  rw [Path.select_eq, Path.select_eq]
  refine bind_eq_mapBoth (locateRoot_blanks h doc) fun root hr => ?_
  have he := (isExtent_of_locateRoot hr).1
  have hone := List.forall_mem_singleton.2 he
  have hdoc : f.doc doc = blanks ++ doc := by rw [Frame.doc, List.append_nil]
  rw [← hdoc]
  exact Segment.result_stepAll_frame f he hone p fun _ => rfl

/-- Only the bytes of its root matter in a document: a path selects in it what it selects in those
bytes alone, or fails as it fails there, up to the offset of the root. Hence bytes behind the root
change nothing as long as the root is the same, as it is with any bytes behind it unless it is a
number; and blanks in front only move what is selected, or what is wrong. -/
theorem Path.select_root_slice (p : Path) (doc : Bytes) :
    (∀ root, locateRoot doc = .ok root →
      p.select doc =
        mapBoth (Fault.shift root.start) (List.map (Span.shift root.start))
          (p.select (root.slice doc)) ∧
      (∀ doc', doc'.take root.stop = doc.take root.stop → locateRoot doc' = .ok root →
        p.select doc' = p.select doc) ∧
      ((Place.ofOffset doc root.start).kind? ≠ some .number → ∀ behind,
        p.select (doc.take root.stop ++ behind) = p.select doc)) ∧
    ∀ blanks : Bytes, (∀ b ∈ blanks, Byte.isBlank b) →
      p.select (blanks ++ doc) =
        mapBoth (Fault.shift blanks.length) (List.map (Span.shift blanks.length))
          (p.select doc) := by
  refine ⟨fun root h => ?_, fun blanks hb => p.select_blanks hb doc⟩
  have hsame : ∀ doc', doc'.take root.stop = doc.take root.stop → locateRoot doc' = .ok root →
      p.select doc' = p.select doc := by
    intro doc' htake h'
    rw [p.select_of_locateRoot h, p.select_of_locateRoot h', Span.slice, Span.slice, htake]
  refine ⟨p.select_of_locateRoot h, hsame, fun hk behind => ?_⟩
  have hlen : (doc.take root.stop).length = root.stop :=
    List.length_take_of_le (isExtent_of_locateRoot h).2.2
  exact hsame _ (List.take_left' hlen) (locateRoot_behind h hk behind)

theorem Path.select_root_slice_stray :
    Path.select [.descent] (utf8 " [1,[2 3]]x") = .error (.badByte 7 (Byte.ofChar '3')) ∧
    Path.select [.descent] (utf8 " [1,[2 3]]x") =
      mapBoth (Fault.shift 1) (List.map (Span.shift 1)) (Path.select [.descent] (utf8 "[1,[2 3]]")) ∧
    Path.select [.descent] (utf8 " [1,[2 3]]") = Path.select [.descent] (utf8 " [1,[2 3]]x") ∧
    (∀ behind, Path.select [.descent] ((utf8 " [1,[2 3]]x").take 10 ++ behind) =
      Path.select [.descent] (utf8 " [1,[2 3]]x")) ∧
    Path.select [.descent] (utf8 "\n" ++ utf8 " [1,[2 3]]x") =
      mapBoth (Fault.shift 1) (List.map (Span.shift 1))
        (Path.select [.descent] (utf8 " [1,[2 3]]x")) := by
  obtain ⟨hroot, hblanks⟩ := select_root_slice [.descent] (utf8 " [1,[2 3]]x")
  obtain ⟨hslice, hsame, hbehind⟩ := hroot ⟨1, 10⟩ (by decide +kernel)
  exact ⟨by decide +kernel, hslice, hsame _ (by decide +kernel) (by decide +kernel),
    hbehind (by decide +kernel), hblanks _ (by decide +kernel)⟩

end JsonSpan

import JsonSpan.Proofs.Query.Outcome
import JsonSpan.Proofs.Scan.Extents

/-!
# What evaluation reaches lies below where it starts

`Below doc s v` says that `v` is `s`, or a child of it, or a child of a child, and so on. Every
segment leads downwards in this sense (`below_of_step`), a whole path does so from the root
(`below_of_select`), and of two values below the same one either both are the same span, or they are
disjoint, or one lies strictly inside the other (`apart_of_below`).
-/

namespace JsonSpan

/-- `v` is the value of a child listed in the container at `s`. -/
def IsChild (doc : Bytes) (s v : Span) : Prop :=
  ∃ k container, (Place.ofOffset doc s.start).kind = .ok k ∧ k.container? = some container ∧
    ∃ c ∈ (Listing.ofOffset container doc s.start).children, c.value = v

/-- `v` is reached from `s` by going down from values to their children. -/
inductive Below (doc : Bytes) : Span → Span → Prop where
  | refl (s : Span) : Below doc s s
  | child {s c v : Span} (h : IsChild doc s c) (hv : Below doc c v) : Below doc s v

theorem Below.trans {doc : Bytes} {s t v : Span} (h₁ : Below doc s t) (h₂ : Below doc t v) :
    Below doc s v := by
  induction h₁ with
  | refl => exact h₂
  | child h _ ih => exact .child h (ih h₂)

theorem IsChild.below {doc : Bytes} {s v : Span} (h : IsChild doc s v) : Below doc s v :=
  .child h (.refl v)

/-- The span `t` lies strictly inside the span `s`. -/
def Span.Encloses (s t : Span) : Prop :=
  s.start < t.start ∧ t.stop < s.stop

/-- Two spans are the same, or disjoint, or one lies strictly inside the other. -/
def Span.Apart (s t : Span) : Prop :=
  s = t ∨ s.stop ≤ t.start ∨ t.stop ≤ s.start ∨ s.Encloses t ∨ t.Encloses s

/-! ### Where the values below an extent lie -/

theorem IsChild.extent {doc : Bytes} {s v : Span} (hs : s.IsExtent doc) (h : IsChild doc s v) :
    v.IsExtent doc ∧ s.Encloses v ∧ v.start < v.stop := by
  obtain ⟨k, container, hk, hc, c, hm, rfl⟩ := h
  obtain ⟨hf, hlt⟩ := (hs.listing hk hc).2 c hm
  exact ⟨hf.extent, ⟨hf.low_le, hlt⟩, hf.nonempty⟩

theorem IsChild.disjoint {doc : Bytes} {s v w : Span} (hs : s.IsExtent doc) (hv : IsChild doc s v)
    (hw : IsChild doc s w) : v = w ∨ v.stop ≤ w.start ∨ w.stop ≤ v.start := by
  obtain ⟨k, container, hk, hc, c, hm, rfl⟩ := hv
  obtain ⟨k', container', hk', hc', d, hd, rfl⟩ := hw
  rw [hk] at hk'
  cases hk'
  rw [hc] at hc'
  cases hc'
  have hp := (hs.listing hk hc).1.imp Place.Found.low_le
  exact List.Pairwise.forall_of_forall_of_flip
    (R := fun a b => a.value = b.value ∨ a.value.stop ≤ b.value.start ∨
      b.value.stop ≤ a.value.start) (fun _ _ => .inl rfl) (hp.imp fun h => .inr (.inl h))
    (hp.imp fun h => .inr (.inr h)) hm hd

theorem Below.extent {doc : Bytes} {s v : Span} (hs : s.IsExtent doc) (h : Below doc s v) :
    v.IsExtent doc ∧ (v = s ∨ s.Encloses v ∧ v.start < v.stop) := by
  induction h with
  | refl => exact ⟨hs, .inl rfl⟩
  | child hc _ ih =>
    obtain ⟨he, hin, hne⟩ := hc.extent hs
    obtain ⟨hv, hw⟩ := ih he
    refine ⟨hv, .inr ?_⟩
    rcases hw with rfl | ⟨hin', hne'⟩
    · exact ⟨hin, hne⟩
    · exact ⟨⟨Nat.lt_trans hin.1 hin'.1, Nat.lt_trans hin'.2 hin.2⟩, hne'⟩

/-- What lies below a value lies within it, and is not empty. -/
theorem Below.bounds {doc : Bytes} {s v : Span} (hs : s.IsExtent doc) (h : Below doc s v) :
    s.start ≤ v.start ∧ v.start < v.stop ∧ v.stop ≤ s.stop := by
  rcases (h.extent hs).2 with rfl | ⟨⟨hstart, hstop⟩, hne⟩
  · exact ⟨Nat.le_refl _, hs.bounds.1, Nat.le_refl _⟩
  · exact ⟨Nat.le_of_lt hstart, hne, Nat.le_of_lt hstop⟩

/-- Two values below one value are apart. -/
theorem apart_of_below {doc : Bytes} {s v w : Span} (hs : s.IsExtent doc) (hv : Below doc s v)
    (hw : Below doc s w) : v.Apart w := by
  induction hv generalizing w with
  | refl s =>
    rcases (hw.extent hs).2 with rfl | ⟨h, _⟩
    · exact .inl rfl
    · exact .inr (.inr (.inr (.inl h)))
  | @child s c v hc hv ih =>
    have hcv : Below doc s v := .child hc hv
    cases hw with
    | refl =>
      rcases (hcv.extent hs).2 with rfl | ⟨h, _⟩
      · exact .inl rfl
      · exact .inr (.inr (.inr (.inr h)))
    | @child _ d _ hd hw =>
      have hce := (hc.extent hs).1
      have hvc := hv.bounds hce
      have hwd := hw.bounds (hd.extent hs).1
      rcases hc.disjoint hs hd with rfl | h | h
      · exact ih hce hw
      · exact .inr (.inl (by omega))
      · exact .inr (.inr (.inl (by omega)))

/-! ### Every segment leads downwards -/

theorem isChild_of_values {doc : Bytes} {s : Span} {k : Kind} {container : Container}
    (hk : (Place.ofOffset doc s.start).kind = .ok k) (hc : k.container? = some container)
    {vs : List Span} (h : (Listing.ofOffset container doc s.start).values = .ok vs) :
    ∀ v ∈ vs, IsChild doc s v := by
  unfold Listing.values at h
  split at h
  · cases h
  · cases h
    intro v hv
    obtain ⟨c, hm, rfl⟩ := List.mem_map.1 hv
    exact ⟨k, container, hk, hc, c, hm, rfl⟩

theorem isChild_of_childValues {doc : Bytes} {s : Span} {vs : List Span}
    (h : childValues doc s = .ok vs) : ∀ v ∈ vs, IsChild doc s v := by
  simp only [childValues, bind, Except.bind] at h
  split at h
  · cases h
  · next k hk =>
    split at h
    · next container hc => exact isChild_of_values hk hc h
    · cases h
      simp

theorem below_of_walk {doc : Bytes} {stack vs : List Span} (h : Descent.walk doc stack = .ok vs) :
    ∀ v ∈ vs, ∃ s ∈ stack, Below doc s v := by
  fun_induction Descent.walk doc stack generalizing vs with
  | case1 =>
    cases h
    simp
  | case2 => cases h
  | case3 node stack children hc ih =>
    cases hw : Descent.walk doc (children ++ stack) with
    | error f =>
      rw [hw] at h
      cases h
    | ok ws =>
      rw [hw] at h
      cases h
      intro v hv
      rcases List.mem_cons.1 hv with rfl | hv
      · exact ⟨v, by simp, .refl v⟩
      · obtain ⟨s, hs, hb⟩ := ih hw v hv
        rcases List.mem_append.1 hs with hs | hs
        · exact ⟨node, by simp, .child (isChild_of_childValues hc s hs) hb⟩
        · exact ⟨s, by simp [hs], hb⟩

namespace Site

variable {site : Site} {s : Span}

theorem isChild_of_field {name : String} {vs : List Span} (h : site.field name s = .ok vs) :
    ∀ v ∈ vs, IsChild site.doc s v := by
  simp only [field, bind, Except.bind, pure, Except.pure] at h
  split at h
  · cases h
  · next k hk =>
    split at h
    · next ho =>
      subst ho
      split at h
      · cases h
      · next found hf =>
        cases h
        intro v hv
        rw [Option.mem_toList] at hv
        cases hv
        unfold findMember Listing.find? at hf
        split at hf
        · next c hc =>
          cases hf
          exact ⟨.object, .object, hk, rfl, c, List.mem_of_find?_eq_some hc, rfl⟩
        · split at hf <;> cases hf
    · cases h
      simp

theorem isChild_of_index {i : Int} {vs : List Span} (h : site.index i s = .ok vs) :
    ∀ v ∈ vs, IsChild site.doc s v := by
  simp only [index, bind, Except.bind, pure, Except.pure] at h
  split at h
  · cases h
  · next k hk =>
    split at h
    · next ha =>
      subst ha
      split at h
      · split at h
        · cases h
        · next found hf =>
          cases h
          intro v hv
          rw [Option.mem_toList] at hv
          cases hv
          unfold Listing.get? at hf
          split at hf
          · next c hc =>
            cases hf
            exact ⟨.array, .array, hk, rfl, c, List.mem_of_getElem? hc, rfl⟩
          · split at hf <;> cases hf
      · split at h
        · cases h
        · next values hv =>
          split at h
          · cases h
            intro v hm
            rw [Option.mem_toList] at hm
            exact isChild_of_values hk rfl hv v (List.mem_of_getElem? hm)
          · cases h
            simp
    · cases h
      simp

theorem isChild_of_slice {start stop step : Option Int} {vs : List Span}
    (h : site.slice start stop step s = .ok vs) : ∀ v ∈ vs, IsChild site.doc s v := by
  simp only [slice, bind, Except.bind, pure, Except.pure] at h
  split at h
  · cases h
  · next k hk =>
    split at h
    · next ha =>
      subst ha
      split at h
      · cases h
      · next values hv =>
        cases h
        intro v hm
        obtain ⟨i, _, hi⟩ := List.mem_filterMap.1 hm
        exact isChild_of_values hk rfl hv v (List.mem_of_getElem? hi)
    · cases h
      simp

theorem isChild_of_union {selectors : List Selector} {vs : List Span}
    (h : site.union s selectors = .ok vs) : ∀ v ∈ vs, IsChild site.doc s v := by
  induction selectors generalizing vs with
  | nil =>
    cases h
    simp
  | cons selector more ih =>
    simp only [union, bind, Except.bind, pure, Except.pure] at h
    split at h
    · cases h
    · next ws hw =>
      split at h
      · cases h
      · next us hu =>
        cases h
        intro v hv
        rcases List.mem_append.1 hv with hv | hv
        · cases selector with
          | name name => exact isChild_of_field hw v hv
          | index i => exact isChild_of_index hw v hv
        · exact ih hu v hv

end Site

theorem isChild_of_step {site : Site} {s : Span} {segment : Segment} {vs : List Span}
    (hd : segment.isDescent = false) (h : (segment.step site s).result = .ok vs) :
    ∀ v ∈ vs, IsChild site.doc s v := by
  cases segment with
  | field name => exact Site.isChild_of_field (by simpa using h)
  | wildcard => exact isChild_of_childValues (by simpa using h)
  | index i => exact Site.isChild_of_index (by simpa using h)
  | slice start stop step => exact Site.isChild_of_slice (by simpa using h)
  | union selectors => exact Site.isChild_of_union (by simpa using h)
  | descent => cases hd
  | filter condition =>
    intro v hv
    rw [Segment.result_step_filter] at h
    simp only [bind, Except.bind] at h
    split at h
    · cases h
    · next cs hc => exact isChild_of_childValues hc v ((sublist_of_pick h).subset hv)

theorem below_of_step {site : Site} {s : Span} {segment : Segment} {vs : List Span}
    (h : (segment.step site s).result = .ok vs) : ∀ v ∈ vs, Below site.doc s v := by
  intro v hv
  cases hd : segment.isDescent with
  | false => exact (isChild_of_step hd h v hv).below
  | true =>
    cases segment with
    | descent =>
      obtain ⟨s', hs', hb⟩ := below_of_walk (by simpa [descendants] using h) v hv
      rw [List.mem_singleton] at hs'
      exact hs' ▸ hb
    | _ => cases hd

theorem below_of_gather {site : Site} {spans reached : List Span} {segment : Segment}
    (h : gather (fun s => (segment.step site s).result) spans = .ok reached) :
    ∀ v ∈ reached, ∃ s ∈ spans, Below site.doc s v := by
  intro v hv
  obtain ⟨s, hs, ds, hd, hm⟩ := mem_of_gather h v hv
  exact ⟨s, hs, below_of_step hd v hm⟩

theorem Below.gather {site : Site} {root : Span} {spans reached : List Span} {segment : Segment}
    (hs : ∀ s ∈ spans, Below site.doc root s)
    (h : JsonSpan.gather (fun s => (segment.step site s).result) spans = .ok reached) :
    ∀ v ∈ reached, Below site.doc root v := by
  intro v hv
  obtain ⟨s, hm, hb⟩ := below_of_gather h v hv
  exact (hs s hm).trans hb

theorem below_of_stepAll {site : Site} {spans vs : List Span} {segments : List Segment}
    (h : (Segment.stepAll site spans segments).result = .ok vs) :
    ∀ v ∈ vs, ∃ s ∈ spans, Below site.doc s v := by
  induction segments generalizing spans with
  | nil =>
    rw [Segment.result_stepAll_nil] at h
    cases h
    exact fun v hv => ⟨v, hv, .refl v⟩
  | cons segment more ih =>
    rw [Segment.result_stepAll_cons] at h
    simp only [bind, Except.bind] at h
    split at h
    · cases h
    · next reached hr =>
      intro v hv
      obtain ⟨t, ht, htv⟩ := ih h v hv
      obtain ⟨s, hs, hst⟩ := below_of_gather hr t ht
      exact ⟨s, hs, hst.trans htv⟩

/-! ### From extents only extents are reached -/

theorem isExtent_of_childValues {doc : Bytes} {s : Span} (hs : s.IsExtent doc) {children : List Span}
    (h : childValues doc s = .ok children) : ∀ c ∈ children, c.IsExtent doc :=
  fun c hc => ((isChild_of_childValues h c hc).extent hs).1

theorem isExtent_of_turn {doc : Bytes} {node : Span} {stack children : List Span}
    (hs : ∀ s ∈ node :: stack, s.IsExtent doc) (h : childValues doc node = .ok children) :
    ∀ t ∈ children ++ stack, t.IsExtent doc := by
  intro t ht
  rcases List.mem_append.1 ht with ht | ht
  · exact isExtent_of_childValues (hs node (by simp)) h t ht
  · exact hs t (by simp [ht])

theorem isExtent_of_step {site : Site} {s : Span} (hs : s.IsExtent site.doc) {segment : Segment}
    {spans : List Span} (h : (segment.step site s).result = .ok spans) :
    ∀ v ∈ spans, v.IsExtent site.doc :=
  fun v hv => ((below_of_step h v hv).extent hs).1

theorem isExtent_of_gather {site : Site} {spans reached : List Span} {segment : Segment}
    (hs : ∀ s ∈ spans, s.IsExtent site.doc)
    (h : gather (fun s => (segment.step site s).result) spans = .ok reached) :
    ∀ v ∈ reached, v.IsExtent site.doc := by
  intro v hv
  obtain ⟨s, hm, hb⟩ := below_of_gather h v hv
  exact (hb.extent (hs s hm)).1

theorem isExtent_of_stepAll {site : Site} {spans : List Span}
    (hs : ∀ s ∈ spans, s.IsExtent site.doc) {segments : List Segment} {reached : List Span}
    (h : (Segment.stepAll site spans segments).result = .ok reached) :
    ∀ v ∈ reached, v.IsExtent site.doc := by
  intro v hv
  obtain ⟨s, hm, hb⟩ := below_of_stepAll h v hv
  exact (hb.extent (hs s hm)).1

theorem isExtent_of_locateRoot {doc : Bytes} {root : Span} (h : locateRoot doc = .ok root) :
    root.IsExtent doc ∧ root.start < root.stop ∧ root.stop ≤ doc.length := by
  unfold locateRoot at h
  split at h
  · next s place hr =>
    cases h
    obtain ⟨n, _, hn⟩ := (Place.plainly_skipBlanks (.ofOffset doc 0)).level.exists_ofOffset
    rw [hn] at hr
    obtain ⟨_, _, he, hne, hlen⟩ := Place.isExtent_of_readValue hr
    exact ⟨he, hne, hlen⟩
  · cases h

/-- All matches of a path lie below the root of the document. -/
theorem below_of_select {p : Path} {doc : Bytes} {vs : List Span} (h : p.select doc = .ok vs) :
    ∃ root, locateRoot doc = .ok root ∧ ∀ v ∈ vs, Below doc root v := by
  rw [Path.select_eq] at h
  simp only [bind, Except.bind] at h
  split at h
  · cases h
  · next root hr =>
    refine ⟨root, hr, fun v hv => ?_⟩
    obtain ⟨s, hs, hb⟩ := below_of_stepAll h v hv
    rw [List.mem_singleton] at hs
    exact hs ▸ hb

end JsonSpan

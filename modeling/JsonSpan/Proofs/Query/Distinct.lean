import JsonSpan.Proofs.Query.Order

/-!
# No match twice

A value is the child of one value only, wherever its container is malformed elsewhere
(`IsChild.parent_unique`). So from distinct values every segment leads to distinct children, a union
apart, which names its children one by one and may name one twice. A descent leads to values inside
of others; it does not meet one of them twice as long as the values it starts from share no byte
(`nodup_of_walk`), and this is so up to the first descent of a path. Hence a path without unions and
with one descent at most selects nothing twice (`Path.select_nodup`).
-/

namespace JsonSpan

def Segment.isUnion : Segment → Bool
  | .union _ => true
  | _ => false

/-- The spans `s` and `t` have no byte in common. -/
def Span.Disjoint (s t : Span) : Prop :=
  s.stop ≤ t.start ∨ t.stop ≤ s.start

/-! ### Parents -/

variable {doc : Bytes} {r s t v : Span}

theorem below_of_encloses (hr : r.IsExtent doc) (hs : Below doc r s) (ht : Below doc r t)
    (h : s.Encloses t) : Below doc s t := by
  obtain ⟨hstart, hstop⟩ := h
  induction hs with
  | refl => exact ht
  | @child r c s hc hs ih =>
    have hce := (hc.extent hr).1
    have hsc := hs.bounds hce
    cases ht with
    | refl =>
      have := (hc.extent hr).2.1
      rw [Span.Encloses] at this
      omega
    | @child _ d _ hd ht =>
      have htd := ht.bounds (hd.extent hr).1
      rcases hc.disjoint hr hd with rfl | h | h
      · exact ih hce ht hstart hstop
      · omega
      · omega

theorem IsChild.not_encloses (hr : r.IsExtent doc) (hs : Below doc r s) (ht : Below doc r t)
    (hsv : IsChild doc s v) (htv : IsChild doc t v) : ¬s.Encloses t := by
  intro h
  have hse := (hs.extent hr).1
  obtain ⟨-, ⟨hstart, hstop⟩, hne⟩ := htv.extent (ht.extent hr).1
  cases below_of_encloses hr hs ht h with
  | refl => exact Nat.lt_irrefl _ h.1
  | child hc hct =>
    -- `t` lies in a child `c` of `s`, which has bytes in common with the child `v` and so is `v`
    have := hct.bounds (hc.extent hse).1
    rcases hc.disjoint hse hsv with rfl | h | h <;> omega

/-- A value has one parent at most. -/
theorem IsChild.parent_unique (hr : r.IsExtent doc) (hs : Below doc r s) (ht : Below doc r t)
    (hsv : IsChild doc s v) (htv : IsChild doc t v) : s = t := by
  obtain ⟨-, ⟨hstart, hstop⟩, hne⟩ := hsv.extent (hs.extent hr).1
  obtain ⟨-, ⟨hstart', hstop'⟩, -⟩ := htv.extent (ht.extent hr).1
  rcases apart_of_below hr hs ht with h | h | h | h | h
  · exact h
  · omega
  · omega
  · exact absurd h (hsv.not_encloses hr hs ht htv)
  · exact absurd h (htv.not_encloses hr ht hs hsv)

/-! ### Disjoint values -/

theorem Span.Disjoint.below {w : Span} (h : s.Disjoint t) (hs : s.IsExtent doc)
    (ht : t.IsExtent doc) (hv : Below doc s v) (hw : Below doc t w) : v.Disjoint w := by
  have hsv := hv.bounds hs
  have htw := hw.bounds ht
  unfold Span.Disjoint at h ⊢
  omega

theorem Span.Disjoint.ne (h : s.Disjoint t) (hs : s.IsExtent doc) : s ≠ t := by
  rintro rfl
  have := hs.bounds
  unfold Span.Disjoint at h
  omega

theorem disjoint_of_childValues (hs : s.IsExtent doc) {children : List Span}
    (h : childValues doc s = .ok children) : children.Pairwise Span.Disjoint :=
  (follow_of_childValues hs h).imp .inl

/-- A step that is neither a union nor a descent leads to children with no byte in common. -/
theorem disjoint_of_step {site : Site} {segment : Segment} {vs : List Span}
    (hs : s.IsExtent site.doc) (hu : segment.isUnion = false) (hd : segment.isDescent = false)
    (h : (segment.step site s).result = .ok vs) : vs.Pairwise Span.Disjoint := by
  cases segment with
  | field | wildcard | index | filter => exact (follow_of_step hs rfl h).imp .inl
  | slice start stop step =>
    refine (Site.directed_of_slice hs (by simpa using h)).imp fun hvw => ?_
    exact hvw.imp And.right And.right
  | union => cases hu
  | descent => cases hd

/-! ### The descent -/

theorem nodup_of_walk {stack vs : List Span} (hs : ∀ s ∈ stack, s.IsExtent doc)
    (hp : stack.Pairwise Span.Disjoint) (h : Descent.walk doc stack = .ok vs) : vs.Nodup := by
  fun_induction Descent.walk doc stack generalizing vs with
  | case1 =>
    cases h
    exact .nil
  | case2 => cases h
  | case3 node stack children hc ih =>
    have hne := hs node (by simp)
    have hchild := isChild_of_childValues hc
    obtain ⟨hnode, hstack⟩ := List.pairwise_cons.1 hp
    cases hw : Descent.walk doc (children ++ stack) with
    | error f =>
      rw [hw] at h
      cases h
    | ok ws =>
      rw [hw] at h
      cases h
      have hextent := isExtent_of_turn hs hc
      refine List.nodup_cons.2 ⟨fun hmem => ?_, ih hextent ?_ hw⟩
      · -- the node itself is neither within a child of it nor within what is left on the stack
        obtain ⟨t, ht, hb⟩ := below_of_walk hw node hmem
        have hin := hb.bounds (hextent t ht)
        rcases List.mem_append.1 ht with ht | ht
        · have := ((hchild t ht).extent hne).2.1
          rw [Span.Encloses] at this
          omega
        · have := hnode t ht
          unfold Span.Disjoint at this
          omega
      · refine List.pairwise_append.2 ⟨disjoint_of_childValues hne hc, hstack, ?_⟩
        intro c hcm t htm
        exact (hnode t htm).below hne (hs t (by simp [htm])) (hchild c hcm).below (.refl t)

/-! ### Steps from several values -/

variable {site : Site} {spans vs : List Span} {segments : List Segment}

theorem nodup_of_stepAll (hr : r.IsExtent site.doc) (hb : ∀ s ∈ spans, Below site.doc r s)
    (hn : spans.Nodup) (hu : ∀ segment ∈ segments, segment.isUnion = false)
    (hd : ∀ segment ∈ segments, segment.isDescent = false)
    (h : (Segment.stepAll site spans segments).result = .ok vs) : vs.Nodup := by
  induction segments generalizing spans with
  | nil =>
    cases h
    exact hn
  | cons segment more ih =>
    rw [Segment.result_stepAll_cons] at h
    obtain ⟨reached, hreached, h⟩ := bind_eq_ok.1 h
    have hextent : ∀ s ∈ spans, s.IsExtent site.doc := fun s hs => ((hb s hs).extent hr).1
    have hbelow : ∀ v ∈ reached, Below site.doc r v := Below.gather hb hreached
    refine ih hbelow ?_ (fun t ht => hu t (by simp [ht])) (fun t ht => hd t (by simp [ht])) h
    refine pairwise_of_gather hreached hn ?_ ?_
    · intro s hs ds hds
      have hstep := disjoint_of_step (hextent s hs) (hu _ (by simp)) (hd _ (by simp)) hds
      have hvs := isExtent_of_step (hextent s hs) hds
      exact hstep.imp_of_mem fun hv _ hvw => hvw.ne (hvs _ hv)
    · intro s hs t ht hst ds es hds hes v hv w hw hvw
      have hsv := isChild_of_step (hd _ (by simp)) hds v hv
      have htw := isChild_of_step (hd _ (by simp)) hes w hw
      exact hst (hsv.parent_unique hr (hb s hs) (hb t ht) (hvw ▸ htw))

/-- Values with no byte in common lead to distinct values, without unions and with one descent at
most. -/
theorem nodup_of_stepAll_of_disjoint (hr : r.IsExtent site.doc)
    (hb : ∀ s ∈ spans, Below site.doc r s) (hp : spans.Pairwise Span.Disjoint)
    (hu : ∀ segment ∈ segments, segment.isUnion = false)
    (hd : segments.countP Segment.isDescent ≤ 1)
    (h : (Segment.stepAll site spans segments).result = .ok vs) : vs.Nodup := by
  induction segments generalizing spans with
  | nil =>
    cases h
    exact hp.imp_of_mem fun hs _ hst => hst.ne ((hb _ hs).extent hr).1
  | cons segment more ih =>
    rw [Segment.result_stepAll_cons] at h
    obtain ⟨reached, hreached, h⟩ := bind_eq_ok.1 h
    have hextent : ∀ s ∈ spans, s.IsExtent site.doc := fun s hs => ((hb s hs).extent hr).1
    have hbelow : ∀ v ∈ reached, Below site.doc r v := Below.gather hb hreached
    have humore : ∀ t ∈ more, t.isUnion = false := fun t ht => hu t (by simp [ht])
    have hcross : ∀ s ∈ spans, ∀ t ∈ spans, s.Disjoint t → ∀ ds es,
        (segment.step site s).result = .ok ds → (segment.step site t).result = .ok es →
        ∀ v ∈ ds, ∀ w ∈ es, v.Disjoint w := by
      intro s hs t ht hst ds es hds hes v hv w hw
      exact hst.below (hextent s hs) (hextent t ht) (below_of_step hds v hv) (below_of_step hes w hw)
    cases hdescent : segment.isDescent with
    | false =>
      rw [List.countP_cons_of_neg (by simp [hdescent])] at hd
      refine ih hbelow (pairwise_of_gather hreached hp ?_ hcross) humore hd h
      exact fun s hs ds hds => disjoint_of_step (hextent s hs) (hu _ (by simp)) hdescent hds
    | true =>
      rw [List.countP_cons_of_pos hdescent] at hd
      -- this is the one descent, so from here on the values may nest but stay distinct
      have hnone : ∀ t ∈ more, t.isDescent = false := by
        simpa using List.countP_eq_zero.1 (Nat.le_zero.1 (Nat.le_of_succ_le_succ hd))
      refine nodup_of_stepAll hr hbelow ?_ humore hnone h
      refine pairwise_of_gather hreached hp ?_ ?_
      · intro s hs ds hds
        cases segment with
        | descent =>
          exact nodup_of_walk (by simpa using hextent s hs) (List.pairwise_singleton _ s) hds
        | _ => cases hdescent
      · intro s hs t ht hst ds es hds hes v hv w hw
        have hv' := isExtent_of_step (hextent s hs) hds v hv
        exact (hcross s hs t ht hst ds es hds hes v hv w hw).ne hv'

/-- A path without unions and with one descent at most selects nothing twice. -/
theorem Path.select_nodup {p : Path} {doc : Bytes} {spans : List Span}
    (hu : ∀ segment ∈ p, segment.isUnion = false) (hd : p.countP Segment.isDescent ≤ 1)
    (h : p.select doc = .ok spans) : spans.Nodup := by
  obtain ⟨root, hroot, hreach⟩ := Path.select_eq_ok.1 h
  have hextent := (isExtent_of_locateRoot hroot).1
  have hb : ∀ s ∈ [root], Below doc root s := by
    intro s hs
    rw [List.mem_singleton.1 hs]
    exact .refl root
  exact nodup_of_stepAll_of_disjoint hextent hb (List.pairwise_singleton _ root) hu hd hreach

/-- The matches may lie inside of others, and need not be in the order of the document. -/
theorem Path.select_nodup_nested :
    let p : Path := [.wildcard, .descent, .slice none none (some (-1))]
    let spans : List Span := [⟨2, 11⟩, ⟨5, 10⟩, ⟨3, 4⟩, ⟨8, 9⟩, ⟨6, 7⟩]
    (∀ segment ∈ p, segment.isUnion = false) ∧ p.countP Segment.isDescent ≤ 1 ∧
    p.select (utf8 "[[[1,[2,3]]],4]") = .ok spans ∧ spans.Nodup := by
  intro p spans
  have hu : ∀ segment ∈ p, segment.isUnion = false := by decide
  have hd : p.countP Segment.isDescent ≤ 1 := by decide
  have hselect : p.select (utf8 "[[[1,[2,3]]],4]") = .ok spans := by decide +kernel
  exact ⟨hu, hd, hselect, select_nodup hu hd hselect⟩

end JsonSpan

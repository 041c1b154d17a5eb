import JsonSpan.Proofs.Query.Bounds
import JsonSpan.Proofs.Query.Composition
import JsonSpan.Proofs.Query.Rendering

/-!
# The order of matches

Most segments lead from a value to children of it, and to these in the order in which they stand: a
name and an index to one child at most, a wildcard to all of them, a filter to some, and so does a
slice that walks upwards. Children lie inside their parent, so from values that follow one another
such segments lead to values that follow one another again (`follow_of_stepAll`). A union may go
back and forth, a slice may walk downwards, and a descent leads to values inside of others; a path
without these selects its matches in the order of the document (`Path.select_ascending`).
-/

namespace JsonSpan

/-- The span `s` ends before the span `t` starts. -/
def Span.Precedes (s t : Span) : Prop :=
  s.stop ≤ t.start

/-- Whether a segment leads from a value to children of it, in their order. -/
def Segment.isForward : Segment → Bool
  | .field _ | .wildcard | .index _ | .filter _ => true
  | .slice _ _ step => step.all (0 ≤ ·)
  | .union _ | .descent => false

/-! ### Lists of steps -/

/-- What steps give for each of a list stands in a relation pairwise, if it does for each of them, and
between any two. -/
theorem pairwise_of_gather {ε α β : Type} {f : α → Except ε (List β)} {R : β → β → Prop}
    {S : α → α → Prop} {as : List α} {bs : List β} (h : gather f as = .ok bs) (hS : as.Pairwise S)
    (hone : ∀ a ∈ as, ∀ ds, f a = .ok ds → ds.Pairwise R)
    (htwo : ∀ a ∈ as, ∀ b ∈ as, S a b → ∀ ds es, f a = .ok ds → f b = .ok es →
      ∀ d ∈ ds, ∀ e ∈ es, R d e) : bs.Pairwise R := by
  induction as generalizing bs with
  | nil =>
    cases h
    exact .nil
  | cons a as ih =>
    obtain ⟨ds, es, hd, he, rfl⟩ := gather_cons_eq_ok.1 h
    obtain ⟨hfirst, hmore⟩ := List.pairwise_cons.1 hS
    rw [List.pairwise_append]
    refine ⟨hone a (by simp) ds hd, ?_, ?_⟩
    · exact ih he hmore (fun b hb => hone b (by simp [hb]))
        fun b hb c hc => htwo b (by simp [hb]) c (by simp [hc])
    · intro d hdm e hem
      obtain ⟨b, hb, es', hf, he'⟩ := mem_of_gather he e hem
      exact htwo a (by simp) b (by simp [hb]) (hfirst b hb) ds es' hd hf d hdm e he'

theorem pairwise_toList {α : Type} {R : α → α → Prop} (found : Option α) :
    found.toList.Pairwise R := by
  cases found <;> simp

theorem pairwise_filterMap_getElem? {α : Type} {R : α → α → Prop} {S : Nat → Nat → Prop}
    {as : List α} {positions : List Nat} (hpositions : positions.Pairwise S)
    (h : ∀ i j (hi : i < as.length) (hj : j < as.length), S i j → R as[i] as[j]) :
    (positions.filterMap (as[·]?)).Pairwise R := by
  rw [List.pairwise_filterMap]
  refine hpositions.imp fun {i j} hij a ha b hb => ?_
  obtain ⟨hi, rfl⟩ := List.getElem?_eq_some_iff.1 ha
  obtain ⟨hj, rfl⟩ := List.getElem?_eq_some_iff.1 hb
  exact h i j hi hj hij

/-! ### The walk of a slice -/

namespace Slice

theorem pairwise_walk (step bound i : Int) :
    (walk step bound i).Pairwise fun a b => 0 < step ∧ a < b ∨ step < 0 ∧ b < a := by
  fun_induction walk step bound i with
  | case1 i hc ih =>
    refine List.pairwise_cons.2 ⟨fun j hj => ?_, ih⟩
    have := range_of_mem_walk hj
    omega
  | case2 => exact .nil

theorem pairwise_indices (length : Nat) (start stop step : Option Int) :
    (indices length start stop step).Pairwise fun a b =>
      0 < step.getD 1 ∧ a < b ∨ step.getD 1 < 0 ∧ b < a := by
  rw [indices, List.pairwise_filterMap]
  refine (pairwise_walk _ _ _).imp fun {i j} hij a ha b hb => ?_
  have hi := Int.mem_toNat?.1 ha
  have hj := Int.mem_toNat?.1 hb
  omega

end Slice

/-! ### Steps from one value -/

theorem follow_of_values {doc : Bytes} {s : Span} {k : Kind} {container : Container}
    (hs : s.IsExtent doc) (hk : (Place.ofOffset doc s.start).kind = .ok k)
    (hc : k.container? = some container) {vs : List Span}
    (h : (Listing.ofOffset container doc s.start).values = .ok vs) : vs.Pairwise Span.Precedes := by
  rw [Listing.values] at h
  split at h
  · cases h
  · cases h
    exact List.pairwise_map.2 ((hs.listing hk hc).1.imp Place.Found.low_le)

theorem follow_of_childValues {doc : Bytes} {s : Span} (hs : s.IsExtent doc) {vs : List Span}
    (h : childValues doc s = .ok vs) : vs.Pairwise Span.Precedes := by
  rw [childValues, bind_eq_ok] at h
  obtain ⟨k, hk, h⟩ := h
  split at h
  · next container hc => exact follow_of_values hs hk hc h
  · cases h
    exact .nil

namespace Site

variable {site : Site} {s : Span} {vs : List Span}

theorem exists_of_field {name : String} (h : site.field name s = .ok vs) :
    ∃ found : Option Span, vs = found.toList := by
  rw [field, bind_eq_ok] at h
  obtain ⟨k, _, h⟩ := h
  split at h
  · obtain ⟨found, _, h⟩ := bind_eq_ok.1 h
    cases h
    exact ⟨found, rfl⟩
  · cases h
    exact ⟨none, rfl⟩

theorem exists_of_index {i : Int} (h : site.index i s = .ok vs) :
    ∃ found : Option Span, vs = found.toList := by
  rw [index, bind_eq_ok] at h
  obtain ⟨k, _, h⟩ := h
  split at h
  · dsimp only at h
    split at h
    · obtain ⟨found, _, h⟩ := bind_eq_ok.1 h
      cases h
      exact ⟨found, rfl⟩
    · obtain ⟨values, _, h⟩ := bind_eq_ok.1 h
      split at h
      · cases h
        exact ⟨_, rfl⟩
      · cases h
        exact ⟨none, rfl⟩
  · cases h
    exact ⟨none, rfl⟩

theorem directed_of_slice {start stop step : Option Int} (hs : s.IsExtent site.doc)
    (h : site.slice start stop step s = .ok vs) :
    vs.Pairwise fun v w =>
      0 < step.getD 1 ∧ v.Precedes w ∨ step.getD 1 < 0 ∧ w.Precedes v := by
  rw [slice, bind_eq_ok] at h
  obtain ⟨k, hk, h⟩ := h
  split at h
  · next ha =>
    subst ha
    obtain ⟨values, hv, h⟩ := bind_eq_ok.1 h
    cases h
    have hfollow := List.pairwise_iff_getElem.1 (follow_of_values hs hk rfl hv)
    refine pairwise_filterMap_getElem? (Slice.pairwise_indices _ _ _ _) fun i j hi hj hij => ?_
    rcases hij with ⟨hstep, hij⟩ | ⟨hstep, hij⟩
    · exact .inl ⟨hstep, hfollow i j hi hj hij⟩
    · exact .inr ⟨hstep, hfollow j i hj hi hij⟩
  · cases h
    exact .nil

end Site

/-- From one value, a forward segment leads to children that follow one another. -/
theorem follow_of_step {site : Site} {s : Span} {segment : Segment} {vs : List Span}
    (hs : s.IsExtent site.doc) (hf : segment.isForward)
    (h : (segment.step site s).result = .ok vs) : vs.Pairwise Span.Precedes := by
  cases segment with
  | field name =>
    obtain ⟨found, rfl⟩ := Site.exists_of_field (by simpa using h)
    exact pairwise_toList found
  | wildcard => exact follow_of_childValues hs (by simpa using h)
  | index i =>
    obtain ⟨found, rfl⟩ := Site.exists_of_index (by simpa using h)
    exact pairwise_toList found
  | slice start stop step =>
    have hstep : 0 ≤ (step.map (·.toInt)).getD 1 := by
      cases step with
      | none => decide
      | some step => exact Int64.le_iff_toInt_le.1 (by simpa [Segment.isForward] using hf)
    refine (Site.directed_of_slice hs (by simpa using h)).imp fun hvw => ?_
    rcases hvw with ⟨_, hvw⟩ | ⟨hneg, _⟩
    · exact hvw
    · omega
  | filter condition =>
    rw [Segment.result_step_filter] at h
    obtain ⟨children, hc, hp⟩ := bind_eq_ok.1 h
    exact (follow_of_childValues hs hc).sublist (sublist_of_pick hp)
  | union | descent => cases hf

/-- Values that follow one another lead to values that do. -/
theorem follow_of_stepAll {site : Site} {spans vs : List Span} {segments : List Segment}
    (hs : ∀ s ∈ spans, s.IsExtent site.doc) (hp : spans.Pairwise Span.Precedes)
    (hf : ∀ segment ∈ segments, segment.isForward)
    (h : (Segment.stepAll site spans segments).result = .ok vs) : vs.Pairwise Span.Precedes := by
  induction segments generalizing spans with
  | nil =>
    cases h
    exact hp
  | cons segment more ih =>
    rw [Segment.result_stepAll_cons] at h
    obtain ⟨reached, hr, h⟩ := bind_eq_ok.1 h
    refine ih (isExtent_of_gather hs hr) ?_ (fun t ht => hf t (by simp [ht])) h
    refine pairwise_of_gather hr hp (fun s hm ds hd => follow_of_step (hs s hm) (hf _ (by simp)) hd) ?_
    -- what lies below `s` ends before `s` does, and so before anything below `t` starts
    intro s hsm t htm hst ds es hd he d hdm e hem
    have hds := (below_of_step hd d hdm).bounds (hs s hsm)
    have het := (below_of_step he e hem).bounds (hs t htm)
    rw [Span.Precedes] at hst ⊢
    omega

/-- A path of names, indices, wildcards, filters and slices that do not walk downwards selects its
matches in the order of the document, each of them ending before the next one starts; and in this
order they are the elements of the array that is rendered of them. -/
theorem Path.select_ascending {p : Path} {doc : Bytes} {spans : List Span}
    (hp : ∀ segment ∈ p, segment.isForward) (h : p.select doc = .ok spans) :
    (spans.Pairwise fun s t => s.stop ≤ t.start ∧ s.start < t.start) ∧
    (2 ≤ spans.length → ∃ children,
      Listing.ofOffset .array (renderMatches doc spans) 0 = ⟨children, none⟩ ∧
      children.map (·.value.slice (renderMatches doc spans)) = spans.map (·.slice doc)) := by
  obtain ⟨root, hroot, hreach⟩ := Path.select_eq_ok.1 h
  have hextent : ∀ s ∈ [root], s.IsExtent doc := by simpa using (isExtent_of_locateRoot hroot).1
  have hfollow := follow_of_stepAll hextent (List.pairwise_singleton _ root) hp hreach
  constructor
  · refine hfollow.imp_of_mem fun {s t} hs _ hst => ⟨hst, ?_⟩
    exact Nat.lt_of_lt_of_le (isExtent_of_stepAll hextent hreach s hs).bounds.1 hst
  · intro hlen
    rw [renderMatches_eq hlen]
    exact listing_bareArray (isSkipped_of_select h)

/-- Three steps over an object of arrays. -/
theorem Path.select_ascending_stepped :
    let p : Path := [.wildcard, .slice none none (some 2), .filter (.present (.current []))]
    let doc := utf8 "\x7b\"a\":[[1,2],[3],[4]],\"b\":[[5]]\x7d"
    let spans : List Span := [⟨7, 8⟩, ⟨9, 10⟩, ⟨17, 18⟩, ⟨27, 28⟩]
    (∀ segment ∈ p, segment.isForward) ∧ p.select doc = .ok spans ∧
    (spans.Pairwise fun s t => s.stop ≤ t.start ∧ s.start < t.start) ∧
    ∃ children, Listing.ofOffset .array (renderMatches doc spans) 0 = ⟨children, none⟩ ∧
      children.map (·.value.slice (renderMatches doc spans)) = spans.map (·.slice doc) := by
  intro p doc spans
  have hp : ∀ segment ∈ p, segment.isForward := by decide
  have hselect : p.select doc = .ok spans := by decide +kernel
  obtain ⟨hordered, hlisted⟩ := select_ascending hp hselect
  exact ⟨hp, hselect, hordered, hlisted (by decide)⟩

end JsonSpan

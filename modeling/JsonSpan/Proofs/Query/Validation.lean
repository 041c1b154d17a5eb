import JsonSpan.Proofs.Query.Faults
import JsonSpan.Proofs.Query.Framing
import JsonSpan.Proofs.Scan.Items

/-!
# Descent as a validator

A container is skipped by its brackets alone, and its children are read only when something asks for
them. The descent asks for all of them, on every level. So it succeeds if and only if the root is a
value by the rules below (`exists_isSound_iff`), and what it has read without a fault no other
path can fail on (`Path.select_descent_iff`).
-/

namespace JsonSpan

open Dialect

/-! ### Values -/

/-- A scalar, or a container of values. -/
inductive Dialect.IsValue : Bytes → Prop where
  | scalar {t : Bytes} (h : IsScalar t) : IsValue t
  | container (c : Container) (lead : Blanks) (items : List (Item c))
    (h : ∀ item ∈ items, IsValue item.value) : IsValue (containerBytes c lead items)

theorem Dialect.IsValue.isSkipped {t : Bytes} (h : IsValue t) : IsSkipped t := by
  induction h with
  | scalar h => exact h.isSkipped
  | container c lead items _ ih => exact isSkipped_container lead ih

/-- The children of every value below a span can be read. -/
def Span.IsSound (doc : Bytes) (s : Span) : Prop :=
  ∀ v, Below doc s v → ∃ children, childValues doc v = .ok children

variable {doc : Bytes} {s : Span}

/-! ### The children of a value -/

theorem childValues_container {k : Kind} {c : Container}
    (hk : (Place.ofOffset doc s.start).kind = .ok k) (hc : k.container? = some c) :
    childValues doc s = (Listing.ofOffset c doc s.start).values := by
  simp only [childValues, hk, hc, bind, Except.bind]

theorem childValues_scalar {k : Kind} (hk : (Place.ofOffset doc s.start).kind = .ok k)
    (hc : k.container? = none) : childValues doc s = .ok [] := by
  simp only [childValues, hk, hc, bind, Except.bind, pure, Except.pure]

theorem isChild_iff {children : List Span} (h : childValues doc s = .ok children) {v : Span} :
    IsChild doc s v ↔ v ∈ children := by
  refine ⟨?_, isChild_of_childValues h v⟩
  rintro ⟨k, c, hk, hc, child, hm, rfl⟩
  rw [childValues_container hk hc, Listing.values] at h
  split at h
  · cases h
  · cases h
    exact List.mem_map_of_mem hm

theorem Span.isSound_iff_children {children : List Span} (h : childValues doc s = .ok children) :
    s.IsSound doc ↔ ∀ c ∈ children, c.IsSound doc := by
  constructor
  · intro hs c hc v hv
    exact hs v (.child ((isChild_iff h).2 hc) hv)
  · intro hs v hv
    cases hv with
    | refl => exact ⟨children, h⟩
    | child hc hv => exact hs _ ((isChild_iff h).1 hc) v hv

/-! ### Values are sound -/

theorem Dialect.IsScalar.container? {t : Bytes} (h : IsScalar t) (offset : Nat) (r : Bytes) :
    ∃ k, (Place.mk offset (t ++ r)).kind = .ok k ∧ k.container? = none := by
  have hkind : ∃ k, (Place.mk offset (t ++ r)).kind? = some k ∧ k.container? = none := by
    cases h with
    | string h =>
      cases h
      exact ⟨.string, rfl, rfl⟩
    | number h => exact ⟨.number, h.kind? offset r, rfl⟩
    | word h =>
      simp only [List.mem_cons, List.not_mem_nil, or_false] at h
      rcases h with rfl | rfl | rfl
      · exact ⟨.boolean, rfl, rfl⟩
      · exact ⟨.boolean, rfl, rfl⟩
      · exact ⟨.null, rfl, rfl⟩
  obtain ⟨k, hk, hc⟩ := hkind
  rw [Place.kind, hk]
  exact ⟨k, rfl, hc⟩

theorem childValues_items {c : Container} {lead : Blanks} {items : List (Item c)} {r : Bytes}
    (h : ∀ item ∈ items, IsSkipped item.value)
    (hdoc : doc.drop s.start = containerBytes c lead items ++ r) :
    ∃ children, childValues doc s = .ok children ∧
      children.map (·.slice doc) = items.map (·.value) := by
  obtain ⟨k, hk, hc⟩ := kind?_containerBytes lead items s.start r
  have hkind : (Place.ofOffset doc s.start).kind = .ok k := by
    rw [Place.kind, Place.ofOffset, hdoc, hk]
  obtain ⟨children, hlisting, hslices⟩ := listing_items h hdoc
  refine ⟨children.map (·.value), ?_, ?_⟩
  · rw [childValues_container hkind hc, hlisting]
    rfl
  · rw [List.map_map, ← hslices]
    rfl

theorem Span.IsExtent.drop_start (h : s.IsExtent doc) :
    doc.drop s.start = s.slice doc ++ doc.drop s.stop := by
  have hdoc : (s.frame doc).doc (s.slice doc) = doc := Span.frame_doc (Nat.le_of_lt h.bounds.1)
  calc doc.drop s.start = ((s.frame doc).doc (s.slice doc)).drop (s.frame doc).before.length := by
        rw [hdoc, h.length_before]
    _ = s.slice doc ++ doc.drop s.stop := List.drop_left

theorem Dialect.IsValue.isSound {t : Bytes} (h : IsValue t) (hs : s.IsExtent doc)
    (ht : s.slice doc = t) : s.IsSound doc := by
  induction h generalizing s with
  | @scalar t h =>
    have hdoc := hs.drop_start
    rw [ht] at hdoc
    obtain ⟨k, hk, hc⟩ := h.container? s.start (doc.drop s.stop)
    rw [← hdoc] at hk
    rw [Span.isSound_iff_children (childValues_scalar hk hc)]
    exact List.forall_mem_nil _
  | container c lead items hitems ih =>
    have hdoc := hs.drop_start
    rw [ht] at hdoc
    obtain ⟨children, hchildren, hslices⟩ :=
      childValues_items (fun item hm => (hitems item hm).isSkipped) hdoc
    rw [Span.isSound_iff_children hchildren]
    intro v hv
    have hmem : v.slice doc ∈ items.map (·.value) :=
      hslices ▸ List.mem_map_of_mem (f := (·.slice doc)) hv
    obtain ⟨item, hm, hvalue⟩ := List.mem_map.1 hmem
    exact ih item hm (isExtent_of_childValues hs hchildren v hv) hvalue.symm

/-! ### What is sound is a value -/

theorem exists_inside {k : Kind} {c : Container} (hk : (Place.ofOffset doc s.start).kind = .ok k)
    (hc : k.container? = some c) {children : List Span} (h : childValues doc s = .ok children) :
    ∃ (lead : Blanks) (items : List (Item c)) (r : Bytes),
      doc.drop s.start = containerBytes c lead items ++ r ∧
        items.map (·.value) = children.map (·.slice doc) := by
  obtain ⟨r, hr⟩ := Place.rest_of_kind? (Place.kind?_of_kind hk) (b := c.opener)
    (by cases k <;> cases hc <;> rfl)
  rw [childValues_container hk hc, Listing.values] at h
  split at h
  · cases h
  · next hfault =>
    cases h
    have hlisting : (Place.ofOffset doc (s.start + 1)).listChildren c true =
        ⟨(Listing.ofOffset c doc s.start).children, none⟩ := by
      rw [← hfault]
      rfl
    obtain ⟨lead, items, r', hinside, hvalues⟩ := exists_items hlisting
    have htail : doc.drop (s.start + 1) = r := by
      rw [← List.drop_drop, List.drop_one]
      exact congrArg List.tail hr
    refine ⟨lead, items, r', ?_, ?_⟩
    · refine hr.trans ?_
      rw [← htail, hinside]
      simp [containerBytes]
    · rw [hvalues, List.map_map]
      rfl

theorem isSkipped_of_values {c : Container} {items : List (Item c)} {children : List Span}
    (h : items.map (·.value) = children.map (·.slice doc)) (hc : ∀ v ∈ children, v.IsExtent doc) :
    ∀ item ∈ items, IsSkipped item.value := by
  intro item hm
  have hmem : item.value ∈ children.map (·.slice doc) :=
    h ▸ List.mem_map_of_mem (f := (·.value)) hm
  obtain ⟨v, hv, hvalue⟩ := List.mem_map.1 hmem
  exact hvalue ▸ isSkipped_of_isExtent (hc v hv).slice

theorem exists_containerBytes (hs : s.IsExtent doc) {k : Kind} {c : Container}
    (hk : (Place.ofOffset doc s.start).kind = .ok k) (hc : k.container? = some c)
    {children : List Span} (h : childValues doc s = .ok children) :
    ∃ (lead : Blanks) (items : List (Item c)), s.slice doc = containerBytes c lead items ∧
      items.map (·.value) = children.map (·.slice doc) := by
  obtain ⟨lead, items, r, hdoc, hvalues⟩ := exists_inside hk hc h
  have hskipped := isSkipped_of_values hvalues (isExtent_of_childValues hs h)
  have hskip := skipValue_container lead hskipped s.start r
  rw [← hdoc] at hskip
  have hstop : s.stop = s.start + (containerBytes c lead items).length :=
    congrArg Place.offset (Except.ok.inj (hs.skipValue.symm.trans hskip))
  refine ⟨lead, items, ?_, hvalues⟩
  rw [← slice_of_append hdoc, ← hstop]

/-- The bytes of a span whose children can be read on every level are a value. -/
theorem Span.IsSound.isValue (hs : s.IsExtent doc) (h : s.IsSound doc) :
    IsValue (s.slice doc) := by
  induction hlen : s.stop - s.start using Nat.strongRecOn generalizing s with
  | ind len ih =>
    obtain ⟨k, hk⟩ := hs.exists_kind
    obtain ⟨children, hchildren⟩ := h s (.refl s)
    cases hc : k.container? with
    | none =>
      obtain ⟨t, ht, hcovers⟩ := exists_isScalar (Place.kind?_of_kind hk) hc hs.skipValue
      have hslice : s.slice doc = t := slice_of_covers (.refl (.ofOffset doc s.start)) hcovers
      exact .scalar (hslice ▸ ht)
    | some c =>
      obtain ⟨lead, items, hslice, hvalues⟩ := exists_containerBytes hs hk hc hchildren
      rw [hslice]
      refine .container c lead items fun item hm => ?_
      have hmem : item.value ∈ children.map (·.slice doc) :=
        hvalues ▸ List.mem_map_of_mem (f := (·.value)) hm
      obtain ⟨v, hv, hvalue⟩ := List.mem_map.1 hmem
      obtain ⟨hextent, hin, hne⟩ := ((isChild_iff hchildren).2 hv).extent hs
      have hshort : v.stop - v.start < len := by
        have := hin.1
        have := hin.2
        omega
      exact hvalue ▸ ih _ hshort hextent ((Span.isSound_iff_children hchildren).1 h v hv) rfl

/-! ### Descent -/

theorem Descent.walk_eq_ok_iff (stack : List Span) :
    (∃ vs, Descent.walk doc stack = .ok vs) ↔ ∀ s ∈ stack, s.IsSound doc := by
  fun_induction Descent.walk doc stack with
  | case1 => simp
  | case2 node stack fault hc =>
    constructor
    · rintro ⟨_, h⟩
      cases h
    · intro h
      obtain ⟨children, hchildren⟩ := h node (by simp) node (.refl node)
      cases hc.symm.trans hchildren
  | case3 node stack children hc ih =>
    have hmap : (∃ vs, (Descent.walk doc (children ++ stack)).map (node :: ·) = .ok vs) ↔
        ∃ vs, Descent.walk doc (children ++ stack) = .ok vs := by
      cases Descent.walk doc (children ++ stack) <;> simp [Except.map]
    rw [hmap, ih, List.forall_mem_append, List.forall_mem_cons, Span.isSound_iff_children hc]

theorem Path.select_descent (doc : Bytes) :
    Path.select [.descent] doc = locateRoot doc >>= descendants doc := by
  rw [Path.select_eq]
  cases locateRoot doc with
  | error fault => rfl
  | ok root =>
    show (Segment.stepAll ⟨doc, root⟩ [root] [.descent]).result = descendants doc root
    rw [Segment.result_stepAll_cons, gather_singleton, Segment.result_step_descent]
    cases descendants doc root with
    | error fault => rfl
    | ok vs => exact Segment.result_stepAll_nil ⟨doc, root⟩ vs

theorem Path.select_descent_eq_ok :
    (∃ spans, Path.select [.descent] doc = .ok spans) ↔
      ∃ root, locateRoot doc = .ok root ∧ root.IsSound doc := by
  rw [Path.select_descent]
  cases locateRoot doc with
  | error fault => simp [bind, Except.bind]
  | ok root =>
    have hwalk : (∃ vs, Descent.walk doc [root] = .ok vs) ↔ _ := Descent.walk_eq_ok_iff [root]
    rw [List.forall_mem_singleton] at hwalk
    show (∃ spans, Descent.walk doc [root] = .ok spans) ↔ _
    simp [hwalk]

/-- No path fails where everything below the root can be read. -/
theorem Path.exists_select {root : Span} (hroot : locateRoot doc = .ok root)
    (h : root.IsSound doc) (p : Path) : ∃ spans, p.select doc = .ok spans := by
  have hextent := (isExtent_of_locateRoot hroot).1
  have hb : (Site.mk doc root).Blames fun _ => False := by
    refine ⟨hextent, fun {s} hs k c hk hc x hx => ?_⟩
    obtain ⟨children, hchildren⟩ := h s hs
    rw [childValues_container hk hc, Listing.values, hx] at hchildren
    cases hchildren
  have hfails := Segment.failsOnly_stepAll hb (List.forall_mem_singleton.2 (.refl root)) p
  rw [Path.select_eq, hroot]
  show ∃ spans, (Segment.stepAll ⟨doc, root⟩ [root] p).result = .ok spans
  cases hresult : (Segment.stepAll ⟨doc, root⟩ [root] p).result with
  | ok spans => exact ⟨spans, rfl⟩
  | error fault => exact (hfails fault hresult).elim

/-! ### Documents -/

theorem Place.rest_skipWhile (accept : UInt8 → Bool) (offset : Nat) (rest : Bytes) :
    (skipWhile accept offset rest).rest = rest.dropWhile accept := by
  induction rest generalizing offset with
  | nil => rfl
  | cons b r ih =>
    rw [skipWhile, List.dropWhile_cons]
    split
    · exact ih (offset + 1)
    · rfl

/-- A root is found and is sound if the document starts, after blanks, with a container that is a
value. -/
theorem exists_isSound_iff {c : Container}
    (hc : (doc.dropWhile Byte.isBlank).head? = some c.opener) :
    (∃ root, locateRoot doc = .ok root ∧ root.IsSound doc) ↔
      ∃ value rest, doc.dropWhile Byte.isBlank = value ++ rest ∧ IsValue value := by
  have hrest : (Place.ofOffset doc 0).skipBlanks.rest = doc.dropWhile Byte.isBlank :=
    Place.rest_skipWhile Byte.isBlank 0 doc
  constructor
  · rintro ⟨root, hroot, hsound⟩
    obtain ⟨hblanks, hextent⟩ := locateRoot_eq_ok.1 hroot
    refine ⟨root.slice doc, doc.drop root.stop, ?_, hsound.isValue hextent⟩
    rw [← hextent.drop_start, ← hrest, hblanks]
    rfl
  · rintro ⟨value, rest, hdoc, hvalue⟩
    have hplace : (Place.ofOffset doc 0).skipBlanks =
        .ofOffset doc (Place.ofOffset doc 0).skipBlanks.offset :=
      (Place.after_skipBlanks _).ofOffset
    let start := (Place.ofOffset doc 0).skipBlanks.offset
    have hdrop : doc.drop start = value ++ rest :=
      (congrArg Place.rest hplace).symm.trans (hrest.trans hdoc)
    have hskip : Place.skipValue ⟨start, value ++ rest⟩ = .ok ⟨start + value.length, rest⟩ := by
      cases hvalue with
      | container c lead items h =>
        exact skipValue_container lead (fun item hm => (h item hm).isSkipped) start rest
      | scalar h =>
        obtain ⟨k, hk, hk'⟩ := h.container? start rest
        rw [hdoc] at hc
        rw [Place.kind, Place.kind?, Place.byte?, hc] at hk
        cases c <;> cases hk <;> cases hk'
    have hextent : Span.IsExtent doc ⟨start, start + value.length⟩ := by
      rw [Span.isExtent_iff, Place.ofOffset, Place.ofOffset, drop_of_append hdrop, hdrop]
      exact hskip
    exact ⟨_, locateRoot_eq_ok.2 ⟨hplace, hextent⟩, hvalue.isSound hextent (slice_of_append hdrop)⟩

/-- For a document whose first byte after blanks opens a container, the descent succeeds if and only
if the document starts, after the blanks, with a value; and if it succeeds, every path does. -/
theorem Path.select_descent_iff {c : Container}
    (hc : (doc.dropWhile Byte.isBlank).head? = some c.opener) :
    ((∃ spans, Path.select [.descent] doc = .ok spans) ↔
      ∃ value rest, doc.dropWhile Byte.isBlank = value ++ rest ∧ IsValue value) ∧
    ((∃ spans, Path.select [.descent] doc = .ok spans) →
      ∀ p : Path, ∃ spans, p.select doc = .ok spans) := by
  refine ⟨Path.select_descent_eq_ok.trans (exists_isSound_iff hc), fun h p => ?_⟩
  obtain ⟨root, hroot, hsound⟩ := Path.select_descent_eq_ok.1 h
  exact Path.exists_select hroot hsound p

/-- Zeros may lead a number and any byte may be escaped in a string, but no comma may trail. -/
theorem Path.select_descent_lenient :
    (∃ value rest, (utf8 " [007, \x7b\"\\q\" : []\x7d ]x").dropWhile Byte.isBlank = value ++ rest ∧
      IsValue value) ∧
    (∀ p : Path, ∃ spans, p.select (utf8 " [007, \x7b\"\\q\" : []\x7d ]x") = .ok spans) ∧
    ¬ ∃ value rest, (utf8 "[7,]").dropWhile Byte.isBlank = value ++ rest ∧ IsValue value := by
  have hlenient : ∃ spans, Path.select [.descent] (utf8 " [007, \x7b\"\\q\" : []\x7d ]x") = .ok spans :=
    ⟨[⟨1, 20⟩, ⟨2, 5⟩, ⟨7, 18⟩, ⟨15, 17⟩], by decide +kernel⟩
  have hhead : ((utf8 " [007, \x7b\"\\q\" : []\x7d ]x").dropWhile Byte.isBlank).head? =
      some Container.array.opener := by
    decide +kernel
  have hiff := select_descent_iff hhead
  refine ⟨hiff.1.1 hlenient, hiff.2 hlenient, fun h => ?_⟩
  obtain ⟨spans, hspans⟩ := (select_descent_iff (c := .array) (by decide +kernel)).1.2 h
  have hfault : Path.select [.descent] (utf8 "[7,]") = .error (.badByte 3 Byte.closeBracket) := by
    decide +kernel
  cases hspans.symm.trans hfault

end JsonSpan

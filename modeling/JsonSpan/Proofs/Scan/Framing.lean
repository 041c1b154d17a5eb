import JsonSpan.Proofs.Scan.Inside

/-!
# Children in a frame

Between brackets a reading leaves the closer over, so it does the same in any frame, child by child
(`Place.Inside.nextChild_frame`). Hence the listing of a container in a framed document is that of the
container in the document alone, with all its offsets moved (`Span.IsExtent.listing_frame`). In the
other direction, a value stays a value when it is cut out of the document around it
(`Span.IsExtent.slice`).
-/

namespace JsonSpan

namespace Frame

variable (f : Frame)

/-- The counterpart of a span in the framed document. -/
def span (s : Span) : Span :=
  s.shift f.before.length

def child (c : Child) : Child :=
  ⟨c.key.map f.span, f.span c.value⟩

def fault (x : Fault) : Fault :=
  x.shift f.before.length

def listing (l : Listing) : Listing :=
  ⟨l.children.map f.child, l.fault?.map f.fault⟩

/-- The counterpart of what is found where a child may start. -/
def opening : Opening → Opening
  | .child start => .child (f.place start)
  | .closer place => .closer (f.place place)

variable {f}

theorem fault_place {p : Place} (h : p.rest ≠ [] ∨ f.after = []) :
    (f.place p).fault = f.fault p.fault := by
  obtain ⟨offset, rest⟩ := p
  cases rest with
  | nil =>
    rw [place_of_after rfl (h.resolve_left fun hne => hne rfl)]
    rfl
  | cons b r => rfl

theorem kind_place {p : Place} (h : p.rest ≠ []) :
    (f.place p).kind = mapBoth f.fault id p.kind := by
  rw [Place.kind, Place.kind, Place.kind?, byte?_place h, fault_place (.inl h), ← Place.kind?]
  cases p.kind? <;> rfl

end Frame

namespace Place

variable {f : Frame} {stop p : Place}

theorem skipBlanks_frame (h : p.skipBlanks.rest ≠ [] ∨ f.after = []) :
    (f.place p).skipBlanks = f.place p.skipBlanks :=
  Except.ok.inj ((local_skipWhile Byte.isBlank).frame h)

theorem readValue_frame (h : (stopOf id p.skipValue).rest ≠ [] ∨ f.after = []) :
    (f.place p).readValue = mapBoth f.place (Prod.map f.span f.place) p.readValue := by
  rw [readValue, readValue, local_skipValue.frame h]
  cases p.skipValue <;> rfl

theorem expect_frame {b : UInt8} (h : p.rest ≠ []) :
    (f.place p).expect b = mapBoth f.place f.place (p.expect b) := by
  rw [expect, expect, Frame.byte?_place h, Frame.next_place h]
  split <;> rfl

theorem listChildren_eq (container : Container) (fresh : Bool) (p : Place) :
    p.listChildren container fresh =
      match p.nextChild container fresh with
      | .ok (some child, q) =>
        ⟨child :: (q.listChildren container false).children,
          (q.listChildren container false).fault?⟩
      | .ok (none, _) => ⟨[], none⟩
      | .error q => ⟨[], some q.fault⟩ := by
  rw [listChildren]
  split <;> rename_i hnext <;> rw [hnext]

namespace Inside

theorem skipBlanks (h : Inside stop p) : Inside stop p.skipBlanks :=
  h.of_level (level_skipBlanks p)

theorem skipBlanks_frame (h : Inside stop p) : (f.place p).skipBlanks = f.place p.skipBlanks :=
  Place.skipBlanks_frame (.inl h.skipBlanks.rest_ne_nil)

theorem readValue_frame (h : Inside stop p) :
    (f.place p).readValue = mapBoth f.place (Prod.map f.span f.place) p.readValue :=
  Place.readValue_frame (.inl (h.of_level h.level_skipValue).rest_ne_nil)

theorem expect_frame {b : UInt8} (h : Inside stop p) :
    (f.place p).expect b = mapBoth f.place f.place (p.expect b) :=
  Place.expect_frame h.rest_ne_nil

theorem of_expect {b : UInt8} {q : Place} (hb : IsPlain b) (h : Inside stop p)
    (hq : p.expect b = .ok q) : Inside stop q :=
  h.of_level (plainly_expect hq hb).level

theorem openChild_frame (h : Inside stop p) (container : Container) (fresh : Bool) :
    (f.place p).openChild container fresh =
      mapBoth f.place f.opening (p.openChild container fresh) := by
  have hblanks := h.skipBlanks
  have hempty : (f.place p.skipBlanks).rest.isEmpty = p.skipBlanks.rest.isEmpty := by
    obtain ⟨b, r, hr⟩ := List.exists_cons_of_ne_nil hblanks.rest_ne_nil
    rw [Frame.place, hr]
    rfl
  simp only [openChild, h.skipBlanks_frame, Frame.byte?_place hblanks.rest_ne_nil, hempty]
  split
  · rfl
  split
  · split <;> rfl
  · refine bind_eq_mapBoth hblanks.expect_frame fun q hq => ?_
    rw [(hblanks.of_expect (by decide) hq).skipBlanks_frame]
    rfl

theorem readKey_frame (h : Inside stop p) :
    (f.place p).readKey = mapBoth f.place (Prod.map f.span f.place) p.readKey := by
  rw [readKey, readKey, Frame.byte?_place h.rest_ne_nil]
  split
  · refine bind_eq_mapBoth h.readValue_frame ?_
    rintro ⟨key, q⟩ hq
    have hvalue : Inside stop q := h.of_level (Place.level_readValue hq)
    show ((f.place q).skipBlanks.expect Byte.colon >>= _) = _
    rw [hvalue.skipBlanks_frame]
    refine bind_eq_mapBoth hvalue.skipBlanks.expect_frame fun r hr => ?_
    rw [(hvalue.skipBlanks.of_expect (by decide) hr).skipBlanks_frame]
    rfl
  · rfl

theorem readChild_frame (h : Inside stop p) (container : Container) :
    (f.place p).readChild container =
      mapBoth f.place (Prod.map f.child f.place) (p.readChild container) := by
  cases container with
  | object =>
    refine bind_eq_mapBoth h.readKey_frame ?_
    rintro ⟨key, q⟩ hq
    have hlevel := h.level_readKey
    rw [hq] at hlevel
    exact bind_eq_mapBoth (h.of_level hlevel).readValue_frame fun _ _ => rfl
  | array => exact bind_eq_mapBoth h.readValue_frame fun _ _ => rfl

theorem nextChild_frame (h : Inside stop p) (container : Container) (fresh : Bool) :
    (f.place p).nextChild container fresh =
      mapBoth f.place (Prod.map (Option.map f.child) f.place) (p.nextChild container fresh) := by
  refine bind_eq_mapBoth (h.openChild_frame container fresh) fun opening ho => ?_
  cases opening with
  | closer q => rfl
  | child q =>
    exact bind_eq_mapBoth ((h.of_level (level_openChild ho)).readChild_frame container) fun _ _ => rfl

theorem listChildren_frame (h : Inside stop p) (container : Container) (fresh : Bool) :
    (f.place p).listChildren container fresh = f.listing (p.listChildren container fresh) := by
  induction hlen : p.rest.length using Nat.strongRecOn generalizing p fresh with
  | ind len ih =>
    have hlevel := h.level_nextChild container fresh
    have hframe := h.nextChild_frame (f := f) container fresh
    rw [listChildren_eq, hframe, listChildren_eq]
    cases hnext : p.nextChild container fresh with
    | error q =>
      rw [hnext] at hlevel
      have hfault := Frame.fault_place (f := f) (.inl (h.of_level hlevel).rest_ne_nil)
      exact congrArg (fun x => Listing.mk [] (some x)) hfault
    | ok next =>
      obtain ⟨child?, q⟩ := next
      cases child? with
      | none => rfl
      | some child =>
        rw [hnext] at hlevel
        have hshort := (past_nextChild hnext).2.2.length_lt
        have hmore : (f.place q).listChildren container false =
            f.listing (q.listChildren container false) :=
          ih _ (hlen ▸ hshort) (h.of_level hlevel) false rfl
        simp [Frame.listing, hmore]

end Inside

theorem skipBlanks_of_skipValue {p q : Place} (h : p.skipValue = .ok q) : p.skipBlanks = p := by
  obtain ⟨offset, rest⟩ := p
  cases rest with
  | nil => rfl
  | cons b r =>
    have hb : Byte.isBlank b = false := by
      cases hk : Kind.ofByte? b with
      | none =>
        rw [skipValue_cons, skipValueOf, hk] at h
        cases h
      | some k => grind [Kind.ofByte?, Byte.isBlank, Byte.isDigit]
    rw [skipBlanks, skipWhile, hb]
    rfl

end Place

/-! ### Values in frames -/

namespace Frame

variable (f : Frame)

theorem slice_span {inner : Bytes} {s : Span} (hs : s.stop ≤ inner.length) :
    (f.span s).slice (f.doc inner) = s.slice inner := by
  rw [span, Span.shift, Span.slice, Span.slice, doc, Nat.add_comm s.stop, Nat.add_comm s.start,
    List.take_length_add_append, ← List.drop_drop, List.drop_left, List.take_append_of_le_length hs]

end Frame

/-- All of a document. -/
def Span.whole (doc : Bytes) : Span :=
  ⟨0, doc.length⟩

/-- What is around a span of a document. -/
def Span.frame (s : Span) (doc : Bytes) : Frame :=
  ⟨doc.take s.start, doc.drop s.stop⟩

theorem Span.frame_doc {doc : Bytes} {s : Span} (h : s.start ≤ s.stop) :
    (s.frame doc).doc (s.slice doc) = doc := by
  have hslice : s.slice doc ++ doc.drop s.stop = doc.drop s.start := by
    have hstop : doc.drop s.stop = (doc.drop s.start).drop (s.stop - s.start) := by
      rw [List.drop_drop, Nat.add_sub_cancel' h]
    rw [Span.slice, List.drop_take, hstop, List.take_append_drop]
  rw [Frame.doc, Span.frame, hslice, List.take_append_drop]

theorem Span.length_slice {doc : Bytes} {s : Span} (h : s.stop ≤ doc.length) :
    (s.slice doc).length = s.stop - s.start := by
  rw [Span.slice, List.length_drop, List.length_take, Nat.min_eq_left h]

namespace Span.IsExtent

variable {doc inner : Bytes} {s : Span}

theorem listing_frame (h : s.IsExtent inner) (f : Frame) {k : Kind} {container : Container}
    (hk : (Place.ofOffset inner s.start).kind = .ok k) (hc : k.container? = some container) :
    Listing.ofOffset container (f.doc inner) (f.span s).start =
      f.listing (Listing.ofOffset container inner s.start) := by
  have hinside : Place.Inside (.ofOffset inner s.stop) (.ofOffset inner (s.start + 1)) :=
    ⟨container.closer, h.matchBrackets hk hc⟩
  have hplace : f.place (.ofOffset inner (s.start + 1)) =
      .ofOffset (f.doc inner) ((f.span s).start + 1) := by
    rw [Frame.place_ofOffset f (by have := h.bounds; omega), Nat.add_right_comm]
    rfl
  rw [Listing.ofOffset, ← hplace]
  exact hinside.listChildren_frame container true

theorem kind_frame (h : s.IsExtent inner) (f : Frame) :
    (Place.ofOffset (f.doc inner) (f.span s).start).kind =
      mapBoth f.fault id (Place.ofOffset inner s.start).kind := by
  have hplace : f.place (.ofOffset inner s.start) = .ofOffset (f.doc inner) (f.span s).start :=
    Frame.place_ofOffset f (by have := h.bounds; omega)
  have hrest : (Place.ofOffset inner s.start).rest ≠ [] := (Place.past_skipValue h.skipValue).rest_ne_nil
  rw [← hplace, Frame.kind_place hrest]

/-! ### Cutting a value out -/

theorem length_before (h : s.IsExtent doc) : (s.frame doc).before.length = s.start := by
  rw [Span.frame, List.length_take, Nat.min_eq_left (by have := h.bounds; omega)]

theorem frame_span (h : s.IsExtent doc) : (s.frame doc).span (whole (s.slice doc)) = s := by
  obtain ⟨hne, hlen⟩ := h.bounds
  show Span.mk (0 + _) ((s.slice doc).length + _) = s
  rw [h.length_before, Span.length_slice hlen, Nat.zero_add, Nat.sub_add_cancel (Nat.le_of_lt hne)]

theorem of_frame (f : Frame) (h : (f.span s).IsExtent (f.doc inner)) (hs : s.stop ≤ inner.length) :
    s.IsExtent inner := by
  have hne : s.start + f.before.length < s.stop + f.before.length := h.bounds.1
  refine Span.isExtent_iff.2 (Place.local_skipValue.cut (f := f) ?_)
  rw [Frame.place_ofOffset f (by omega), Frame.place_ofOffset f hs]
  exact h.skipValue

/-- A value that is not a number is a value in every frame. -/
theorem in_frame (f : Frame) (h : s.IsExtent inner)
    (hk : (Place.ofOffset inner s.start).kind? ≠ some .number) :
    (f.span s).IsExtent (f.doc inner) := by
  obtain ⟨hne, hlen⟩ := h.bounds
  have hskip := Place.skipValue_frame_of_ok (f := f) h.skipValue hk
  rw [Frame.place_ofOffset f (by omega), Frame.place_ofOffset f hlen] at hskip
  exact Span.isExtent_iff.2 hskip

/-- A value that is cut out of its document is all of what was cut out. -/
theorem slice (h : s.IsExtent doc) : (whole (s.slice doc)).IsExtent (s.slice doc) := by
  refine of_frame (s.frame doc) ?_ (Nat.le_refl _)
  rw [h.frame_span, Span.frame_doc (Nat.le_of_lt h.bounds.1)]
  exact h

end Span.IsExtent

end JsonSpan

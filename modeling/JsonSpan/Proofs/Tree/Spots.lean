import Mathlib.Data.List.Forall2
import JsonSpan.Proofs.Tree.Scan
import JsonSpan.Query.Evaluate

/-!
# Spots of a document

A spot fits a document where the bytes of its layout stand at its offset. What the evaluator asks of
a value, its kind, its children and their names, and its scalar, is then answered by the tree of the
layout.
-/

namespace JsonSpan

/-- The layout stands in the document where the spot says. -/
def Spot.Fits (doc : Bytes) (s : Spot) : Prop :=
  ∃ r, doc.drop s.start = s.layout.bytes ++ r ∧ s.layout.Stops r

namespace Spot.Fits

variable {doc : Bytes} {s : Spot}

theorem kind (h : s.Fits doc) : (Place.ofOffset doc s.start).kind = .ok s.layout.kind := by
  obtain ⟨r, hr, _⟩ := h
  rw [Place.ofOffset, hr, Place.kind, Layout.kind?_bytes]

theorem readValue (h : s.Fits doc) :
    (Place.ofOffset doc s.start).readValue = .ok (s.span, .ofOffset doc s.span.stop) := by
  obtain ⟨r, hr, hstops⟩ := h
  rw [Place.ofOffset, hr, s.layout.readValue_bytes s.start hstops, Place.ofOffset]
  exact congrArg (fun bs => Except.ok (s.span, Place.mk s.span.stop bs)) (drop_of_append hr).symm

theorem slice (h : s.Fits doc) : s.span.slice doc = s.layout.bytes := by
  obtain ⟨r, hr, _⟩ := h
  exact slice_of_append hr

theorem ofSpan (h : s.Fits doc) : Scalar.ofSpan doc s.span = .ok s.layout.tree.scalar? := by
  have hscalar : Scalar.ofBytes s.layout.kind s.layout.bytes = s.layout.tree.scalar? := by
    cases s.layout with
    | null => rfl
    | boolean b => cases b <;> rfl
    | number n =>
      show some (Scalar.number (.ofDecimal (.ofNumeral (Scalar.asciiChars n.bytes)))) = _
      rw [n.asciiChars_bytes, n.ofNumeral_chars]
      rfl
    | string t => exact congrArg (Option.map Scalar.text) t.decode_bytes
    | container c lead children => cases c <;> rfl
  rw [Scalar.ofSpan]
  have hk : (Place.ofOffset doc s.span.start).kind = .ok s.layout.kind := h.kind
  rw [hk, h.slice]
  exact congrArg Except.ok hscalar

end Spot.Fits

/-! ### Children -/

theorem Layouts.fits_of_mem_spots {doc : Bytes} {c : Container} : (children : Layouts c) →
    (first : Bool) → (offset : Nat) → (r : Bytes) → doc.drop offset = children.bytes first ++ r →
    Numeral.Ends r → ∀ s ∈ children.spots first offset, s.Fits doc
  | .nil, _, _, _, _, _ => by simp [Layouts.spots]
  | .cons before label value after more, first, offset, r, h, hr => by
    have hcomma : (if first then [] else [Byte.comma] : Bytes).length = if first then 0 else 1 := by
      cases first <;> rfl
    simp only [Layouts.bytes, List.append_assoc] at h
    have hvalue := drop_of_append (drop_of_append (drop_of_append h))
    have hmore := drop_of_append (drop_of_append hvalue)
    rw [hcomma] at hvalue hmore
    intro s hs
    rcases List.mem_cons.1 hs with rfl | hs
    · exact ⟨_, hvalue, value.stops_of_ends (more.ends_after after hr)⟩
    · exact more.fits_of_mem_spots false _ r hmore hr s hs

theorem Layouts.trees_spots {c : Container} : (children : Layouts c) → (first : Bool) →
    (offset : Nat) → (children.spots first offset).map (·.layout.tree) = children.trees.map (·.2)
  | .nil, _, _ => rfl
  | .cons _ _ _ _ more, _, _ => congrArg (_ :: ·) (more.trees_spots false _)

theorem Spot.children_tree (s : Spot) :
    s.layout.tree.children = s.children.map (·.layout.tree) := by
  unfold Spot.children
  cases s.layout with
  | container c lead children =>
    dsimp only
    rw [children.trees_spots]
    cases c with
    | array => rfl
    | object =>
      show (children.trees.map _).map _ = _
      rw [List.map_map]
      rfl
  | _ => rfl

namespace Spot.Fits

variable {doc : Bytes} {s : Spot}

theorem inside {c : Container} {lead : Blanks} {children : Layouts c} (h : s.Fits doc)
    (hl : s.layout = .container c lead children) :
    ∃ r, doc.drop (s.start + 1 + lead.bytes.length) = children.bytes true ++ c.closer :: r := by
  obtain ⟨r, hr, _⟩ := h
  rw [hl] at hr
  simp only [Layout.bytes, List.cons_append, List.append_assoc, List.nil_append] at hr
  have hopener := drop_of_append (show doc.drop s.start = [c.opener] ++ _ from hr)
  exact ⟨r, drop_of_append hopener⟩

theorem children (h : s.Fits doc) : ∀ child ∈ s.children, child.Fits doc := by
  unfold Spot.children
  split
  · next c lead children hl =>
    obtain ⟨r, hr⟩ := h.inside hl
    exact children.fits_of_mem_spots true _ _ hr (c.ends_closer r)
  · simp

theorem listing {c : Container} {lead : Blanks} {children : Layouts c} (h : s.Fits doc)
    (hl : s.layout = .container c lead children) :
    Listing.ofOffset c doc s.start = ⟨s.children.map Spot.child, none⟩ := by
  obtain ⟨r, hr, _⟩ := h
  rw [hl] at hr
  simp only [Layout.bytes, List.cons_append, List.append_assoc, List.nil_append] at hr
  have hopener := drop_of_append (show doc.drop s.start = [c.opener] ++ _ from hr)
  have hchildren : s.children = children.spots true (s.start + 1 + lead.bytes.length) := by
    rw [Spot.children, hl]
  rw [Listing.ofOffset, Place.ofOffset, hchildren]
  have hdrop : doc.drop (s.start + 1) = lead.bytes ++ (children.bytes true ++ c.closer :: r) := hopener
  rw [hdrop, children.listChildren_bytes true lead]

theorem childValues (h : s.Fits doc) : childValues doc s.span = .ok (s.children.map Spot.span) := by
  have hk : (Place.ofOffset doc s.span.start).kind = .ok s.layout.kind := h.kind
  have hvalues : (s.children.map Spot.child).map Child.value = s.children.map Spot.span := by
    rw [List.map_map]
    rfl
  rw [JsonSpan.childValues, hk]
  cases hl : s.layout with
  | container c lead children =>
    have hlist : Listing.ofOffset c doc s.span.start = ⟨s.children.map Spot.child, none⟩ :=
      h.listing hl
    rw [← hvalues]
    cases c <;> exact congrArg Listing.values hlist
  | _ =>
    have hnone : s.children = [] := by
      rw [Spot.children, hl]
    rw [hnone]
    rfl

end Spot.Fits

/-! ### Names -/

theorem Token.isNamed {doc r : Bytes} {t : Token} {offset : Nat}
    (h : doc.drop offset = t.bytes ++ r) (name : String) (value : Span) :
    Child.isNamed doc name ⟨some ⟨offset, offset + t.bytes.length⟩, value⟩ = t.isName name := by
  have hlen : offset + t.bytes.length - 1 = offset + 1 + t.body.length := by
    simp only [Token.bytes, List.length_cons, List.length_append, List.length_nil]
    omega
  have hbody : doc.drop (offset + 1) = t.body ++ Byte.quote :: r := by
    have h' : doc.drop offset = [Byte.quote] ++ (t.body ++ Byte.quote :: r) := by
      rw [h]
      simp [Token.bytes]
    exact drop_of_append h'
  have hslice : Span.slice ⟨offset + 1, offset + t.bytes.length - 1⟩ doc = t.body := by
    rw [hlen]
    exact slice_of_append hbody
  show keyMatches doc ⟨offset, offset + t.bytes.length⟩ name = _
  rw [keyMatches, hslice]
  rfl

theorem Layouts.isNamed_spots {doc : Bytes} (name : String) : {c : Container} → (hc : c = .object) →
    (children : Layouts c) → (first : Bool) → (offset : Nat) → (r : Bytes) →
    doc.drop offset = children.bytes first ++ r →
    List.Forall₂ (fun (key : Token) (s : Spot) => Child.isNamed doc name s.child = key.isName name)
      (c.tree children.trees).keys (children.spots first offset)
  | _, rfl, .nil, _, _, _, _ => .nil
  | _, rfl, .cons before label value after more, first, offset, r, h => by
    have hcomma : (if first then [] else [Byte.comma] : Bytes).length = if first then 0 else 1 := by
      cases first <;> rfl
    simp only [Layouts.bytes, List.append_assoc] at h
    have hlabel := drop_of_append (drop_of_append h)
    have hmore := drop_of_append (drop_of_append (drop_of_append hlabel))
    rw [hcomma] at hlabel hmore
    have hkey : doc.drop (offset + (if first then 0 else 1) + before.bytes.length) =
        (Key.token label).bytes ++ ((Key.before label).bytes ++ (Byte.colon :: ((Key.after label).bytes ++
          (value.bytes ++ (after.bytes ++ (more.bytes false ++ r)))))) := by
      rw [hlabel]
      show (Key.token label).bytes ++ (Key.before label).bytes ++
        Byte.colon :: (Key.after label).bytes ++ _ = _
      simp only [List.append_assoc, List.cons_append]
    exact .cons (Token.isNamed hkey name _) (more.isNamed_spots name rfl false _ r hmore)

end JsonSpan

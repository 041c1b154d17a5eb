import JsonSpan.Proofs.Grammar.Acceptance
import JsonSpan.Proofs.Query.Validation
import JsonSpan.Query.Answer

/-!
# Rendered matches

More than one match is rendered as an array of the bytes of the matches. Each of them is skipped as a
whole wherever it stands, also if it is malformed inside, so the array is complete, its elements are
the matches, and asking for all its elements gives it back (`Path.query_renderMatches`).
-/

namespace JsonSpan

open Dialect

/-- An element of an array without any blanks. -/
def bareItem (value : Bytes) : Item .array :=
  ⟨⟨[], nofun⟩, (), value, ⟨[], nofun⟩⟩

/-- An array of some values without any blanks. -/
def bareArray (values : List Bytes) : Bytes :=
  containerBytes .array ⟨[], nofun⟩ (values.map bareItem)

theorem itemsBytes_bareItem (values : List Bytes) :
    itemsBytes false (values.map bareItem) = values.flatMap (Byte.comma :: ·) := by
  induction values with
  | nil => rfl
  | cons value more ih => simpa [itemsBytes, bareItem, labelBytes] using ih

/-- The bytes of several matches are an array, and depend only on the bytes of each. -/
theorem renderMatches_eq {doc : Bytes} {spans : List Span} (h : 2 ≤ spans.length) :
    renderMatches doc spans = bareArray (spans.map (·.slice doc)) := by
  match spans with
  | first :: second :: more =>
    rw [renderMatches_several, bareArray, List.map_cons, List.map_cons, containerBytes, itemsBytes,
      itemsBytes_bareItem]
    simp [List.flatMap_map, bareItem, labelBytes, Container.opener, Container.closer]

theorem isSkipped_of_select {p : Path} {doc : Bytes} {spans : List Span}
    (h : p.select doc = .ok spans) : ∀ value ∈ spans.map (·.slice doc), IsSkipped value := by
  obtain ⟨root, hroot, hbelow⟩ := below_of_select h
  intro value hvalue
  obtain ⟨s, hs, rfl⟩ := List.mem_map.1 hvalue
  exact isSkipped_of_isExtent ((hbelow s hs).extent (isExtent_of_locateRoot hroot).1).1.slice

/-- Matches have bytes, so only without matches is nothing rendered. -/
theorem renderMatches_eq_nil_iff {p : Path} {doc : Bytes} {spans : List Span}
    (h : p.select doc = .ok spans) : renderMatches doc spans = [] ↔ spans = [] := by
  obtain ⟨root, hroot, hbelow⟩ := below_of_select h
  match spans with
  | [] => exact iff_of_true rfl rfl
  | [s] =>
    have hbounds := ((hbelow s (by simp)).extent (isExtent_of_locateRoot hroot).1).1.bounds
    have hslice : s.slice doc ≠ [] := by
      rw [Span.slice, ← List.length_pos_iff, List.length_drop, List.length_take]
      omega
    simpa [renderMatches, matchPieces] using hslice
  | s :: t :: more => simp [renderMatches, matchPieces]

section

variable {values : List Bytes} (h : ∀ value ∈ values, IsSkipped value)

include h

theorem isSkipped_bareItem : ∀ item ∈ values.map bareItem, IsSkipped item.value := by
  intro item hitem
  obtain ⟨value, hvalue, rfl⟩ := List.mem_map.1 hitem
  exact h value hvalue

theorem locateRoot_bareArray : locateRoot (bareArray values) = .ok (.whole (bareArray values)) := by
  refine locateRoot_whole (Span.isExtent_iff.2 ?_)
  have hskip := skipValue_container ⟨[], nofun⟩ (isSkipped_bareItem h) 0 []
  rw [List.append_nil, Nat.zero_add] at hskip
  rw [Span.whole, Place.ofOffset, Place.ofOffset, List.drop_length]
  exact hskip

theorem listing_bareArray : ∃ children, Listing.ofOffset .array (bareArray values) 0 = ⟨children, none⟩ ∧
    children.map (·.value.slice (bareArray values)) = values := by
  have hdoc : (bareArray values).drop 0 = bareArray values ++ [] := (List.append_nil _).symm
  obtain ⟨children, hlisting, hslices⟩ := listing_items (isSkipped_bareItem h) hdoc
  refine ⟨children, hlisting, hslices.trans ?_⟩
  rw [List.map_map]
  exact List.map_id values

theorem select_bareArray : ∃ spans, Path.select [.wildcard] (bareArray values) = .ok spans ∧
    spans.map (·.slice (bareArray values)) = values := by
  obtain ⟨children, hlisting, hslices⟩ := listing_bareArray h
  refine ⟨children.map (·.value), ?_, ?_⟩
  · let site : Site := ⟨bareArray values, .whole (bareArray values)⟩
    have hkind : (Place.ofOffset (bareArray values) 0).kind = .ok .array := rfl
    have hchildren : childValues (bareArray values) (.whole (bareArray values)) =
        .ok (children.map (·.value)) := by
      rw [childValues_container hkind rfl, Span.whole, hlisting]
      rfl
    rw [Path.select_eq, locateRoot_bareArray h]
    show (Segment.stepAll site [site.root] [.wildcard]).result = _
    rw [Segment.result_stepAll_cons, gather_singleton, Segment.result_step_wildcard, hchildren]
    exact Segment.result_stepAll_nil site (children.map (·.value))
  · rw [List.map_map]
    exact hslices

end

/-- Several matches are rendered as one complete array, the elements of which are the bytes of the
matches in their order; a query for all elements gives the same bytes again. -/
theorem Path.query_renderMatches {p : Path} {doc : Bytes} {spans : List Span}
    (h : p.select doc = .ok spans) (hlen : 2 ≤ spans.length) :
    locateRoot (renderMatches doc spans) = .ok (.whole (renderMatches doc spans)) ∧
    (Place.ofOffset (renderMatches doc spans) 0).kind = .ok .array ∧
    (∃ children, Listing.ofOffset .array (renderMatches doc spans) 0 = ⟨children, none⟩ ∧
      children.map (·.value.slice (renderMatches doc spans)) = spans.map (·.slice doc)) ∧
    query (renderMatches doc spans) "$[*]" = .ok (renderMatches doc spans) := by
  have hskipped := isSkipped_of_select h
  rw [renderMatches_eq hlen]
  refine ⟨locateRoot_bareArray hskipped, rfl, listing_bareArray hskipped, ?_⟩
  obtain ⟨elements, hselect, hslices⟩ := select_bareArray hskipped
  have hblank : Spelling.Blank [] := nofun
  have hparse : Path.parse "$[*]" = .ok [.wildcard] :=
    parse_of_pathText (.mk (.cons (.bracket (.mk hblank .wildcard hblank)) .nil))
  have hcount : elements.length = spans.length := by
    have hlength := congrArg List.length hslices
    rwa [List.length_map, List.length_map] at hlength
  rw [query, hparse]
  show Path.answer [.wildcard] _ = _
  rw [Path.answer, hselect]
  show Except.ok (renderMatches _ elements) = _
  rw [renderMatches_eq (by omega), hslices]

/-- The matches may be malformed inside. -/
theorem Path.query_renderMatches_malformed :
    Path.select [.wildcard] (utf8 " [[1 2],\x7b,\x7d ]") = .ok [⟨2, 7⟩, ⟨8, 11⟩] ∧
    renderMatches (utf8 " [[1 2],\x7b,\x7d ]") [⟨2, 7⟩, ⟨8, 11⟩] = utf8 "[[1 2],\x7b,\x7d]" ∧
    query (utf8 "[[1 2],\x7b,\x7d]") "$[*]" = .ok (utf8 "[[1 2],\x7b,\x7d]") := by
  have hselect : Path.select [.wildcard] (utf8 " [[1 2],\x7b,\x7d ]") = .ok [⟨2, 7⟩, ⟨8, 11⟩] := by
    decide +kernel
  have hrender : renderMatches (utf8 " [[1 2],\x7b,\x7d ]") [⟨2, 7⟩, ⟨8, 11⟩] =
      utf8 "[[1 2],\x7b,\x7d]" := by
    decide +kernel
  refine ⟨hselect, hrender, ?_⟩
  rw [← hrender]
  exact (Path.query_renderMatches hselect (by decide)).2.2.2

end JsonSpan

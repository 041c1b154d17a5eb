import JsonSpan.Proofs.Query.Validation
import JsonSpan.Proofs.Scan.Iteration
import JsonSpan.Proofs.Slice.Progression

/-!
# The elements of an array

There are several ways to the elements of an array. An index that is not negative asks for them one
after the other and stops at its own; a negative index, a slice and the wildcard ask for all of them,
and fail if one cannot be read. Where all elements can be read, the ways agree
(`Segment.elements_agree`): an index, the index from the end and the slice of one element lead to the
same element, the slice of everything and the wildcard to all of them, and slices that meet put
together what the slice over both takes.
-/

namespace JsonSpan

/-! ### Items by position -/

section

variable {α : Type} (as : List α)

theorem filterMap_getElem?_range' (a n : Nat) :
    (List.range' a n).filterMap (as[·]?) = (as.drop a).take n := by
  induction n generalizing a with
  | zero => rfl
  | succ n ih =>
    rw [List.range'_succ, List.filterMap_cons, ih]
    by_cases ha : a < as.length
    · rw [List.getElem?_eq_getElem ha, List.drop_eq_getElem_cons ha, List.take_succ_cons]
    · have hpast : as.length ≤ a := Nat.le_of_not_lt ha
      rw [List.getElem?_eq_none hpast, List.drop_eq_nil_of_le hpast,
        List.drop_eq_nil_of_le (Nat.le_succ_of_le hpast), List.take_nil, List.take_nil]

theorem filterMap_getElem?_between (a b : Nat) :
    (List.range' (min a as.length) (min b as.length - min a as.length)).filterMap (as[·]?) =
      (as.take b).drop a := by
  rw [filterMap_getElem?_range', List.drop_take]
  rcases Nat.le_total as.length a with hpast | hwithin
  · rw [Nat.min_eq_right hpast, List.drop_length, List.drop_eq_nil_of_le hpast, List.take_nil,
      List.take_nil]
  rw [Nat.min_eq_left hwithin]
  rcases Nat.le_total b as.length with hb | hb
  · rw [Nat.min_eq_left hb]
  · have hall : (as.drop a).length ≤ as.length - a := Nat.le_of_eq List.length_drop
    rw [Nat.min_eq_right hb, List.take_of_length_le hall,
      List.take_of_length_le (Nat.le_trans hall (Nat.sub_le_sub_right hb a))]

theorem filterMap_getElem?_range : (List.range as.length).filterMap (as[·]?) = as := by
  rw [List.range_eq_range', filterMap_getElem?_range', List.drop_zero, List.take_length]

theorem drop_take_append {a b c : Nat} (hab : a ≤ b) (hbc : b ≤ c) :
    (as.take b).drop a ++ (as.take c).drop b = (as.take c).drop a := by
  have hparts : c - a = (b - a) + (c - b) := by omega
  have hrest : as.drop b = (as.drop a).drop (b - a) := by
    rw [List.drop_drop, Nat.add_sub_of_le hab]
  rw [List.drop_take, List.drop_take, List.drop_take, hparts, List.take_add, hrest]

theorem drop_take_succ {n : Nat} (hn : n < as.length) : (as.take (n + 1)).drop n = [as[n]] := by
  rw [List.drop_take, Nat.add_sub_cancel_left, List.drop_eq_getElem_cons hn, List.take_succ_cons,
    List.take_zero]

end

theorem exists_toInt_eq {i : Int64} (h : 0 ≤ i) : ∃ n : Nat, i.toInt = n :=
  Int.eq_ofNat_of_zero_le (Int64.le_iff_toInt_le.1 h)

/-! ### Ways to the elements -/

namespace Site

variable {site : Site} {s : Span} {elements : List Child} {fault? : Option Fault}

theorem index_array (hkind : site.kind s = .ok .array) (i : Int) :
    site.index i s =
      if 0 ≤ i then (Listing.ofOffset .array site.doc s.start).get? i.toNat >>= fun found =>
        .ok found.toList
      else (Listing.ofOffset .array site.doc s.start).values >>= fun values =>
        if 0 ≤ (values.length : Int) + i then
          .ok (values[((values.length : Int) + i).toNat]?).toList
        else .ok [] := by
  rw [index, hkind]
  rfl

theorem slice_array (hkind : site.kind s = .ok .array) (start stop step : Option Int) :
    site.slice start stop step s =
      (Listing.ofOffset .array site.doc s.start).values >>= fun values =>
        .ok ((Slice.indices values.length start stop step).filterMap (values[·]?)) := by
  rw [slice, hkind]
  rfl

theorem index_eq_ok (hkind : site.kind s = .ok .array)
    (hlisting : Listing.ofOffset .array site.doc s.start = ⟨elements, fault?⟩) {n : Nat} {v : Span}
    (hv : (elements.map (·.value))[n]? = some v) : site.index n s = .ok [v] := by
  obtain ⟨element, helement, rfl⟩ := Option.map_eq_some_iff.1 (List.getElem?_map.symm.trans hv)
  rw [index_array hkind, if_pos (Int.natCast_nonneg n), hlisting, Listing.get?, Int.toNat_natCast,
    helement]
  rfl

theorem index_past (hkind : site.kind s = .ok .array)
    (hlisting : Listing.ofOffset .array site.doc s.start = ⟨elements, fault?⟩) {n : Nat}
    (hn : elements.length ≤ n) : site.index n s = fault?.elim (.ok []) .error := by
  rw [index_array hkind, if_pos (Int.natCast_nonneg n), hlisting, Listing.get?, Int.toNat_natCast,
    List.getElem?_eq_none hn]
  cases fault? <;> rfl

theorem index_eq_error {fault : Fault} (hkind : site.kind s = .ok .array)
    (hlisting : Listing.ofOffset .array site.doc s.start = ⟨elements, some fault⟩) {i : Int}
    (hi : i < 0) : site.index i s = .error fault := by
  rw [index_array hkind, if_neg (Int.not_le.2 hi), hlisting]
  rfl

section

variable (hkind : site.kind s = .ok .array)
  (hlisting : Listing.ofOffset .array site.doc s.start = ⟨elements, none⟩)
include hkind hlisting

theorem index_from_end {i : Int} (hi : i < 0) {n : Nat} (hn : (n : Int) = elements.length + i)
    {v : Span} (hv : (elements.map (·.value))[n]? = some v) : site.index i s = .ok [v] := by
  have hposition : ((elements.map (·.value)).length : Int) + i = n := by
    rw [List.length_map, hn]
  rw [index_array hkind, if_neg (Int.not_le.2 hi), hlisting]
  show (if 0 ≤ ((elements.map (·.value)).length : Int) + i then _ else _) = _
  rw [hposition, if_pos (Int.natCast_nonneg n), Int.toNat_natCast, hv]
  rfl

theorem index_before {i : Int} (hi : (elements.length : Int) + i < 0) :
    site.index i s = .ok [] := by
  rw [index_array hkind, if_neg (by omega), hlisting]
  show (if 0 ≤ ((elements.map (·.value)).length : Int) + i then _ else _) = _
  rw [List.length_map, if_neg (by omega)]

theorem slice_between (a b : Nat) :
    site.slice (some a) (some b) none s = .ok (((elements.map (·.value)).take b).drop a) := by
  rw [slice_array hkind, hlisting, ← filterMap_getElem?_between, ← Slice.indices_between]
  rfl

theorem slice_all : site.slice none none none s = .ok (elements.map (·.value)) := by
  rw [slice_array hkind, hlisting]
  show Except.ok ((Slice.indices (elements.map (·.value)).length none none none).filterMap _) = _
  rw [Slice.indices_all, filterMap_getElem?_range]

theorem slice_reverse :
    site.slice none none (some (-1)) s = .ok (elements.map (·.value)).reverse := by
  rw [slice_array hkind, hlisting]
  show Except.ok ((Slice.indices (elements.map (·.value)).length none none _).filterMap _) = _
  rw [Slice.indices_reverse, List.filterMap_reverse, filterMap_getElem?_range]

theorem childValues_elements : childValues site.doc s = .ok (elements.map (·.value)) := by
  rw [childValues_container hkind rfl, hlisting]
  rfl

end

end Site

/-- Ways to the elements of an array that gives `elements` one by one and then ends, or fails. An
index that is not negative leads to its element whatever comes later, and past the elements to
nothing, or to the fault; one that is negative fails if the elements do, and else counts from the
end. Where all elements can be read, an index, the index from the end and the slice of one element
lead to the same one, the slice of everything and the wildcard to all, a slice that steps back to all
in reverse, and two slices that meet put together what the slice over both takes. -/
theorem Segment.elements_agree {site : Site} {s : Span} {elements : List Child}
    {fault? : Option Fault} (hkind : site.kind s = .ok .array)
    (hgives : (Children.ofOffset .array site.doc s.start).Gives elements fault?) :
    let values := elements.map (·.value)
    let outcome (segment : Segment) := (segment.step site s).result
    (∀ (i : Int64) (n : Nat), i.toInt = n →
      (∀ v, values[n]? = some v → outcome (.index i) = .ok [v]) ∧
      (values.length ≤ n → outcome (.index i) = fault?.elim (.ok []) .error)) ∧
    (∀ i : Int64, i.toInt < 0 →
      (∀ fault, fault? = some fault → outcome (.index i) = .error fault) ∧
      (fault? = none →
        (∀ n : Nat, (n : Int) = values.length + i.toInt →
          ∃ v, values[n]? = some v ∧ outcome (.index i) = .ok [v]) ∧
        (values.length + i.toInt < 0 → outcome (.index i) = .ok []))) ∧
    (fault? = none →
      (∀ (i j k : Int64) (n : Nat), i.toInt = n → j.toInt = n - values.length →
        k.toInt = n + 1 → n < values.length →
        ∃ v, values[n]? = some v ∧ outcome (.index i) = .ok [v] ∧ outcome (.index j) = .ok [v] ∧
          outcome (.slice (some i) (some k) none) = .ok [v]) ∧
      (∀ k : Int64, k.toInt = values.length →
        outcome (.slice (some 0) (some k) none) = .ok values) ∧
      outcome (.slice none none none) = .ok values ∧
      outcome .wildcard = .ok values ∧
      outcome (.slice none none (some (-1))) = .ok values.reverse ∧
      ∀ a b c : Int64, 0 ≤ a → a ≤ b → b ≤ c → ∃ front back,
        outcome (.slice (some a) (some b) none) = .ok front ∧
        outcome (.slice (some b) (some c) none) = .ok back ∧
        outcome (.slice (some a) (some c) none) = .ok (front ++ back)) := by
  intro values outcome
  have hlisting := Children.gives_iff.1 hgives
  have hlength : values.length = elements.length := List.length_map _
  have hindex : ∀ (i : Int64) (n : Nat), i.toInt = n → outcome (.index i) = site.index n s := by
    intro i n hi
    rw [← hi]
    rfl
  refine ⟨?_, ?_, ?_⟩
  · intro i n hi
    rw [hindex i n hi, hlength]
    exact ⟨fun v hv => Site.index_eq_ok hkind hlisting hv, Site.index_past hkind hlisting⟩
  · intro i hi
    refine ⟨?_, ?_⟩
    · rintro fault rfl
      exact Site.index_eq_error hkind hlisting hi
    · rintro rfl
      rw [hlength]
      refine ⟨fun n hn => ?_, Site.index_before hkind hlisting⟩
      have hv : values[n]? = some values[n] := List.getElem?_eq_getElem (by omega)
      exact ⟨_, hv, Site.index_from_end hkind hlisting hi hn hv⟩
  rintro rfl
  have hslice : ∀ (a b : Int64) (m n : Nat), a.toInt = m → b.toInt = n →
      outcome (.slice (some a) (some b) none) = .ok ((values.take n).drop m) := by
    intro a b m n ha hb
    rw [← Site.slice_between hkind hlisting m n, ← ha, ← hb]
    rfl
  refine ⟨?_, ?_, Site.slice_all hkind hlisting, Site.childValues_elements hkind hlisting,
    Site.slice_reverse hkind hlisting, ?_⟩
  · intro i j k n hi hj hk hn
    have hv : values[n]? = some values[n] := List.getElem?_eq_getElem hn
    refine ⟨values[n], hv, ?_, ?_, ?_⟩
    · rw [hindex i n hi, Site.index_eq_ok hkind hlisting hv]
    · exact Site.index_from_end hkind hlisting (by omega) (by omega) hv
    · rw [hslice i k n (n + 1) hi hk, drop_take_succ values hn]
  · intro k hk
    rw [hslice 0 k 0 values.length rfl hk, List.drop_zero, List.take_length]
  · intro a b c ha hab hbc
    have hb := Int64.le_trans ha hab
    obtain ⟨l, hl⟩ := exists_toInt_eq ha
    obtain ⟨m, hm⟩ := exists_toInt_eq hb
    obtain ⟨n, hn⟩ := exists_toInt_eq (Int64.le_trans hb hbc)
    rw [Int64.le_iff_toInt_le] at hab hbc
    refine ⟨_, _, hslice a b l m hl hm, hslice b c m n hm hn, ?_⟩
    rw [hslice a c l n hl hn, drop_take_append values (by omega) (by omega)]

/-- In an array with a fault after two elements the first one is found, though not from the end; in
the array without the fault it is found both ways. -/
theorem Segment.elements_agree_cut :
    let cut : Site := ⟨utf8 "[10,20,\x7d]", ⟨0, 9⟩⟩
    let whole : Site := ⟨utf8 "[10,20]", ⟨0, 7⟩⟩
    let elements : List Child := [⟨none, ⟨1, 3⟩⟩, ⟨none, ⟨4, 6⟩⟩]
    let fault : Fault := .badByte 7 Byte.closeBrace
    (cut.kind cut.root = .ok .array ∧
      (Children.ofOffset .array cut.doc 0).Gives elements (some fault) ∧
      ((Segment.index 0).step cut cut.root).result = .ok [⟨1, 3⟩] ∧
      ((Segment.index (-2)).step cut cut.root).result = .error fault) ∧
    whole.kind whole.root = .ok .array ∧
      (Children.ofOffset .array whole.doc 0).Gives elements none ∧
      ((Segment.index 0).step whole whole.root).result = .ok [⟨1, 3⟩] ∧
      ((Segment.index (-2)).step whole whole.root).result = .ok [⟨1, 3⟩] := by
  intro cut whole elements fault
  have hcut : cut.kind cut.root = .ok .array := by decide +kernel
  have hcutGives : (Children.ofOffset .array cut.doc 0).Gives elements (some fault) :=
    Children.gives_iff.2 (by decide +kernel)
  have hwhole : whole.kind whole.root = .ok .array := by decide +kernel
  have hwholeGives : (Children.ofOffset .array whole.doc 0).Gives elements none :=
    Children.gives_iff.2 (by decide +kernel)
  obtain ⟨hfirst, hlast, -⟩ := elements_agree hcut hcutGives
  obtain ⟨-, -, hclean⟩ := elements_agree hwhole hwholeGives
  obtain ⟨v, hv, hindex, hfromEnd, -⟩ :=
    (hclean rfl).1 0 (-2) 1 0 (by decide) (by decide) (by decide) (by decide)
  obtain rfl : ⟨1, 3⟩ = v := Option.some.inj hv
  exact ⟨⟨hcut, hcutGives, (hfirst 0 0 (by decide)).1 _ rfl, (hlast (-2) (by decide)).1 _ rfl⟩,
    hwhole, hwholeGives, hindex, hfromEnd⟩

end JsonSpan

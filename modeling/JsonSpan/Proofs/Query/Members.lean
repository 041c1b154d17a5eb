import JsonSpan.Proofs.Printing.Reparsing
import JsonSpan.Proofs.Scan.Items
import JsonSpan.Proofs.Scan.Iteration
import JsonSpan.Query.Answer

/-!
# The member of a name

A name without backslashes, put into a query as the canonical text of its segment, asks for the first
member whose key is spelled with just the bytes of the name (`query_member`). The members up to that
one are read and no others: what follows in the object may be malformed, or repeat the name, and what
the values before it hold is skipped, not looked at. So the answer is read off the members as they are
written in the object, whatever stands inside of their values.
-/

namespace JsonSpan

open Dialect

/-! ### Keys as they are written -/

/-- The bytes between the quotes of the key of a member. -/
def Child.rawKey (doc : Bytes) (child : Child) : Option Bytes :=
  child.key.map fun key => Span.slice ⟨key.start + 1, key.stop - 1⟩ doc

/-- The bytes between the quotes of a key, as it is written. -/
def Dialect.Key.raw (key : Key) : Bytes :=
  key.token.tail.dropLast

theorem ne_utf8_of_backslash {name : String} (hname : '\\' ∉ name.toList) {raw : Bytes}
    (hraw : Byte.backslash ∈ raw) : raw ≠ utf8 name := by
  rintro rfl
  exact hname (mem_of_mem_utf8 (by decide) hraw)

theorem Child.isNamed_iff {name : String} (hname : '\\' ∉ name.toList) {doc : Bytes}
    {child : Child} : child.isNamed doc name ↔ child.rawKey doc = some (utf8 name) := by
  cases hkey : child.key with
  | none => simp [isNamed, rawKey, hkey]
  | some key =>
    simp only [isNamed, rawKey, hkey, keyMatches, Bool.and_eq_true, Bool.not_eq_true',
      List.contains_eq_mem, decide_eq_false_iff_not, beq_iff_eq, Option.map_some, Option.some_inj]
    exact and_iff_right_of_imp fun hraw hmem => ne_utf8_of_backslash hname hmem hraw

theorem Child.not_isNamed {name : String} (hname : '\\' ∉ name.toList) {doc : Bytes}
    {children : List Child} (h : ∀ m ∈ children, m.rawKey doc ≠ some (utf8 name)) :
    ∀ m ∈ children, ¬ m.isNamed doc name :=
  fun m hm => mt (Child.isNamed_iff hname).1 (h m hm)

/-! ### The first child that passes a test -/

namespace Listing

variable {test : Child → Bool} {before after : List Child} {fault? : Option Fault}

theorem find?_first {child : Child} (hbefore : ∀ m ∈ before, ¬ test m) (hchild : test child) :
    find? ⟨before ++ child :: after, fault?⟩ test = .ok (some child.value) := by
  rw [find?, List.find?_append, List.find?_eq_none.2 hbefore, List.find?_cons_of_pos hchild]
  rfl

theorem find?_none (h : ∀ m ∈ before, ¬ test m) :
    find? ⟨before, fault?⟩ test = fault?.elim (.ok none) .error := by
  rw [find?, List.find?_eq_none.2 h]
  cases fault? <;> rfl

end Listing

/-! ### The query for a name -/

theorem Path.parse_field (name : String) :
    Path.parse ("$" ++ (Segment.field name).text) = .ok [.field name] := by
  have htext : "$" ++ (Segment.field name).text = Path.text [.field name] := by
    rw [Segment.text, Path.text, Segment.charsAll_cons, Segment.charsAll, List.append_nil]
    exact String.ofList_append.symm
  rw [htext]
  exact Path.parse_text_of_isReprintable rfl rfl

theorem query_field {doc : Bytes} {root : Span} (hroot : locateRoot doc = .ok root)
    (hobject : (Place.ofOffset doc root.start).kind = .ok .object) (name : String) :
    query doc ("$" ++ (Segment.field name).text) =
      match (Listing.ofOffset .object doc root.start).find? (Child.isNamed doc name) with
      | .ok found => .ok (renderMatches doc found.toList)
      | .error fault => .error (.document fault) := by
  have hselect : Path.select [.field name] doc =
      (Listing.ofOffset .object doc root.start).find? (Child.isNamed doc name) >>= fun found =>
        .ok found.toList := by
    rw [Path.select_eq, hroot]
    show (Segment.stepAll ⟨doc, root⟩ [root] [.field name]).result = _
    rw [Segment.result_stepAll_cons, gather_singleton, Segment.result_step_field, Site.field,
      Site.kind, hobject]
    show (findMember doc root.start name >>= fun found => .ok found.toList) >>= Except.ok = _
    rw [findMember]
    cases (Listing.ofOffset .object doc root.start).find? (Child.isNamed doc name) <;> rfl
  rw [query, Path.parse_field]
  show Path.answer [.field name] doc = _
  rw [Path.answer, hselect]
  cases (Listing.ofOffset .object doc root.start).find? (Child.isNamed doc name) <;> rfl

/-! ### Members as they are written -/

namespace Dialect

/-- The children that are listed are the items at the front, and then what is listed behind them. -/
theorem exists_listChildren_append {c : Container} {items : List (Item c)}
    (h : ∀ item ∈ items, IsSkipped item.value) (first : Bool) (blanks : Blanks) (offset : Nat)
    {r : Bytes} (hr : Numeral.Ends r) :
    ∃ later fault?, (Place.mk offset (blanks.bytes ++ (itemsBytes first items ++ r))).listChildren
      c first = ⟨childrenAt first (offset + blanks.bytes.length) items ++ later, fault?⟩ := by
  induction items generalizing first blanks offset with
  | nil => exact ⟨_, _, rfl⟩
  | cons item more ih =>
    obtain ⟨hitem, hmore⟩ := List.forall_mem_cons.1 h
    obtain ⟨child, ⟨offset', rest⟩, hnext, rfl, hchildren⟩ :=
      nextChild_item hitem more first blanks offset hr
    obtain ⟨later, fault?, hlater⟩ := ih hmore false item.after offset'
    exact ⟨later, fault?, by rw [Place.listChildren_child hnext, hlater, hchildren]; rfl⟩

theorem Key.slice_raw {key : Key} {doc r : Bytes} {offset : Nat}
    (h : doc.drop offset = labelBytes .object key ++ r) :
    Span.slice ⟨offset + 1, offset + key.token.length - 1⟩ doc = key.raw := by
  obtain ⟨token, @⟨body, hbody⟩, before, after⟩ := key
  have hdrop : doc.drop (offset + 1) =
      body ++ (Byte.quote :: (before.bytes ++ Byte.colon :: (after.bytes ++ r))) := by
    rw [← List.drop_drop, h]
    simp [labelBytes]
  have hstop : offset + (Byte.quote :: body ++ [Byte.quote]).length - 1 =
      offset + 1 + body.length := by
    rw [List.length_append, List.length_cons, List.length_singleton]
    omega
  rw [hstop, slice_of_append hdrop]
  exact List.dropLast_concat.symm

theorem keys_childrenAt {items : List (Item .object)} {doc r : Bytes} (first : Bool) {offset : Nat}
    (h : doc.drop offset = itemsBytes first items ++ r) :
    (childrenAt first offset items).map (·.rawKey doc) =
      items.map fun item => some (Key.raw item.label) := by
  induction items generalizing first offset with
  | nil => rfl
  | cons item more ih =>
    simp only [itemsBytes, List.append_assoc] at h
    have hcomma : (if first then [] else [Byte.comma] : Bytes).length = if first then 0 else 1 := by
      cases first <;> rfl
    have hlabel := drop_of_append (drop_of_append h)
    have hafter := drop_of_append (drop_of_append (drop_of_append hlabel))
    rw [hcomma] at hlabel hafter
    rw [childrenAt, List.map_cons, List.map_cons, ih false hafter]
    exact congrArg (some · :: _) (Key.slice_raw hlabel)

theorem members_childrenAt {items : List (Item .object)} {doc r : Bytes} (first : Bool)
    {offset : Nat} (h : doc.drop offset = itemsBytes first items ++ r) :
    (childrenAt first offset items).map (fun child => (child.rawKey doc, child.value.slice doc)) =
      items.map fun item => (some (Key.raw item.label), item.value) := by
  rw [← List.zip_map', ← List.zip_map', keys_childrenAt first h, slice_childrenAt first h]

end Dialect

/-! ### The answer -/

section

variable {doc : Bytes} {root : Span} {name : String} (hroot : locateRoot doc = .ok root)
  (hobject : (Place.ofOffset doc root.start).kind = .ok .object) (hname : '\\' ∉ name.toList)
include hroot hobject hname

theorem query_found {before after : List Child} {member : Child} {fault? : Option Fault}
    (hlisting : Listing.ofOffset .object doc root.start = ⟨before ++ member :: after, fault?⟩)
    (hmember : member.rawKey doc = some (utf8 name))
    (hbefore : ∀ m ∈ before, m.rawKey doc ≠ some (utf8 name)) :
    query doc ("$" ++ (Segment.field name).text) = .ok (member.value.slice doc) := by
  rw [query_field hroot hobject, hlisting, Listing.find?_first (Child.not_isNamed hname hbefore)
    ((Child.isNamed_iff hname).2 hmember)]
  exact congrArg Except.ok (List.append_nil _)

theorem query_missing {members : List Child} {fault? : Option Fault}
    (hlisting : Listing.ofOffset .object doc root.start = ⟨members, fault?⟩)
    (hmembers : ∀ m ∈ members, m.rawKey doc ≠ some (utf8 name)) :
    query doc ("$" ++ (Segment.field name).text) =
      fault?.elim (.ok []) fun fault => .error (.document fault) := by
  rw [query_field hroot hobject, hlisting, Listing.find?_none (Child.not_isNamed hname hmembers)]
  cases fault? <;> rfl

variable {lead : Blanks} {items : List (Item .object)} {rest : Bytes}
  (hdoc : doc.drop root.start = Byte.openBrace :: (lead.bytes ++ (itemsBytes true items ++ rest)))
  (hskipped : ∀ item ∈ items, IsSkipped item.value)
include hdoc hskipped

/-- A member at the front of an object is found by its key as it is written. -/
theorem query_item (hends : Numeral.Ends rest) {before after : List (Item .object)}
    {item : Item .object} (hitems : items = before ++ item :: after)
    (hitem : Key.raw item.label = utf8 name)
    (hbefore : ∀ m ∈ before, Key.raw m.label ≠ utf8 name) :
    query doc ("$" ++ (Segment.field name).text) = .ok item.value := by
  have hinside : doc.drop (root.start + 1) = lead.bytes ++ (itemsBytes true items ++ rest) := by
    rw [← List.drop_drop, hdoc]
    rfl
  obtain ⟨later, fault?, hlisted⟩ :=
    exists_listChildren_append hskipped true lead (root.start + 1) hends
  have hmembers := members_childrenAt true (drop_of_append hinside)
  rw [hitems, List.map_append, List.map_cons] at hmembers
  obtain ⟨front, back, hchildren, hfront, hback⟩ := List.map_eq_append_iff.1 hmembers
  obtain ⟨member, more, rfl, hmember, -⟩ := List.map_eq_cons_iff.1 hback
  obtain ⟨hkey, hvalue⟩ := Prod.mk.inj hmember
  rw [← hitems] at hchildren
  rw [hchildren, List.append_assoc, List.cons_append] at hlisted
  have hlisting : Listing.ofOffset .object doc root.start =
      ⟨front ++ member :: (more ++ later), fault?⟩ := by
    rw [Listing.ofOffset, Place.ofOffset, hinside, hlisted]
  rw [← hvalue]
  refine query_found hroot hobject hname hlisting (hkey.trans (congrArg some hitem)) ?_
  intro m hm hraw
  have hpair := List.mem_map_of_mem (f := fun c => (Child.rawKey doc c, c.value.slice doc)) hm
  rw [hfront] at hpair
  obtain ⟨i, hi, heq⟩ := List.mem_map.1 hpair
  exact hbefore i hi (Option.some.inj ((Prod.mk.inj heq).1.trans hraw))

theorem query_no_item {r : Bytes} (hrest : rest = Byte.closeBrace :: r)
    (hitems : ∀ m ∈ items, Key.raw m.label ≠ utf8 name) :
    query doc ("$" ++ (Segment.field name).text) = .ok [] := by
  have hinside : doc.drop (root.start + 1) = lead.bytes ++ (itemsBytes true items ++ rest) := by
    rw [← List.drop_drop, hdoc]
    rfl
  have hkeys := keys_childrenAt true (drop_of_append hinside)
  have hlisting : Listing.ofOffset .object doc root.start =
      ⟨childrenAt true (root.start + 1 + lead.bytes.length) items, none⟩ := by
    rw [Listing.ofOffset, Place.ofOffset, hinside, hrest]
    exact listChildren_items hskipped true lead (root.start + 1) r
  refine query_missing hroot hobject hname hlisting ?_
  intro m hm hraw
  have hkey := List.mem_map_of_mem (f := Child.rawKey doc) hm
  rw [hkeys] at hkey
  obtain ⟨i, hi, heq⟩ := List.mem_map.1 hkey
  exact hitems i hi (Option.some.inj (heq.trans hraw))

end

/-- The answer to the query for a name, where the root of the document is an object and its members
are read one by one up to its end or to a fault. The first member whose key is spelled as the name is
the answer, whatever comes after it; without one there is no match, or the fault is the answer. A key
that is spelled with an escape is never spelled as the name. And of members as they are written, only
the keys decide: their values can hold anything that is skipped as a value, and what follows the
members can be anything that does not go on with a number. -/
theorem query_member {doc : Bytes} {root : Span} {members : List Child} {fault? : Option Fault}
    {name : String} (hroot : locateRoot doc = .ok root)
    (hobject : (Place.ofOffset doc root.start).kind = .ok .object)
    (hgives : (Children.ofOffset .object doc root.start).Gives members fault?)
    (hname : '\\' ∉ name.toList) :
    let answer := query doc ("$" ++ (Segment.field name).text)
    (∀ before member after, members = before ++ member :: after →
      member.rawKey doc = some (utf8 name) → (∀ m ∈ before, m.rawKey doc ≠ some (utf8 name)) →
      answer = .ok (member.value.slice doc)) ∧
    ((∀ m ∈ members, m.rawKey doc ≠ some (utf8 name)) →
      answer = fault?.elim (.ok []) fun fault => .error (.document fault)) ∧
    (∀ m ∈ members, ∀ raw, m.rawKey doc = some raw → Byte.backslash ∈ raw → raw ≠ utf8 name) ∧
    ∀ (lead : Blanks) (items : List (Item .object)) (rest : Bytes),
      doc.drop root.start = Byte.openBrace :: (lead.bytes ++ (itemsBytes true items ++ rest)) →
      (∀ item ∈ items, IsSkipped item.value) →
      (∀ before item after, items = before ++ item :: after → Numeral.Ends rest →
        Key.raw item.label = utf8 name → (∀ m ∈ before, Key.raw m.label ≠ utf8 name) →
        answer = .ok item.value) ∧
      ∀ r, rest = Byte.closeBrace :: r → (∀ m ∈ items, Key.raw m.label ≠ utf8 name) →
        answer = .ok [] := by
  intro answer
  have hlisting := Children.gives_iff.1 hgives
  refine ⟨?_, query_missing hroot hobject hname hlisting, ?_, ?_⟩
  · rintro before member after rfl
    exact query_found hroot hobject hname hlisting
  · exact fun _ _ _ _ hraw => ne_utf8_of_backslash hname hraw
  · intro lead items rest hdoc hskipped
    refine ⟨fun before item after hitems hends => ?_, fun r hrest => ?_⟩
    · exact query_item hroot hobject hname hdoc hskipped hends hitems
    · exact query_no_item hroot hobject hname hdoc hskipped hrest

/-- In an object where the first `a` is spelled with an escape, the next one is inside of the value of
`b`, and a fault comes after two more, the first of these two is found; a name that no key is spelled
as leads to the fault. -/
theorem query_member_twice :
    let doc := utf8 "\x7b\"\\u0061\":0,\"b\":\x7b\"a\":1\x7d,\"a\":2,\"a\":3,!\x7d"
    let fault : Fault := .badByte 36 (Byte.ofChar '!')
    let members : List Child := [⟨some ⟨1, 9⟩, ⟨10, 11⟩⟩, ⟨some ⟨12, 15⟩, ⟨16, 23⟩⟩,
      ⟨some ⟨24, 27⟩, ⟨28, 29⟩⟩, ⟨some ⟨30, 33⟩, ⟨34, 35⟩⟩]
    locateRoot doc = .ok ⟨0, 38⟩ ∧ (Place.ofOffset doc 0).kind = .ok .object ∧
      (Children.ofOffset .object doc 0).Gives members (some fault) ∧
      query doc ("$" ++ (Segment.field "a").text) = .ok (utf8 "2") ∧
      query doc ("$" ++ (Segment.field "c").text) = .error (.document fault) := by
  intro doc fault members
  have hroot : locateRoot doc = .ok ⟨0, 38⟩ := by decide +kernel
  have hobject : (Place.ofOffset doc 0).kind = .ok .object := by decide +kernel
  have hgives : (Children.ofOffset .object doc 0).Gives members (some fault) :=
    Children.gives_iff.2 (by decide +kernel)
  refine ⟨hroot, hobject, hgives, ?_, ?_⟩
  · have hname : '\\' ∉ "a".toList := by decide
    obtain ⟨hfound, -⟩ := query_member hroot hobject hgives hname
    exact hfound (members.take 2) ⟨some ⟨24, 27⟩, ⟨28, 29⟩⟩ (members.drop 3) rfl (by decide +kernel)
      (by decide +kernel)
  · have hname : '\\' ∉ "c".toList := by decide
    obtain ⟨-, hmissing, -⟩ := query_member hroot hobject hgives hname
    exact hmissing (by decide +kernel)

end JsonSpan

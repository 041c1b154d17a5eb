import JsonSpan.Proofs.Query.Outcome
import JsonSpan.Proofs.Tree.Spots

/-!
# Evaluation agrees with selection

The evaluator works on the spans of a document, selection on the nodes of a tree. A span stands for a
node (`Stands`) if it lies where the address of the node leads to. Segment by segment, and condition
by condition, both keep to that: from a span that stands for a node the evaluator reaches, without a
fault, spans that stand one by one for the nodes that are selected (`finds_step`). At the root of a
serialized value this makes the matches of a path the byte ranges of the selected nodes
(`Path.select_serialized`).
-/

namespace JsonSpan

/-- The spot is where the node is, below a root: its layout has the tree of the node, and stands in the
document. -/
structure Spot.Holds (doc : Bytes) (root : Spot) (n : Node) (spot : Spot) : Prop where
  follow : root.follow n.address = some spot
  fits : spot.Fits doc
  tree : n.value = spot.layout.tree

/-- The span is that of the spot where the node is. -/
def Stands (doc : Bytes) (root : Spot) (n : Node) (s : Span) : Prop :=
  ∃ spot, Spot.Holds doc root n spot ∧ s = spot.span

/-- The evaluation succeeds, and its spans stand for the nodes, in order. -/
def Finds (doc : Bytes) (root : Spot) (nodes : List Node) (x : Except Fault (List Span)) : Prop :=
  ∃ spans, x = .ok spans ∧ List.Forall₂ (Stands doc root) nodes spans

/-! ### Lists that correspond -/

section

variable {α β γ δ ε : Type} {R : α → β → Prop}

theorem forall₂_mapIdx {f : Nat → γ → α} {g : γ → β} {cs : List γ}
    (h : ∀ i c, cs[i]? = some c → R (f i c) (g c)) :
    List.Forall₂ R (cs.mapIdx f) (cs.map g) := by
  induction cs generalizing f with
  | nil => exact .nil
  | cons c cs ih =>
    rw [List.mapIdx_cons, List.map_cons]
    exact .cons (h 0 c rfl) (ih fun i d hd => h (i + 1) d hd)

theorem forall₂_getElem? {as : List α} {bs : List β} (h : List.Forall₂ R as bs) (i : Nat) :
    as[i]? = none ∧ bs[i]? = none ∨ ∃ a b, as[i]? = some a ∧ bs[i]? = some b ∧ R a b := by
  induction h generalizing i with
  | nil => exact .inl ⟨rfl, rfl⟩
  | @cons a b as bs hab _ ih =>
    cases i with
    | zero => exact .inr ⟨a, b, rfl, rfl, hab⟩
    | succ i => simpa using ih i

theorem forall₂_toList_getElem? {as : List α} {bs : List β} (h : List.Forall₂ R as bs) (i : Nat) :
    List.Forall₂ R as[i]?.toList bs[i]?.toList := by
  rcases forall₂_getElem? h i with ⟨ha, hb⟩ | ⟨a, b, ha, hb, hab⟩
  · rw [ha, hb]
    exact .nil
  · rw [ha, hb]
    exact .cons hab .nil

theorem forall₂_filterMap_getElem? {as : List α} {bs : List β} (h : List.Forall₂ R as bs)
    (positions : List Nat) :
    List.Forall₂ R (positions.filterMap (as[·]?)) (positions.filterMap (bs[·]?)) := by
  induction positions with
  | nil => exact .nil
  | cons i more ih =>
    rw [List.filterMap_cons, List.filterMap_cons]
    rcases forall₂_getElem? h i with ⟨ha, hb⟩ | ⟨a, b, ha, hb, hab⟩
    · rw [ha, hb]
      exact ih
    · rw [ha, hb]
      exact .cons hab ih

theorem gather_forall₂ {P : δ → γ → Prop} {f : β → Except ε (List γ)} {g : α → List δ} {as : List α}
    {bs : List β} (h : List.Forall₂ R as bs)
    (hf : ∀ a b, R a b → ∃ cs, f b = .ok cs ∧ List.Forall₂ P (g a) cs) :
    ∃ cs, gather f bs = .ok cs ∧ List.Forall₂ P (as.flatMap g) cs := by
  induction h with
  | nil => exact ⟨[], rfl, .nil⟩
  | @cons a b as bs hab _ ih =>
    obtain ⟨cs, hcs, hP⟩ := hf a b hab
    obtain ⟨ds, hds, hP'⟩ := ih
    refine ⟨cs ++ ds, ?_, ?_⟩
    · rw [gather, hcs, hds]
      rfl
    · rw [List.flatMap_cons]
      exact List.rel_append hP hP'

theorem pick_forall₂ {test : β → Except ε Bool} {p : α → Bool} {as : List α} {bs : List β}
    (h : List.Forall₂ R as bs) (hp : ∀ a b, R a b → test b = .ok (p a)) :
    ∃ cs, pick test bs = .ok cs ∧ List.Forall₂ R (as.filter p) cs := by
  induction h with
  | nil => exact ⟨[], rfl, .nil⟩
  | @cons a b as bs hab _ ih =>
    obtain ⟨cs, hcs, hR⟩ := ih
    cases ha : p a with
    | true =>
      refine ⟨b :: cs, ?_, ?_⟩
      · rw [pick, hp a b hab, hcs, ha]
        rfl
      · rw [List.filter_cons_of_pos ha]
        exact .cons hab hR
    | false =>
      refine ⟨cs, ?_, ?_⟩
      · rw [pick, hp a b hab, hcs, ha]
        rfl
      · rw [List.filter_cons_of_neg (by simp [ha])]
        exact hR

theorem find?_forall₂ {labels : List δ} {as : List α} {bs : List β} {p : δ → Bool} {q : β → Bool}
    (hl : List.Forall₂ (fun d b => q b = p d) labels bs) (h : List.Forall₂ R as bs) :
    List.Forall₂ R (((labels.zip as).find? (p ·.1)).map (·.2)).toList (bs.find? q).toList := by
  induction hl generalizing as with
  | nil =>
    cases h
    exact .nil
  | @cons d b labels bs hd _ ih =>
    cases h with
    | @cons a _ as _ hab h =>
      rw [List.zip_cons_cons, List.find?_cons, List.find?_cons, hd]
      cases p d with
      | true => exact .cons hab .nil
      | false => exact ih h

end

/-! ### The children of a node -/

theorem Spot.follow_append {root spot child : Spot} {address : List Nat} {i : Nat}
    (h : root.follow address = some spot) (hc : spot.children[i]? = some child) :
    root.follow (address ++ [i]) = some child := by
  induction address generalizing root with
  | nil =>
    cases h
    rw [List.nil_append, follow, hc]
    rfl
  | cons j address ih =>
    rw [List.cons_append, follow]
    rw [follow] at h
    split at h
    · exact ih h
    · cases h

section

variable {doc : Bytes} {root spot : Spot} {n : Node}

theorem Spot.Holds.children (h : Spot.Holds doc root n spot) :
    List.Forall₂ (Spot.Holds doc root) n.children spot.children := by
  have hmap : n.children = spot.children.mapIdx fun i c => ⟨n.address ++ [i], c.layout.tree⟩ := by
    rw [Node.children, h.tree, spot.children_tree, List.mapIdx_eq_zipIdx_map, List.zipIdx_map,
      List.mapIdx_eq_zipIdx_map, List.map_map]
    rfl
  have hall : List.Forall₂ (Spot.Holds doc root) n.children (spot.children.map id) := by
    rw [hmap]
    exact forall₂_mapIdx fun i c hc =>
      ⟨Spot.follow_append h.follow hc, h.fits.children c (List.mem_of_getElem? hc), rfl⟩
  rwa [List.map_id] at hall

theorem Spot.Holds.stands_children (h : Spot.Holds doc root n spot) :
    List.Forall₂ (Stands doc root) n.children (spot.children.map Spot.span) := by
  rw [List.forall₂_map_right_iff]
  exact h.children.imp fun _ c hc => ⟨c, hc, rfl⟩

theorem Spot.Holds.isArray_iff (h : Spot.Holds doc root n spot) :
    n.value.isArray = true ↔ spot.layout.kind = .array := by
  rw [h.tree]
  cases spot.layout with
  | container c lead children => cases c <;> simp [Layout.tree, Container.tree, Json.isArray, Layout.kind]
  | _ => simp [Layout.tree, Json.isArray, Layout.kind]

theorem Spot.Holds.keys_eq_nil (h : Spot.Holds doc root n spot) (hk : spot.layout.kind ≠ .object) :
    n.value.keys = [] := by
  rw [h.tree]
  cases hl : spot.layout with
  | container c lead children =>
    rw [hl] at hk
    cases c with
    | object => exact absurd rfl hk
    | array => rfl
  | _ => rfl

theorem Spot.Holds.isNamed_children (h : Spot.Holds doc root n spot)
    (hk : spot.layout.kind = .object) (name : String) :
    List.Forall₂ (fun (key : Token) (s : Spot) => Child.isNamed doc name s.child = key.isName name)
      n.value.keys spot.children := by
  rw [h.tree]
  cases hl : spot.layout with
  | container c lead children =>
    obtain ⟨r, hr⟩ := h.fits.inside hl
    rw [hl] at hk
    cases c with
    | object =>
      have hchildren : spot.children = children.spots true (spot.start + 1 + lead.bytes.length) := by
        rw [Spot.children, hl]
      rw [hchildren]
      exact children.isNamed_spots name rfl true _ _ hr
    | array => cases hk
  | _ =>
    rw [hl] at hk
    cases hk

theorem Spot.Holds.listing (h : Spot.Holds doc root n spot) {c : Container}
    (hk : spot.layout.kind.container? = some c) :
    Listing.ofOffset c doc spot.start = ⟨spot.children.map Spot.child, none⟩ := by
  cases hl : spot.layout with
  | container c' lead children =>
    have hc : c' = c := by
      rw [hl] at hk
      cases c' <;> cases hk <;> rfl
    subst hc
    exact h.fits.listing hl
  | _ =>
    rw [hl] at hk
    cases hk

end

/-! ### Listings without a fault -/

namespace Listing

variable (cs : List Child)

theorem get?_ok (i : Nat) : (⟨cs, none⟩ : Listing).get? i = .ok (cs.map Child.value)[i]? := by
  rw [get?, List.getElem?_map]
  cases cs[i]? <;> rfl

theorem find?_ok (test : Child → Bool) :
    (⟨cs, none⟩ : Listing).find? test = .ok ((cs.find? test).map Child.value) := by
  rw [find?]
  dsimp only
  cases cs.find? test <;> rfl

end Listing

theorem Spot.map_value_child (spots : List Spot) :
    (spots.map Spot.child).map Child.value = spots.map Spot.span := by
  rw [List.map_map]
  rfl

/-! ### One segment -/

theorem finds_nil {doc : Bytes} {root : Spot} : Finds doc root [] (.ok []) :=
  ⟨[], rfl, .nil⟩

section

variable {doc : Bytes} {root : Spot} {n : Node} {s : Span}

theorem finds_childValues (h : Stands doc root n s) :
    Finds doc root n.children (childValues doc s) := by
  obtain ⟨spot, hspot, rfl⟩ := h
  exact ⟨_, hspot.fits.childValues, hspot.stands_children⟩

/-- The walk over a stack visits what is on it, each with all nodes below it. -/
theorem finds_walk {nodes : List Node} {stack : List Span}
    (h : List.Forall₂ (Stands doc root) nodes stack) :
    Finds doc root (nodes.flatMap Node.preorder) (Descent.walk doc stack) := by
  fun_induction Descent.walk doc stack generalizing nodes with
  | case1 =>
    cases h
    exact finds_nil
  | case2 s stack f hf =>
    cases h with
    | cons hn _ =>
      obtain ⟨_, hok, _⟩ := finds_childValues hn
      rw [hf] at hok
      cases hok
  | case3 s stack children hc ih =>
    cases h with
    | @cons n _ nodes _ hn hstack =>
      obtain ⟨spans, hok, hchildren⟩ := finds_childValues hn
      rw [hc] at hok
      cases hok
      obtain ⟨below, hbelow, hstands⟩ := ih (List.rel_append hchildren hstack)
      refine ⟨s :: below, ?_, ?_⟩
      · rw [hbelow]
        rfl
      · rw [List.flatMap_cons, n.preorder_eq, List.cons_append]
        rw [List.flatMap_append] at hstands
        exact .cons hn hstands

end

section

variable {site : Site} {root : Spot} {n : Node} {s : Span} (h : Stands site.doc root n s)

include h

theorem finds_field (name : String) : Finds site.doc root (n.field name) (site.field name s) := by
  obtain ⟨spot, hspot, rfl⟩ := h
  have hk : site.kind spot.span = .ok spot.layout.kind := hspot.fits.kind
  rw [Site.field, hk]
  by_cases hobject : spot.layout.kind = .object
  · have hlist : Listing.ofOffset .object site.doc spot.span.start = ⟨spot.children.map Spot.child, none⟩ :=
      hspot.listing (by rw [hobject]; rfl)
    have hfound := find?_forall₂ (hspot.isNamed_children hobject name) hspot.children
    have hmember : findMember site.doc spot.span.start name = .ok
        ((spot.children.find? fun c => Child.isNamed site.doc name c.child).map Spot.span) := by
      rw [findMember, hlist, Listing.find?_ok, List.find?_map, Option.map_map]
      rfl
    refine ⟨((spot.children.find? fun c =>
      Child.isNamed site.doc name c.child).toList).map Spot.span, ?_, ?_⟩
    · show (if spot.layout.kind = .object then _ else _) = _
      rw [if_pos hobject, hmember, ← Option.toList_map]
      rfl
    · rw [List.forall₂_map_right_iff]
      exact hfound.imp fun _ c hc => ⟨c, hc, rfl⟩
  · rw [Node.field, hspot.keys_eq_nil hobject]
    show Finds _ _ _ (if spot.layout.kind = .object then _ else _)
    rw [if_neg hobject]
    exact finds_nil

theorem finds_index (i : Int) : Finds site.doc root (n.index i) (site.index i s) := by
  obtain ⟨spot, hspot, rfl⟩ := h
  have hk : site.kind spot.span = .ok spot.layout.kind := hspot.fits.kind
  have hchildren := hspot.stands_children
  rw [Site.index, hk, Node.index]
  show Finds _ _ _ (if spot.layout.kind = .array then _ else _)
  by_cases harray : spot.layout.kind = .array
  · have hlist : Listing.ofOffset .array site.doc spot.span.start = ⟨spot.children.map Spot.child, none⟩ :=
      hspot.listing (by rw [harray]; rfl)
    have hlen : n.children.length = (spot.children.map Spot.span).length := hchildren.length_eq
    rw [if_pos harray, if_pos (hspot.isArray_iff.2 harray), hlist]
    dsimp only
    by_cases hi : 0 ≤ i
    · rw [if_pos hi, if_pos hi, if_pos hi, Listing.get?_ok, Spot.map_value_child]
      exact ⟨_, rfl, forall₂_toList_getElem? hchildren i.toNat⟩
    · have hvalues : (⟨spot.children.map Spot.child, none⟩ : Listing).values =
          .ok (spot.children.map Spot.span) := congrArg Except.ok (Spot.map_value_child _)
      rw [if_neg hi, if_neg hi, hlen, hvalues]
      show Finds _ _ _ (if 0 ≤ ((spot.children.map Spot.span).length : Int) + i then _ else _)
      split
      · exact ⟨_, rfl, forall₂_toList_getElem? hchildren _⟩
      · exact finds_nil
  · rw [if_neg harray, if_neg (mt hspot.isArray_iff.1 harray)]
    exact finds_nil

theorem finds_slice (start stop step : Option Int) :
    Finds site.doc root (n.slice start stop step) (site.slice start stop step s) := by
  obtain ⟨spot, hspot, rfl⟩ := h
  have hk : site.kind spot.span = .ok spot.layout.kind := hspot.fits.kind
  have hchildren := hspot.stands_children
  rw [Site.slice, hk, Node.slice]
  show Finds _ _ _ (if spot.layout.kind = .array then _ else _)
  by_cases harray : spot.layout.kind = .array
  · have hlist : Listing.ofOffset .array site.doc spot.span.start = ⟨spot.children.map Spot.child, none⟩ :=
      hspot.listing (by rw [harray]; rfl)
    have hvalues : (⟨spot.children.map Spot.child, none⟩ : Listing).values =
        .ok (spot.children.map Spot.span) := congrArg Except.ok (Spot.map_value_child _)
    have hlen : n.children.length = (spot.children.map Spot.span).length := hchildren.length_eq
    rw [if_pos harray, if_pos (hspot.isArray_iff.2 harray), hlist, hvalues, hlen]
    exact ⟨_, rfl, forall₂_filterMap_getElem? hchildren _⟩
  · rw [if_neg harray, if_neg (mt hspot.isArray_iff.1 harray)]
    exact finds_nil

theorem finds_union (selectors : List Selector) :
    Finds site.doc root (selectors.flatMap n.selector) (site.union s selectors) := by
  induction selectors with
  | nil => exact finds_nil
  | cons selector more ih =>
    have hone : Finds site.doc root (n.selector selector) (site.selector s selector) := by
      cases selector with
      | name name => exact finds_field h name
      | index i => exact finds_index h i.toInt
    obtain ⟨spans, hok, hspans⟩ := hone
    obtain ⟨others, hok', hothers⟩ := ih
    refine ⟨spans ++ others, ?_, List.rel_append hspans hothers⟩
    rw [Site.union, hok, hok']
    rfl

end

/-! ### Segments and conditions -/

theorem onlyScalar_of_stands {site : Site} {root : Spot} {nodes : List Node} {spans : List Span}
    (h : List.Forall₂ (Stands site.doc root) nodes spans) :
    site.onlyScalar spans = .ok (Node.onlyScalar nodes) := by
  match h with
  | .nil => rfl
  | .cons hn .nil =>
    obtain ⟨spot, hspot, rfl⟩ := hn
    rw [Site.onlyScalar, hspot.fits.ofSpan, Node.onlyScalar, hspot.tree]
  | .cons _ (.cons _ _) => rfl

theorem isEmpty_of_stands {doc : Bytes} {root : Spot} {nodes : List Node} {spans : List Span}
    (h : List.Forall₂ (Stands doc root) nodes spans) : spans.isEmpty = nodes.isEmpty := by
  cases h <;> rfl

mutual

/-- From a span that stands for a node, a segment leads to spans that stand for the nodes it
selects. -/
theorem finds_step {site : Site} {root : Spot} {top : Node}
    (htop : Stands site.doc root top site.root) {n : Node} {s : Span}
    (h : Stands site.doc root n s) : (segment : Segment) →
    Finds site.doc root (segment.nodes top n) (segment.step site s).result
  | .field name => by
    rw [Segment.nodes, Segment.result_step_field]
    exact finds_field h name
  | .wildcard => by
    rw [Segment.nodes, Segment.result_step_wildcard]
    exact finds_childValues h
  | .index i => by
    rw [Segment.nodes, Segment.result_step_index]
    exact finds_index h i.toInt
  | .slice start stop step => by
    rw [Segment.nodes, Segment.result_step_slice]
    exact finds_slice h _ _ _
  | .union selectors => by
    rw [Segment.nodes, Segment.result_step_union]
    exact finds_union h selectors
  | .descent => by
    have hwalk := finds_walk (.cons h .nil)
    rw [List.flatMap_singleton] at hwalk
    rw [Segment.nodes, Segment.result_step_descent]
    exact hwalk
  | .filter condition => by
    obtain ⟨children, hok, hchildren⟩ := finds_childValues h
    rw [Segment.nodes, Segment.result_step_filter, hok]
    exact pick_forall₂ hchildren fun _ _ hc => test_eq htop hc condition

theorem finds_stepAll {site : Site} {root : Spot} {top : Node}
    (htop : Stands site.doc root top site.root) {nodes : List Node} {spans : List Span}
    (h : List.Forall₂ (Stands site.doc root) nodes spans) : (segments : List Segment) →
    Finds site.doc root (Segment.nodesAll top nodes segments)
      (Segment.stepAll site spans segments).result
  | [] => by
    rw [Segment.nodesAll, Segment.result_stepAll_nil]
    exact ⟨spans, rfl, h⟩
  | segment :: more => by
    obtain ⟨reached, hok, hreached⟩ := gather_forall₂ h fun _ _ hs => finds_step htop hs segment
    rw [Segment.nodesAll, Segment.result_stepAll_cons, hok]
    exact finds_stepAll htop hreached more

theorem test_eq {site : Site} {root : Spot} {top : Node}
    (htop : Stands site.doc root top site.root) {n : Node} {s : Span}
    (h : Stands site.doc root n s) : (condition : Condition) →
    (condition.test site s).result = .ok (condition.holds top n)
  | .or left right => by
    rw [Condition.result_test_or, test_eq htop h left, test_eq htop h right, Condition.holds]
    cases left.holds top n <;> rfl
  | .and left right => by
    rw [Condition.result_test_and, test_eq htop h left, test_eq htop h right, Condition.holds]
    cases left.holds top n <;> rfl
  | .not inner => by
    rw [Condition.result_test_not, test_eq htop h inner, Condition.holds]
    rfl
  | .compare left op right => by
    rw [Condition.result_test_compare, resolve_eq htop h left, resolve_eq htop h right,
      Condition.holds]
    rfl
  | .like operand pattern => by
    rw [Condition.result_test_like, resolve_eq htop h operand, Condition.holds]
    rfl
  | .present operand => by
    rw [Condition.result_test_present, exists_eq htop h operand, Condition.holds]

theorem resolve_eq {site : Site} {root : Spot} {top : Node}
    (htop : Stands site.doc root top site.root) {n : Node} {s : Span}
    (h : Stands site.doc root n s) : (operand : Operand) →
    (operand.resolve site s).result = .ok (operand.scalarOf top n)
  | .literal value => by
    rw [Operand.result_resolve_literal, Operand.scalarOf]
  | .current segments => by
    obtain ⟨spans, hok, hspans⟩ := finds_stepAll htop (.cons h .nil) segments
    rw [Operand.result_resolve_current, hok, Operand.scalarOf]
    exact onlyScalar_of_stands hspans
  | .root segments => by
    obtain ⟨spans, hok, hspans⟩ := finds_stepAll htop (.cons htop .nil) segments
    rw [Operand.result_resolve_root, hok, Operand.scalarOf]
    exact onlyScalar_of_stands hspans

theorem exists_eq {site : Site} {root : Spot} {top : Node}
    (htop : Stands site.doc root top site.root) {n : Node} {s : Span}
    (h : Stands site.doc root n s) : (operand : Operand) →
    (operand.exists site s).result = .ok (operand.leads top n)
  | .literal value => by
    rw [Operand.result_exists_literal, Operand.leads]
  | .current segments => by
    obtain ⟨spans, hok, hspans⟩ := finds_stepAll htop (.cons h .nil) segments
    rw [Operand.result_exists_current, hok, Operand.leads, ← isEmpty_of_stands hspans]
    rfl
  | .root segments => by
    obtain ⟨spans, hok, hspans⟩ := finds_stepAll htop (.cons htop .nil) segments
    rw [Operand.result_exists_root, hok, Operand.leads, ← isEmpty_of_stands hspans]
    rfl

end

/-! ### Serialized values -/

/-- The root of a serialized value is where the value stands. -/
theorem locateRoot_serialized (lead : Blanks) (l : Layout) (trail : Bytes) (h : l.Stops trail) :
    (Spot.mk none lead.bytes.length l).Fits (lead.bytes ++ l.bytes ++ trail) ∧
      locateRoot (lead.bytes ++ l.bytes ++ trail) =
        .ok (Spot.mk none lead.bytes.length l).span := by
  have hdrop : (lead.bytes ++ l.bytes ++ trail).drop lead.bytes.length = l.bytes ++ trail := by
    rw [List.append_assoc, List.drop_left]
  have hskip : (Place.ofOffset (lead.bytes ++ l.bytes ++ trail) 0).skipBlanks =
      .ofOffset (lead.bytes ++ l.bytes ++ trail) lead.bytes.length := by
    have := Place.skipBlanks_append lead.blank (l.noBlank trail) 0
    rw [Place.ofOffset, Place.ofOffset, hdrop, List.drop_zero, List.append_assoc, this, Nat.zero_add]
  have hfits : (Spot.mk none lead.bytes.length l).Fits (lead.bytes ++ l.bytes ++ trail) :=
    ⟨trail, hdrop, h⟩
  refine ⟨hfits, ?_⟩
  rw [locateRoot, hskip, hfits.readValue]

theorem spans_of_stands {doc : Bytes} {l : Layout} {offset : Nat} {nodes : List Node}
    {spans : List Span} (h : List.Forall₂ (Stands doc ⟨none, offset, l⟩) nodes spans) :
    spans.map some = nodes.map fun n => l.spanAt offset n.address := by
  induction h with
  | nil => rfl
  | cons hn _ ih =>
    obtain ⟨spot, hspot, rfl⟩ := hn
    rw [List.map_cons, List.map_cons, ih, Layout.spanAt, hspot.follow]
    rfl

/-- Whatever the layout of a value, and whatever follows it, a path matches the byte ranges of the
nodes that it selects from the tree, in the same order. -/
theorem Path.select_serialized (p : Path) (l : Layout) (lead : Blanks) (trail : Bytes)
    (h : l.Stops trail) :
    ∃ spans, p.select (lead.bytes ++ l.bytes ++ trail) = .ok spans ∧
      spans.map some = (l.tree.select p).map fun n => l.spanAt lead.bytes.length n.address := by
  obtain ⟨hfits, hroot⟩ := locateRoot_serialized lead l trail h
  have htop : Stands (lead.bytes ++ l.bytes ++ trail) ⟨none, lead.bytes.length, l⟩ ⟨[], l.tree⟩
      (Spot.mk none lead.bytes.length l).span := ⟨_, ⟨rfl, hfits, rfl⟩, rfl⟩
  obtain ⟨spans, hok, hspans⟩ := @finds_stepAll ⟨lead.bytes ++ l.bytes ++ trail, _⟩ _ _ htop _ _
    (.cons htop .nil) p
  refine ⟨spans, ?_, spans_of_stands hspans⟩
  rw [Path.select_eq, hroot]
  exact hok

theorem Path.select_serialized_number :
    ∃ n : Numeral, (Layout.number n).Stops (utf8 ",") ∧
      (∃ spans, Path.select [] (utf8 " 7,") = .ok spans ∧ spans.map some = [some ⟨1, 2⟩]) ∧
      ∃ spans, Path.select [.index (-1)] (utf8 "[ 7]8") = .ok spans ∧
        spans.map some = [some ⟨2, 3⟩] := by
  let seven : Numeral := ⟨false, ⟨['7'], by decide, by decide⟩, none, none, .inr (by decide)⟩
  let blank : Blanks := ⟨utf8 " ", by decide⟩
  let nothing : Blanks := ⟨[], by simp⟩
  have hstops : (Layout.number seven).Stops (utf8 ",") :=
    Numeral.ends_cons (b := Byte.comma) (by decide) []
  exact ⟨seven, hstops, select_serialized [] (.number seven) blank (utf8 ",") hstops,
    select_serialized [.index (-1)] (.container .array blank (.cons nothing () (.number seven) nothing .nil))
      nothing (utf8 "8") trivial⟩

end JsonSpan

import JsonSpan.Proofs.Query.Order

/-!
# The descent as a traversal in preorder

A descent runs a loop over a stack: it takes the last value off, gives it, and puts the children of
it on the stack in reverse. This is the traversal that gives a value and then what is below each of
its children in turn (`Descent.preorder`), and it fails where the traversal does, with the same fault
(`descendants_preorder`). The loop comes to its end because children lie strictly inside their parent
and share no byte: with each turn the values on the stack cover fewer bytes.
-/

namespace JsonSpan

/-! ### Lists of steps -/

section

variable {ε α β γ : Type} {f : α → Except ε (List β)}

theorem gather_append (as bs : List α) :
    gather f (as ++ bs) = gather f as >>= fun xs => (xs ++ ·) <$> gather f bs := by
  induction as with
  | nil =>
    show gather f bs = id <$> gather f bs
    rw [id_map]
  | cons a as ih =>
    rw [List.cons_append, gather, gather, ih]
    cases f a with
    | error fault => rfl
    | ok ds =>
      cases gather f as with
      | error fault => rfl
      | ok xs =>
        cases gather f bs with
        | error fault => rfl
        | ok ys => exact congrArg Except.ok (List.append_assoc ds xs ys).symm

theorem gather_map (g : γ → α) (cs : List γ) : gather f (cs.map g) = gather (fun c => f (g c)) cs := by
  induction cs with
  | nil => rfl
  | cons c cs ih => rw [List.map_cons, gather, gather, ih]

theorem exists_of_gather {as : List α} {bs : List β} (h : gather f as = .ok bs) {a : α}
    (ha : a ∈ as) : ∃ ds, f a = .ok ds ∧ ∀ d ∈ ds, d ∈ bs := by
  induction as generalizing bs with
  | nil => cases ha
  | cons a' as ih =>
    obtain ⟨ds, es, hd, he, rfl⟩ := gather_cons_eq_ok.1 h
    rcases List.mem_cons.1 ha with rfl | ha
    · exact ⟨ds, hd, fun d hm => List.mem_append_left es hm⟩
    · obtain ⟨ds', hd', hin⟩ := ih he ha
      exact ⟨ds', hd', fun d hm => List.mem_append_right ds (hin d hm)⟩

end

namespace Descent

variable {doc : Bytes}

/-! ### The traversal -/

theorem weight_le_totalWeight {s : Span} {ss : List Span} (h : s ∈ ss) :
    weight doc s ≤ totalWeight doc ss := by
  induction ss with
  | nil => cases h
  | cons t ss ih =>
    rw [totalWeight]
    rcases List.mem_cons.1 h with rfl | h
    · exact Nat.le_add_right _ _
    · exact Nat.le_trans (ih h) (Nat.le_add_left _ _)

/-- A value, and then what is below each of its children in turn. -/
def preorder (doc : Bytes) (s : Span) : Except Fault (List Span) :=
  match _ : childValues doc s with
  | .error fault => .error fault
  | .ok children => do
    let below ← gather (fun child : { c // c ∈ children } => preorder doc child.1) children.attach
    return s :: below
termination_by weight doc s
decreasing_by
  exact Nat.lt_of_le_of_lt (weight_le_totalWeight child.2) (totalWeight_childValues ‹_›)

theorem preorder_eq (s : Span) :
    preorder doc s = childValues doc s >>= fun children =>
      (s :: ·) <$> gather (preorder doc) children := by
  rw [preorder]
  split
  · next h =>
    rw [h]
    rfl
  · next children h =>
    rw [h, ← gather_map, List.attach_map_subtype_val]
    rfl

/-- The walk over a stack gives what is below each value on it in turn. -/
theorem walk_eq_gather (stack : List Span) : walk doc stack = gather (preorder doc) stack := by
  fun_induction walk doc stack with
  | case1 => rfl
  | case2 node stack fault h =>
    rw [gather, preorder_eq, h]
    rfl
  | case3 node stack children h ih =>
    rw [ih, gather_append, gather, preorder_eq, h]
    show _ = ((node :: ·) <$> gather (preorder doc) children) >>= _
    cases gather (preorder doc) children with
    | error fault => rfl
    | ok below =>
      cases gather (preorder doc) stack with
      | error fault => rfl
      | ok later => rfl

/-! ### The loop -/

/-- The loop of a descent for a number of turns at most, from the values yet to be visited, the next
one last, and those visited so far. If the loop is then not at its end, nothing comes of it. -/
def loop (doc : Bytes) (turns : Nat) (stack visited : List Span) :
    Option (Except Fault (List Span)) :=
  match stack.getLast? with
  | none => some (.ok visited)
  | some node =>
    match turns with
    | 0 => none
    | turns + 1 =>
      match childValues doc node with
      | .error fault => some (.error fault)
      | .ok children => loop doc turns (stack.dropLast ++ children.reverse) (visited ++ [node])

theorem loop_nil (turns : Nat) (visited : List Span) :
    loop doc turns [] visited = some (.ok visited) := by
  rw [loop]
  rfl

theorem loop_push (turns : Nat) (stack visited : List Span) (node : Span) :
    loop doc (turns + 1) (stack ++ [node]) visited =
      match childValues doc node with
      | .error fault => some (.error fault)
      | .ok children => loop doc turns (stack ++ children.reverse) (visited ++ [node]) := by
  rw [loop, List.getLast?_concat, List.dropLast_concat]

/-- How many bytes values cover, if they share none. -/
def covered : List Span → Nat
  | [] => 0
  | s :: spans => s.length + covered spans

theorem covered_append (spans more : List Span) :
    covered (spans ++ more) = covered spans + covered more := by
  induction spans with
  | nil => exact (Nat.zero_add _).symm
  | cons s spans ih => rw [List.cons_append, covered, covered, ih, Nat.add_assoc]

theorem covered_pos {s : Span} (hs : s.IsExtent doc) (spans : List Span) :
    0 < covered (s :: spans) :=
  Nat.lt_of_lt_of_le (Nat.sub_pos_of_lt hs.bounds.1) (Nat.le_add_right _ _)

theorem covered_le {spans : List Span} {low high : Nat} (hp : spans.Pairwise Span.Precedes)
    (h : ∀ s ∈ spans, low ≤ s.start ∧ s.start ≤ s.stop ∧ s.stop ≤ high) (hlow : low ≤ high) :
    covered spans ≤ high - low := by
  induction spans generalizing low with
  | nil => exact Nat.zero_le _
  | cons s spans ih =>
    obtain ⟨hfirst, hlater⟩ := List.pairwise_cons.1 hp
    obtain ⟨hs, hle, hstop⟩ := h s (by simp)
    have hcovered := ih hlater (fun t ht => ⟨hfirst t ht, (h t (by simp [ht])).2⟩) hstop
    rw [covered, Span.length]
    omega

theorem covered_childValues {s : Span} (hs : s.IsExtent doc) {children : List Span}
    (h : childValues doc s = .ok children) : covered children < s.length := by
  have hbounds := hs.bounds
  have hinside : ∀ c ∈ children, s.start + 1 ≤ c.start ∧ c.start ≤ c.stop ∧ c.stop ≤ s.stop := by
    intro c hc
    obtain ⟨-, ⟨hstart, hstop⟩, hlt⟩ := (isChild_of_childValues h c hc).extent hs
    omega
  have hcovered := covered_le (follow_of_childValues hs h) hinside hbounds.1
  rw [Span.length]
  omega

/-- The loop comes to its end in no more turns than the stack covers bytes, and gives what the walk
gives. -/
theorem loop_eq_walk {turns : Nat} {stack visited : List Span} (hs : ∀ s ∈ stack, s.IsExtent doc)
    (hturns : covered stack ≤ turns) :
    loop doc turns stack.reverse visited = some ((visited ++ ·) <$> walk doc stack) := by
  fun_induction walk doc stack generalizing turns visited with
  | case1 =>
    rw [List.reverse_nil, loop_nil]
    exact congrArg (some ∘ Except.ok) (List.append_nil visited).symm
  | case2 node stack fault h =>
    obtain ⟨left, rfl⟩ := Nat.exists_eq_add_one.2
      (Nat.lt_of_lt_of_le (covered_pos (hs node (by simp)) stack) hturns)
    rw [List.reverse_cons, loop_push, h]
    rfl
  | case3 node stack children h ih =>
    obtain ⟨left, rfl⟩ := Nat.exists_eq_add_one.2
      (Nat.lt_of_lt_of_le (covered_pos (hs node (by simp)) stack) hturns)
    have hless : covered (children ++ stack) ≤ left := by
      have := covered_childValues (hs node (by simp)) h
      rw [covered_append]
      rw [covered] at hturns
      omega
    rw [List.reverse_cons, loop_push, h]
    show loop doc left (stack.reverse ++ children.reverse) (visited ++ [node]) = _
    rw [← List.reverse_append, ih (isExtent_of_turn hs h) hless]
    cases walk doc (children ++ stack) with
    | error fault => rfl
    | ok later => exact congrArg (some ∘ Except.ok) (List.append_assoc visited [node] later)

/-! ### What is visited -/

theorem ascending_of_walk {stack visited : List Span} (hs : ∀ s ∈ stack, s.IsExtent doc)
    (hp : stack.Pairwise Span.Precedes) (h : walk doc stack = .ok visited) :
    visited.Pairwise (·.start < ·.start) := by
  fun_induction walk doc stack generalizing visited with
  | case1 =>
    cases h
    exact .nil
  | case2 => cases h
  | case3 node stack children hc ih =>
    obtain ⟨later, hwalk, rfl⟩ := map_eq_ok.1 h
    have hnode := hs node (by simp)
    have hchild := fun c hm => (isChild_of_childValues hc c hm).extent hnode
    obtain ⟨hfirst, hmore⟩ := List.pairwise_cons.1 hp
    have hextent := isExtent_of_turn hs hc
    have hfollow : (children ++ stack).Pairwise Span.Precedes := by
      refine List.pairwise_append.2 ⟨follow_of_childValues hnode hc, hmore, fun c hm t ht => ?_⟩
      exact Nat.le_trans (Nat.le_of_lt (hchild c hm).2.1.2) (hfirst t ht)
    refine List.pairwise_cons.2 ⟨fun v hv => ?_, ih hextent hfollow hwalk⟩
    obtain ⟨t, ht, hbelow⟩ := below_of_walk hwalk v hv
    refine Nat.lt_of_lt_of_le ?_ (hbelow.bounds (hextent t ht)).1
    rcases List.mem_append.1 ht with ht | ht
    · exact (hchild t ht).2.1.1
    · exact Nat.lt_of_lt_of_le hnode.bounds.1 (hfirst t ht)

/-- What a walk visits are the values on the stack and the children of what it visits. -/
theorem perm_of_walk {stack visited : List Span} (h : walk doc stack = .ok visited) :
    ∃ found, gather (childValues doc) visited = .ok found ∧ (stack ++ found).Perm visited := by
  fun_induction walk doc stack generalizing visited with
  | case1 =>
    cases h
    exact ⟨[], rfl, .refl []⟩
  | case2 => cases h
  | case3 node stack children hc ih =>
    obtain ⟨later, hwalk, rfl⟩ := map_eq_ok.1 h
    obtain ⟨found, hfound, hperm⟩ := ih hwalk
    refine ⟨children ++ found, gather_cons_eq_ok.2 ⟨children, found, hc, hfound, rfl⟩, ?_⟩
    refine .cons node ((List.perm_append_comm_assoc stack children found).trans ?_)
    rw [← List.append_assoc]
    exact hperm

end Descent

/-- The loop of a descent from an extent, as all values are that an evaluation comes upon, ends
within as many turns as the value has bytes. It gives what the traversal in preorder gives, be it
values or a fault. The values start one after another, the first is where the descent starts, and
the children of each are among them; from the root, the children of all of them are the matches of a
descent and a wildcard, and these are all values but the root, each of them once. -/
theorem descendants_preorder {doc : Bytes} {s : Span} (hs : s.IsExtent doc) :
    descendants doc s = Descent.preorder doc s ∧
    (∀ turns, s.length ≤ turns → Descent.loop doc turns [s] [] = some (Descent.preorder doc s)) ∧
    ∀ spans, descendants doc s = .ok spans →
      spans.Pairwise (·.start < ·.start) ∧ s ∈ spans ∧
      (∀ v ∈ spans, ∃ children, childValues doc v = .ok children ∧ ∀ c ∈ children, c ∈ spans) ∧
      (locateRoot doc = .ok s → ∃ found, Path.select [.descent, .wildcard] doc = .ok found ∧
        found.Perm (spans.erase s) ∧ found.Nodup) := by
  have hwalk : descendants doc s = Descent.preorder doc s := by
    rw [descendants, Descent.walk_eq_gather, gather_singleton]
  have hextent : ∀ t ∈ [s], t.IsExtent doc := by simpa using hs
  refine ⟨hwalk, fun turns hturns => ?_, fun spans hspans => ?_⟩
  · have hloop : Descent.loop doc turns [s] [] = some (([] ++ ·) <$> Descent.walk doc [s]) :=
      Descent.loop_eq_walk hextent hturns
    rw [← hwalk, hloop]
    exact congrArg some (id_map (descendants doc s))
  obtain ⟨found, hfound, hperm⟩ := Descent.perm_of_walk hspans
  have hascending := Descent.ascending_of_walk hextent (List.pairwise_singleton _ s) hspans
  have hperm' : (s :: found).Perm spans := hperm
  refine ⟨hascending, hperm'.mem_iff.1 (by simp), fun v hv => ?_, fun hroot => ?_⟩
  · obtain ⟨children, hchildren, hin⟩ := exists_of_gather hfound hv
    exact ⟨children, hchildren, fun c hc => hperm'.mem_iff.1 (List.mem_cons_of_mem s (hin c hc))⟩
  · have hselect : Path.select [.descent, .wildcard] doc = .ok found := by
      rw [Path.select_eq, hroot]
      show (Segment.stepAll ⟨doc, s⟩ [s] [.descent, .wildcard]).result = _
      rw [Segment.result_stepAll_cons, gather_singleton, Segment.result_step_descent, hspans]
      show (Segment.stepAll ⟨doc, s⟩ spans [.wildcard]).result = _
      rw [Segment.result_stepAll_cons]
      exact bind_eq_ok.2 ⟨found, hfound, rfl⟩
    have hnodup : spans.Nodup := hascending.imp fun hlt heq => Nat.ne_of_lt hlt (congrArg _ heq)
    exact ⟨found, hselect, (List.cons_perm_iff_perm_erase.1 hperm').2,
      (List.nodup_cons.1 (hperm'.nodup_iff.2 hnodup)).2⟩

/-- A descent through arrays and an object. -/
theorem descendants_preorder_nested :
    let doc := utf8 "[[1],\x7b\"a\":[]\x7d]"
    let spans : List Span := [⟨0, 14⟩, ⟨1, 4⟩, ⟨2, 3⟩, ⟨5, 13⟩, ⟨10, 12⟩]
    Span.IsExtent doc ⟨0, 14⟩ ∧ descendants doc ⟨0, 14⟩ = .ok spans ∧
    Descent.loop doc 14 [⟨0, 14⟩] [] = some (.ok spans) ∧ spans.Pairwise (·.start < ·.start) ∧
    ∃ found, Path.select [.descent, .wildcard] doc = .ok found ∧ found.Perm (spans.erase ⟨0, 14⟩) := by
  intro doc spans
  have hextent : Span.IsExtent doc ⟨0, 14⟩ := by
    rw [Span.IsExtent]
    decide +kernel
  have hspans : descendants doc ⟨0, 14⟩ = .ok spans := by decide +kernel
  obtain ⟨hwalk, hloop, hvisited⟩ := descendants_preorder hextent
  obtain ⟨hascending, -, -, hfound⟩ := hvisited spans hspans
  obtain ⟨found, hselect, hperm, -⟩ := hfound (by decide +kernel)
  refine ⟨hextent, hspans, ?_, hascending, found, hselect, hperm⟩
  rw [hloop 14 (by decide), ← hwalk, hspans]

end JsonSpan

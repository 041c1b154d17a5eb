import JsonSpan.Scan.Children

/-!
# Iterations from start to end

`Children.Gives cs children fault?` says what an iteration gives when it is asked for the next child
again and again: some children, and then nothing more, or a fault. It gives just one thing
(`Children.Gives.unique`), and this is what a listing holds (`Children.gives_iff`).
-/

namespace JsonSpan.Children

/-- What an iteration gives up to its end: children one by one, and the fault that ends it, if one
does. -/
inductive Gives : Children → List Child → Option Fault → Prop where
  | nothing {cs cs' : Children} (h : cs.next = (none, cs')) : Gives cs [] none
  | fault {cs cs' : Children} {fault : Fault} (h : cs.next = (some (.error fault), cs')) :
    Gives cs [] (some fault)
  | child {cs cs' : Children} {child : Child} {more : List Child} {fault? : Option Fault}
    (h : cs.next = (some (.ok child), cs')) (h' : Gives cs' more fault?) :
    Gives cs (child :: more) fault?

theorem Gives.unique {cs : Children} {as bs : List Child} {f g : Option Fault} (h : cs.Gives as f)
    (h' : cs.Gives bs g) : as = bs ∧ f = g := by
  induction h generalizing bs g with
  | nothing h =>
    cases h' with
    | nothing => exact ⟨rfl, rfl⟩
    | fault h₁ => cases h.symm.trans h₁
    | child h₁ => cases h.symm.trans h₁
  | fault h =>
    cases h' with
    | nothing h₁ => cases h.symm.trans h₁
    | fault h₁ =>
      cases h.symm.trans h₁
      exact ⟨rfl, rfl⟩
    | child h₁ => cases h.symm.trans h₁
  | child h _ ih =>
    cases h' with
    | nothing h₁ => cases h.symm.trans h₁
    | fault h₁ => cases h.symm.trans h₁
    | child h₁ h₂ =>
      cases h.symm.trans h₁
      obtain ⟨rfl, rfl⟩ := ih h₂
      exact ⟨rfl, rfl⟩

theorem gives_listChildren (container : Container) (fresh : Bool) (p : Place) :
    Gives ⟨container, p, fresh, false⟩ (p.listChildren container fresh).children
      (p.listChildren container fresh).fault? := by
  fun_induction Place.listChildren container fresh p with
  | case1 fresh p child q h later ih =>
    refine .child (?_ : _ = (_, (⟨container, q, false, false⟩ : Children))) ih
    rw [next, h]
    rfl
  | case2 fresh p q h =>
    refine .nothing (?_ : _ = (_, (⟨container, q, false, true⟩ : Children)))
    rw [next, h]
    rfl
  | case3 fresh p q h =>
    refine .fault (?_ : _ = (_, (⟨container, q, false, true⟩ : Children)))
    rw [next, h]
    rfl

/-- The iteration over a container gives what its listing holds. -/
theorem gives_iff {container : Container} {doc : Bytes} {offset : Nat} {children : List Child}
    {fault? : Option Fault} :
    (ofOffset container doc offset).Gives children fault? ↔
      Listing.ofOffset container doc offset = ⟨children, fault?⟩ := by
  have hlisted := gives_listChildren container true (.ofOffset doc (offset + 1))
  constructor
  · intro h
    obtain ⟨hchildren, hfault⟩ := hlisted.unique h
    rw [Listing.ofOffset, ← hchildren, ← hfault]
  · intro h
    rw [Listing.ofOffset] at h
    rw [h] at hlisted
    exact hlisted

end JsonSpan.Children

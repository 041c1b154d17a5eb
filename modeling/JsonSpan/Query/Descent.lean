import JsonSpan.Scan.Children

/-!
# Children and descendants

The children of a value, and the value with all values below it in the order in which they start.
The walk keeps the values yet to be visited on a stack: it takes the first, and puts the children of
that one in its place.

Children start after their parent and one after another. So if a value that starts `n` bytes before
the end of the document weighs `2 ^ n`, all its children together weigh less than it does, and the
weight on the stack bounds the walk.
-/

namespace JsonSpan

/-- The values of the children of the value at a span; a scalar has none. -/
def childValues (doc : Bytes) (s : Span) : Except Fault (List Span) := do
  let kind ← (Place.ofOffset doc s.start).kind
  match kind.container? with
  | some container => (Listing.ofOffset container doc s.start).values
  | none => return []

namespace Descent

/-- The weight of a value by its start. -/
def weight (doc : Bytes) (s : Span) : Nat :=
  Nat.pow 2 (doc.length - s.start)

/-- The weight of several values. -/
def totalWeight (doc : Bytes) : List Span → Nat
  | [] => 0
  | s :: ss => weight doc s + totalWeight doc ss

theorem totalWeight_append (doc : Bytes) (ss ts : List Span) :
    totalWeight doc (ss ++ ts) = totalWeight doc ss + totalWeight doc ts := by
  induction ss with
  | nil => simp [totalWeight]
  | cons s ss ih => simp [totalWeight, ih, Nat.add_assoc]

/-- Values that start one after another weigh together less than one that starts before them. -/
theorem totalWeight_lt (doc : Bytes) (low : Nat) (ss : List Span)
    (sorted : ss.Pairwise (·.start < ·.start))
    (range : ∀ s ∈ ss, low ≤ s.start ∧ s.start < doc.length) :
    totalWeight doc ss < Nat.pow 2 (doc.length + 1 - low) := by
  induction ss generalizing low with
  | nil => exact Nat.two_pow_pos _
  | cons s ss ih =>
    obtain ⟨hs, sorted⟩ := List.pairwise_cons.1 sorted
    have hr := range s (by simp)
    have hlt := ih (s.start + 1) sorted fun t ht => ⟨hs t ht, (range t (by simp [ht])).2⟩
    have hle : Nat.pow 2 (doc.length - s.start + 1) ≤ Nat.pow 2 (doc.length + 1 - low) :=
      Nat.pow_le_pow_right (by decide) (by omega)
    have he : doc.length + 1 - (s.start + 1) = doc.length - s.start := by omega
    rw [he] at hlt
    simp only [totalWeight, weight]
    simp only [Nat.pow_eq, Nat.pow_succ] at hlt hle ⊢
    omega

theorem totalWeight_childValues {doc : Bytes} {s : Span} {cs : List Span}
    (h : childValues doc s = .ok cs) : totalWeight doc cs < weight doc s := by
  simp only [childValues, bind, Except.bind] at h
  split at h
  · cases h
  · split at h
    · next container _ =>
      simp only [Listing.values] at h
      split at h
      · cases h
      · cases h
        obtain ⟨hs, hr⟩ :=
          Place.ascending_listChildren container true (Place.ofOffset doc (s.start + 1))
        have inside : ∀ v ∈ (((Place.ofOffset doc (s.start + 1)).listChildren container
            true).children.map Child.value), s.start + 1 ≤ v.start ∧ v.start < doc.length := by
          intro v hv
          obtain ⟨c, hc, rfl⟩ := List.mem_map.1 hv
          have := hr c hc
          simp only [Place.ofOffset, List.length_drop] at this
          omega
        have sorted : ((((Place.ofOffset doc (s.start + 1)).listChildren container
            true).children.map Child.value).Pairwise (·.start < ·.start)) :=
          List.pairwise_map.2 (List.pairwise_map.1 hs)
        simpa [weight, Listing.ofOffset] using totalWeight_lt doc (s.start + 1) _ sorted inside
    · cases h
      exact Nat.two_pow_pos _

/-- The values on a stack, each followed by all values below it. -/
def walk (doc : Bytes) (stack : List Span) : Except Fault (List Span) :=
  match stack with
  | [] => .ok []
  | node :: stack =>
    match _ : childValues doc node with
    | .error fault => .error fault
    | .ok children => (walk doc (children ++ stack)).map (node :: ·)
termination_by totalWeight doc stack
decreasing_by
  have := totalWeight_childValues ‹_›
  simp only [totalWeight_append, totalWeight]
  omega

end Descent

/-- A value and all values below it, parents before their children. -/
def descendants (doc : Bytes) (s : Span) : Except Fault (List Span) :=
  Descent.walk doc [s]

end JsonSpan

import JsonSpan.Scan.Progress

/-!
# The children of a container

The members of an object and the elements of an array, found one after the other from the byte after
the opening bracket. An iteration (`Children`) is a value: `next` gives one child, one fault, or
nothing, and the iteration to go on with. `Place.listChildren` runs one to its end; what a query does
with a container is a function of that listing.

Each child starts after the one before it has ended, so an iteration over finitely many bytes ends,
and the starts of its children ascend (`Place.ascending_listChildren`).
-/

namespace JsonSpan

/-- A member or element: the span of the key, quotes included, for a member, and of the value. -/
structure Child where
  key : Option Span
  value : Span
  deriving DecidableEq, Repr

/-- Which container is iterated over. -/
inductive Container where
  | object
  | array
  deriving DecidableEq, Repr

def Container.closer : Container → UInt8
  | object => Byte.closeBrace
  | array => Byte.closeBracket

/-- The container that a kind of value is, if it is one. -/
def Kind.container? : Kind → Option Container
  | object => some .object
  | array => some .array
  | _ => none

/-- What is found where a child may start: the start of a child, or the closer. -/
inductive Opening where
  | child (start : Place)
  | closer (place : Place)
  deriving DecidableEq, Repr

namespace Place

/-- Past what stands before a child: nothing for the first one, else a comma. -/
def openChild (container : Container) (fresh : Bool) (p : Place) : Except Place Opening :=
  let p := p.skipBlanks
  if p.byte? = some container.closer then .ok (.closer p)
  else if fresh then
    if p.rest.isEmpty then .error p else .ok (.child p)
  else do
    let q ← p.expect Byte.comma
    return .child q.skipBlanks

/-- The key of a member, and the place of its value. -/
def readKey (p : Place) : Except Place (Span × Place) := do
  if p.byte? = some Byte.quote then
    let (key, q) ← p.readValue
    let q ← q.skipBlanks.expect Byte.colon
    return (key, q.skipBlanks)
  else .error p

/-- The child at a place, with its key in an object, and the place after it. -/
def readChild (container : Container) (p : Place) : Except Place (Child × Place) := do
  match container with
  | .object =>
    let (key, q) ← p.readKey
    let (value, q) ← q.readValue
    return (⟨some key, value⟩, q)
  | .array =>
    let (value, q) ← p.readValue
    return (⟨none, value⟩, q)

/-- The next child from a place and the place after it, or no child and the place of the closer. -/
def nextChild (container : Container) (fresh : Bool) (p : Place) :
    Except Place (Option Child × Place) := do
  match ← p.openChild container fresh with
  | .closer q => return (none, q)
  | .child q =>
    let (child, q) ← q.readChild container
    return (some child, q)

theorem after_openChild {container : Container} {fresh : Bool} {p q : Place}
    (h : p.openChild container fresh = .ok (.child q)) : p.After q := by
  refine (after_skipBlanks p).trans ?_
  simp only [openChild] at h
  split at h
  · cases h
  · split at h
    · split at h <;> cases h
      exact After.refl _
    · simp only [bind, Except.bind, pure, Except.pure] at h
      split at h <;> cases h
      next hx => exact (past_expect hx).after.trans (after_skipBlanks _)

theorem past_readKey {p q : Place} {key : Span} (h : p.readKey = .ok (key, q)) : p.Past q := by
  simp only [readKey] at h
  split at h
  · simp only [bind, Except.bind, pure, Except.pure] at h
    split at h
    · cases h
    · next kv hk =>
      split at h
      · cases h
      · next r hr =>
        cases h
        exact (past_readValue hk).1.trans_after
          ((after_skipBlanks _).trans ((past_expect hr).after.trans (after_skipBlanks _)))
  · cases h

theorem past_readChild {container : Container} {p q : Place} {c : Child}
    (h : p.readChild container = .ok (c, q)) :
    p.offset ≤ c.value.start ∧ c.value.start < q.offset ∧ p.Past q := by
  cases container with
  | object =>
    simp only [readChild, bind, Except.bind, pure, Except.pure] at h
    split at h
    · cases h
    · next kv hk =>
      split at h
      · cases h
      · next vq hv =>
        cases h
        obtain ⟨hp, hs⟩ := past_readValue hv
        have hk := past_readKey hk
        exact ⟨by simpa [hs] using hk.after.offset_le, by simpa [hs] using hp.offset_lt,
          hk.trans_after hp.after⟩
  | array =>
    simp only [readChild, bind, Except.bind, pure, Except.pure] at h
    split at h
    · cases h
    · next vq hv =>
      cases h
      obtain ⟨hp, hs⟩ := past_readValue hv
      exact ⟨by simp [hs], by simpa [hs] using hp.offset_lt, hp⟩

theorem past_nextChild {container : Container} {fresh : Bool} {p q : Place} {c : Child}
    (h : p.nextChild container fresh = .ok (some c, q)) :
    p.offset ≤ c.value.start ∧ c.value.start < q.offset ∧ p.Past q := by
  simp only [nextChild, bind, Except.bind, pure, Except.pure] at h
  split at h
  · cases h
  · next o ho =>
    cases o with
    | closer r => cases h
    | child r =>
      simp only at h
      split at h
      · cases h
      · next cq hc =>
        cases h
        have ha := after_openChild ho
        obtain ⟨h₁, h₂, h₃⟩ := past_readChild hc
        exact ⟨Nat.le_trans ha.offset_le h₁, h₂, ha.trans_past h₃⟩

end Place

/-- An iteration over the children of a container: where it stands, whether it has yet to give its
first child, and whether it has ended. -/
structure Children where
  container : Container
  place : Place
  fresh : Bool
  ended : Bool
  deriving DecidableEq, Repr

namespace Children

/-- The iteration over the container whose opening bracket is at an offset in the bytes. -/
def ofOffset (container : Container) (doc : Bytes) (offset : Nat) : Children :=
  ⟨container, .ofOffset doc (offset + 1), true, false⟩

/-- The iteration over a span that starts at any machine word, whatever is there. The sum wraps around:
behind the last word comes the first one, and the iteration starts at the front of the bytes. -/
def ofWord {width : Nat} (container : Container) (doc : Bytes) (start : BitVec width) : Children :=
  ⟨container, .ofOffset doc (start + 1).toNat, true, false⟩

/-- The same where a sum that overflows stops the program: there is no word behind the last one. -/
def ofWord? {width : Nat} (container : Container) (doc : Bytes) (start : BitVec width) :
    Option Children :=
  if start = .allOnes width then none else some (ofWord container doc start)

/-- One step: a child, a fault, or nothing once the iteration has ended. A fault ends it. -/
def next (cs : Children) : Option (Except Fault Child) × Children :=
  if cs.ended then (none, cs)
  else
    match cs.place.nextChild cs.container cs.fresh with
    | .ok (some child, place) => (some (.ok child), { cs with place, fresh := false })
    | .ok (none, place) => (none, { cs with place, fresh := false, ended := true })
    | .error place => (some (.error place.fault), { cs with place, fresh := false, ended := true })

end Children

/-- What an iteration gives from start to end: its children, and the fault that cut it short. -/
structure Listing where
  children : List Child
  fault? : Option Fault
  deriving DecidableEq, Repr

namespace Place

/-- All children from a place on. -/
def listChildren (container : Container) (fresh : Bool) (p : Place) : Listing :=
  match _ : p.nextChild container fresh with
  | .ok (some child, q) =>
    let later := q.listChildren container false
    ⟨child :: later.children, later.fault?⟩
  | .ok (none, _) => ⟨[], none⟩
  | .error q => ⟨[], some q.fault⟩
termination_by p.rest.length
decreasing_by exact (past_nextChild ‹_›).2.2.length_lt

end Place

namespace Listing

/-- All children of the container whose opening bracket is at an offset. -/
def ofOffset (container : Container) (doc : Bytes) (offset : Nat) : Listing :=
  (Place.ofOffset doc (offset + 1)).listChildren container true

def values (l : Listing) : Except Fault (List Span) :=
  match l.fault? with
  | some f => .error f
  | none => .ok (l.children.map (·.value))

/-- The first child that passes a test; a fault counts only if none before it does. -/
def find? (l : Listing) (test : Child → Bool) : Except Fault (Option Span) :=
  match l.children.find? test with
  | some child => .ok (some child.value)
  | none =>
    match l.fault? with
    | some f => .error f
    | none => .ok none

/-- The child at an index; a fault counts only if it comes before that child. -/
def get? (l : Listing) (i : Nat) : Except Fault (Option Span) :=
  match l.children[i]? with
  | some child => .ok (some child.value)
  | none =>
    match l.fault? with
    | some f => .error f
    | none => .ok none

end Listing

/-- The values of a listing start later and later, the first of them not before `p`. -/
theorem Place.ascending_listChildren (container : Container) (fresh : Bool) (p : Place) :
    ((p.listChildren container fresh).children.map (·.value.start)).Pairwise (· < ·) ∧
      ∀ c ∈ (p.listChildren container fresh).children,
        p.offset ≤ c.value.start ∧ c.value.start < p.offset + p.rest.length := by
  induction hn : p.rest.length using Nat.strongRecOn generalizing p fresh with
  | ind n ih =>
    rw [Place.listChildren]
    split
    · next child q h =>
      obtain ⟨h₁, h₂, h₃⟩ := Place.past_nextChild h
      have hl := h₃.length_lt
      obtain ⟨t, _, e, o⟩ := h₃
      have he : p.rest.length = t.length + q.rest.length := by rw [e, List.length_append]
      obtain ⟨hp, hc⟩ := ih q.rest.length (by omega) false q rfl
      constructor
      · simp only [List.map_cons, List.pairwise_cons]
        refine ⟨fun x hx => ?_, hp⟩
        obtain ⟨c, hm, rfl⟩ := List.mem_map.1 hx
        have := (hc c hm).1
        omega
      · intro c hm
        rcases List.mem_cons.1 hm with rfl | hm
        · omega
        · have := hc c hm
          omega
    · simp
    · simp

/-- Whether the bytes between the quotes of a key are a name, byte for byte. A key with a backslash
is no name. -/
def keyMatches (doc : Bytes) (key : Span) (name : String) : Bool :=
  let raw := Span.slice ⟨key.start + 1, key.stop - 1⟩ doc
  !raw.contains Byte.backslash && raw == utf8 name

/-- Whether a child is the member of a name. -/
def Child.isNamed (doc : Bytes) (name : String) (child : Child) : Bool :=
  match child.key with
  | some key => keyMatches doc key name
  | none => false

/-- The value of the first member with a name, in the object whose bracket is at an offset. -/
def findMember (doc : Bytes) (offset : Nat) (name : String) : Except Fault (Option Span) :=
  (Listing.ofOffset .object doc offset).find? (Child.isNamed doc name)

end JsonSpan

import JsonSpan.Proofs.Query.Below
import JsonSpan.Query.Answer

/-!
# Evaluation with its accesses checked

The evaluator cuts spans out of the document and picks values by position without asking whether
they are there: where a key is compared with a name, where an index counts from the end or a slice
picks elements, where the scalar at a span is read, and where matches are written. Here every one of
these accesses is checked, and one that is out of range halts the evaluation.

From the root of a document none ever is: the checked evaluation of a segment agrees with the
unchecked one wherever it starts at the extent of a value (`Checked.step_eq`), and everything that it
reaches from there is the extent of a value again.
-/

namespace JsonSpan

/-- Why a checked evaluation gives nothing: the document is at fault, or an access was out of
range. -/
inductive Halt where
  | fault (fault : Fault)
  | outOfRange
  deriving DecidableEq, Repr

/-- The bytes of a span that lies in a document. -/
def Span.slice? (s : Span) (doc : Bytes) : Option Bytes :=
  if s.start ≤ s.stop ∧ s.stop ≤ doc.length then some (s.slice doc) else none

namespace Checked

/-- A computation without accesses, as a checked one. -/
def lift {α : Type} (x : Except Fault α) : Except Halt α :=
  x.mapError .fault

/-- An access, out of range if it gives nothing. -/
def access {α : Type} : Option α → Except Halt α
  | some a => .ok a
  | none => .error .outOfRange

/-! ### The checked evaluator -/

/-- Whether the bytes between the quotes of a key are a name. -/
def keyMatches (doc : Bytes) (key : Span) (name : String) : Except Halt Bool := do
  let raw ← access
    (if 0 < key.stop then Span.slice? ⟨key.start + 1, key.stop - 1⟩ doc else none)
  return !raw.contains Byte.backslash && raw == utf8 name

def findNamed (doc : Bytes) (name : String) : List Child → Except Halt (Option Span)
  | [] => .ok none
  | ⟨none, _⟩ :: more => findNamed doc name more
  | ⟨some key, value⟩ :: more => do
    if ← keyMatches doc key name then return some value else findNamed doc name more

/-- The value of the first member with a name, in the object whose bracket is at an offset. -/
def findMember (doc : Bytes) (offset : Nat) (name : String) : Except Halt (Option Span) := do
  let listing := Listing.ofOffset .object doc offset
  match ← findNamed doc name listing.children, listing.fault? with
  | none, some f => .error (.fault f)
  | found, _ => return found

def field (site : Site) (name : String) (s : Span) : Except Halt (List Span) := do
  if (← lift (site.kind s)) = .object then
    return (← findMember site.doc s.start name).toList
  else return []

def index (site : Site) (i : Int) (s : Span) : Except Halt (List Span) := do
  if (← lift (site.kind s)) = .array then
    let listing := Listing.ofOffset .array site.doc s.start
    if 0 ≤ i then return (← lift (listing.get? i.toNat)).toList
    else
      let values ← lift listing.values
      let position := (values.length : Int) + i
      if 0 ≤ position then return [← access values[position.toNat]?] else return []
  else return []

def pickAll (values : List Span) : List Nat → Except Halt (List Span)
  | [] => .ok []
  | i :: more => do return (← access values[i]?) :: (← pickAll values more)

def slice (site : Site) (start stop step : Option Int) (s : Span) : Except Halt (List Span) := do
  if (← lift (site.kind s)) = .array then
    let values ← lift (Listing.ofOffset .array site.doc s.start).values
    pickAll values (Slice.indices values.length start stop step)
  else return []

def union (site : Site) (s : Span) : List Selector → Except Halt (List Span)
  | [] => .ok []
  | .name name :: more => do return (← field site name s) ++ (← union site s more)
  | .index i :: more => do return (← index site i.toInt s) ++ (← union site s more)

/-- The scalar that is the only value, if there is just one and it is a scalar. -/
def onlyScalar (site : Site) : List Span → Except Halt (Option Scalar)
  | [s] => do
    let raw ← access (s.slice? site.doc)
    let kind ← lift (site.kind s)
    return Scalar.ofBytes kind raw
  | _ => .ok none

mutual

def step (site : Site) (s : Span) : Segment → Except Halt (List Span)
  | .field name => field site name s
  | .wildcard => lift (childValues site.doc s)
  | .index i => index site i.toInt s
  | .slice start stop stride =>
    slice site (start.map (·.toInt)) (stop.map (·.toInt)) (stride.map (·.toInt)) s
  | .union selectors => union site s selectors
  | .descent => lift (descendants site.doc s)
  | .filter condition => lift (childValues site.doc s) >>= pick fun child => test site child condition

def stepAll (site : Site) (spans : List Span) : List Segment → Except Halt (List Span)
  | [] => .ok spans
  | segment :: more => do
    let reached ← gather (fun s => step site s segment) spans
    stepAll site reached more

/-- Whether a condition holds of the value at a span. -/
def test (site : Site) (s : Span) : Condition → Except Halt Bool
  | .or left right => do if ← test site s left then return true else test site s right
  | .and left right => do if ← test site s left then test site s right else return false
  | .not inner => do return !(← test site s inner)
  | .compare left op right => do
    let a ← resolve site s left
    let b ← resolve site s right
    return Scalar.comparesBoth a op b
  | .like operand pattern => do return pattern.matchesScalar (← resolve site s operand)
  | .present operand => leads site s operand

/-- The scalar that an operand stands for, if it stands for one. -/
def resolve (site : Site) (s : Span) : Operand → Except Halt (Option Scalar)
  | .literal value => .ok (some (.ofLiteral value))
  | .current segments => stepAll site [s] segments >>= onlyScalar site
  | .root segments => stepAll site [site.root] segments >>= onlyScalar site

/-- Whether an operand leads anywhere. -/
def leads (site : Site) (s : Span) : Operand → Except Halt Bool
  | .literal _ => .ok true
  | .current segments => do return !(← stepAll site [s] segments).isEmpty
  | .root segments => do return !(← stepAll site [site.root] segments).isEmpty

end

/-- The matches of a path. -/
def select (p : Path) (doc : Bytes) : Except Halt (List Span) := do
  let root ← lift (locateRoot doc)
  stepAll ⟨doc, root⟩ [root] p

def laterPieces (doc : Bytes) : List Span → Except Halt (List Bytes)
  | [] => .ok []
  | s :: more => do
    let piece ← access (s.slice? doc)
    return [Byte.comma] :: piece :: (← laterPieces doc more)

def matchPieces (doc : Bytes) : List Span → Except Halt (List Bytes)
  | [] => .ok []
  | [s] => do return [← access (s.slice? doc)]
  | s :: more => do
    let first ← access (s.slice? doc)
    return [Byte.openBracket] :: first :: (← laterPieces doc more) ++ [[Byte.closeBracket]]

/-- The bytes of the matches of a path. -/
def answer (p : Path) (doc : Bytes) : Except Halt Bytes := do
  return (← matchPieces doc (← select p doc)).flatten

/-! ### Checked and unchecked computations, step by step -/

variable {α β : Type}

@[simp] theorem lift_ok (a : α) : lift (.ok a) = .ok a := rfl

@[simp] theorem lift_error (f : Fault) : lift (.error f : Except Fault α) = .error (.fault f) := rfl

theorem lift_bind {x : Except Fault α} {f : α → Except Fault β} {g : α → Except Halt β}
    (h : ∀ a, x = .ok a → g a = lift (f a)) : (lift x >>= g) = lift (x >>= f) := by
  cases x with
  | error fault => rfl
  | ok a => exact h a rfl

theorem gather_eq_lift {f : α → Except Fault (List β)} {g : α → Except Halt (List β)} {as : List α}
    (h : ∀ a ∈ as, g a = lift (f a)) : gather g as = lift (gather f as) := by
  induction as with
  | nil => rfl
  | cons a as ih =>
    rw [gather, gather, h a (by simp)]
    refine lift_bind fun bs _ => ?_
    rw [ih fun b hb => h b (by simp [hb])]
    exact lift_bind fun _ _ => rfl

theorem pick_eq_lift {f : α → Except Fault Bool} {g : α → Except Halt Bool} {as : List α}
    (h : ∀ a ∈ as, g a = lift (f a)) : pick g as = lift (pick f as) := by
  induction as with
  | nil => rfl
  | cons a as ih =>
    rw [pick, pick, h a (by simp)]
    refine lift_bind fun keep _ => ?_
    rw [ih fun b hb => h b (by simp [hb])]
    exact lift_bind fun _ _ => rfl

theorem slice?_eq {s : Span} {doc : Bytes} (h₁ : s.start ≤ s.stop) (h₂ : s.stop ≤ doc.length) :
    s.slice? doc = some (s.slice doc) :=
  if_pos ⟨h₁, h₂⟩

end Checked

end JsonSpan

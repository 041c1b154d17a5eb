import JsonSpan.Proofs.Tree.Spelling
import JsonSpan.Query.Scalar
import JsonSpan.Query.Slice

/-!
# Selection from a tree

What paths mean, without a document: a JSON value is a tree, and a path selects nodes of it. A node
is an address, the positions of the children on the way down from the root, together with the tree
that is found there. Strings and numbers are kept as they are written, since a key is compared with
a name as it is written.

Nothing here can fail. A segment that does not fit a value selects nothing from it.
-/

namespace JsonSpan

/-- A JSON value. The members of an object are ordered, and a key may occur twice. -/
inductive Json where
  | null
  | boolean (b : Bool)
  | number (n : Numeral)
  | string (t : Token)
  | array (items : List Json)
  | object (members : List (Token × Json))

namespace Json

def children : Json → List Json
  | array items => items
  | object members => members.map (·.2)
  | _ => []

def keys : Json → List Token
  | object members => members.map (·.1)
  | _ => []

def isArray : Json → Bool
  | array _ => true
  | _ => false

/-- The scalar that conditions compare, unless the value has children or is a string without a
text. -/
def scalar? : Json → Option Scalar
  | null => some .null
  | boolean b => some (.boolean b)
  | number n => some (.number (.ofDecimal n.value))
  | string t => t.text?.map .text
  | _ => none

theorem sizeOf_lt_of_mem_children {t child : Json} (h : child ∈ t.children) :
    sizeOf child < sizeOf t := by
  cases t with
  | array items =>
    have hm : child ∈ items := h
    have := List.sizeOf_lt_of_mem hm
    simp only [array.sizeOf_spec]
    omega
  | object members =>
    obtain ⟨⟨key, value⟩, hm, rfl⟩ := List.mem_map.1 h
    have := List.sizeOf_lt_of_mem hm
    simp only [object.sizeOf_spec, Prod.mk.sizeOf_spec] at this ⊢
    omega
  | _ => simp [children] at h

end Json

/-- A node of a tree. -/
structure Node where
  address : List Nat
  value : Json

namespace Node

/-- The nodes right below a node, in order. -/
def children (n : Node) : List Node :=
  n.value.children.mapIdx fun i t => ⟨n.address ++ [i], t⟩

theorem sizeOf_lt_of_mem_children {n child : Node} (h : child ∈ n.children) :
    sizeOf child.value < sizeOf n.value := by
  obtain ⟨i, hi, rfl⟩ := List.mem_mapIdx.1 h
  exact Json.sizeOf_lt_of_mem_children (List.getElem_mem hi)

def field (n : Node) (name : String) : List Node :=
  (((n.value.keys.zip n.children).find? (·.1.isName name)).map (·.2)).toList

/-- The element at an index of an array, a negative index counting from the end. -/
def index (n : Node) (i : Int) : List Node :=
  if n.value.isArray then
    let position := if 0 ≤ i then i else n.children.length + i
    if 0 ≤ position then (n.children[position.toNat]?).toList else []
  else []

/-- The elements of an array that a slice picks. -/
def slice (n : Node) (start stop step : Option Int) : List Node :=
  if n.value.isArray then
    (Slice.indices n.children.length start stop step).filterMap (n.children[·]?)
  else []

def selector (n : Node) : Selector → List Node
  | .name name => n.field name
  | .index i => n.index i.toInt

/-- The node and all nodes below it, each before those below it. -/
def preorder (n : Node) : List Node :=
  n :: n.children.attach.flatMap fun ⟨child, _⟩ => child.preorder
termination_by sizeOf n.value
decreasing_by exact sizeOf_lt_of_mem_children ‹_›

theorem preorder_eq (n : Node) : n.preorder = n :: n.children.flatMap preorder := by
  rw [preorder]
  simp

end Node

/-- The scalar of a single node; several nodes, or none, have no scalar. -/
def Node.onlyScalar : List Node → Option Scalar
  | [n] => n.value.scalar?
  | _ => none

mutual

/-- The nodes that a segment selects from one. -/
def Segment.nodes (root n : Node) : Segment → List Node
  | .field name => n.field name
  | .wildcard => n.children
  | .index i => n.index i.toInt
  | .slice start stop step =>
    n.slice (start.map (·.toInt)) (stop.map (·.toInt)) (step.map (·.toInt))
  | .union selectors => selectors.flatMap n.selector
  | .descent => n.preorder
  | .filter condition => n.children.filter fun child => condition.holds root child

/-- The nodes that segments select from some, one segment after the other, and each from the nodes
in turn. -/
def Segment.nodesAll (root : Node) (nodes : List Node) : List Segment → List Node
  | [] => nodes
  | segment :: more => Segment.nodesAll root (nodes.flatMap fun n => segment.nodes root n) more

/-- Whether a condition holds of a node. -/
def Condition.holds (root n : Node) : Condition → Bool
  | .or left right => left.holds root n || right.holds root n
  | .and left right => left.holds root n && right.holds root n
  | .not inner => !inner.holds root n
  | .compare left op right =>
    match left.scalarOf root n, right.scalarOf root n with
    | some a, some b => a.compares op b
    | _, _ => false
  | .like operand pattern =>
    match operand.scalarOf root n with
    | some (.text cs) => pattern.isMatch cs
    | _ => false
  | .present operand => operand.leads root n

/-- The scalar that an operand stands for: a constant, or that of the only node its path selects. -/
def Operand.scalarOf (root n : Node) : Operand → Option Scalar
  | .literal value => some (.ofLiteral value)
  | .current segments => Node.onlyScalar (Segment.nodesAll root [n] segments)
  | .root segments => Node.onlyScalar (Segment.nodesAll root [root] segments)

/-- Whether an operand is a constant or its path selects anything. -/
def Operand.leads (root n : Node) : Operand → Bool
  | .literal _ => true
  | .current segments => !(Segment.nodesAll root [n] segments).isEmpty
  | .root segments => !(Segment.nodesAll root [root] segments).isEmpty

end

/-- The nodes that a path selects from a tree. -/
def Json.select (t : Json) (p : Path) : List Node :=
  Segment.nodesAll ⟨[], t⟩ [⟨[], t⟩] p

end JsonSpan

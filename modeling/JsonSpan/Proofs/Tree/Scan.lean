import JsonSpan.Proofs.Scan.Items
import JsonSpan.Proofs.Tree.Numbers

/-!
# Scanning layouts

A layout is written in the dialect of the scanners, its children as the items of its container. So the
scanners find the parts of a layout where they lie: a value is skipped up to its last byte
(`Layout.skipValue_bytes`), and the children listed in a container are those of the layout
(`Layouts.listChildren_bytes`).
-/

namespace JsonSpan

open Place

/-! ### The kind of a layout -/

def Layout.kind : Layout → Kind
  | null => .null
  | boolean _ => .boolean
  | number _ => .number
  | string _ => .string
  | container .array _ _ => .array
  | container .object _ _ => .object

theorem Layout.kind?_bytes (l : Layout) (offset : Nat) (r : Bytes) :
    (Place.mk offset (l.bytes ++ r)).kind? = some l.kind := by
  cases l with
  | null => rfl
  | boolean b => cases b <;> rfl
  | number n => exact n.isNumber.kind? offset r
  | string t => rfl
  | container c lead children => cases c <;> rfl

theorem Layout.noBlank (l : Layout) (r : Bytes) : NoBlank (l.bytes ++ r) :=
  Kind.noBlank (l.kind?_bytes 0 r)

/-! ### Children as items -/

/-- A label as that of an item. -/
def Container.itemLabel : (c : Container) → c.Label → Dialect.Label c
  | array, _ => ()
  | object, (key : Key) => Dialect.Key.mk key.token.bytes key.token.isString key.before key.after

def Layouts.items {c : Container} : Layouts c → List (Dialect.Item c)
  | .nil => []
  | .cons before label value after more =>
    ⟨before, c.itemLabel label, value.bytes, after⟩ :: more.items

theorem Container.labelBytes_itemLabel {c : Container} (label : c.Label) :
    Dialect.labelBytes c (c.itemLabel label) = c.labelBytes label := by
  cases c <;> rfl

theorem Container.keySpan_itemLabel {c : Container} (label : c.Label) (offset : Nat) :
    Dialect.keySpan offset c (c.itemLabel label) = c.keySpan offset label := by
  cases c <;> rfl

theorem Layouts.itemsBytes_items {c : Container} : (children : Layouts c) → (first : Bool) →
    Dialect.itemsBytes first children.items = children.bytes first
  | .nil, _ => rfl
  | .cons before label value after more, first => by
    rw [items, Dialect.itemsBytes, Container.labelBytes_itemLabel, more.itemsBytes_items, Layouts.bytes]

theorem Layouts.childrenAt_items {c : Container} : (children : Layouts c) → (first : Bool) →
    (offset : Nat) →
    Dialect.childrenAt first offset children.items = (children.spots first offset).map Spot.child
  | .nil, _, _ => rfl
  | .cons before label value after more, first, offset => by
    rw [items, Dialect.childrenAt, Layouts.spots]
    simp only [Container.labelBytes_itemLabel, Container.keySpan_itemLabel, more.childrenAt_items]
    rfl

/-! ### The end of a value -/

theorem Layout.stops_of_ends (l : Layout) {r : Bytes} (h : Numeral.Ends r) : l.Stops r := by
  cases l <;> first | exact h | trivial

theorem Layouts.ends_after {c : Container} (children : Layouts c) (after : Blanks) {r : Bytes}
    (h : Numeral.Ends r) : Numeral.Ends (after.bytes ++ (children.bytes false ++ r)) := by
  rw [← children.itemsBytes_items]
  exact Dialect.ends_after after children.items h

mutual

theorem Layout.skipValue_bytes : (l : Layout) → (offset : Nat) → (r : Bytes) → l.Stops r →
    (Place.mk offset (l.bytes ++ r)).skipValue = .ok ⟨offset + l.bytes.length, r⟩
  | .null, offset, r, _ => skipWord_append (utf8 "null") offset r
  | .boolean true, offset, r, _ => skipWord_append (utf8 "true") offset r
  | .boolean false, offset, r, _ => skipWord_append (utf8 "false") offset r
  | .number n, offset, _, h => (Dialect.IsScalar.number n.isNumber).skipValue h offset
  | .string t, offset, r, _ => t.isString.skipValue offset r
  | .container c lead children, offset, r, _ => by
    have hskip := Dialect.skipValue_container lead children.isSkipped_items offset r
    rwa [Dialect.containerBytes, children.itemsBytes_items] at hskip

theorem Layouts.isSkipped_items {c : Container} : (children : Layouts c) →
    ∀ item ∈ children.items, Dialect.IsSkipped item.value
  | .nil => List.forall_mem_nil _
  | .cons _ _ value _ more =>
    List.forall_mem_cons.2 ⟨fun offset r hr => value.skipValue_bytes offset r (value.stops_of_ends hr),
      more.isSkipped_items⟩

end

theorem Layout.readValue_bytes (l : Layout) (offset : Nat) {r : Bytes} (h : l.Stops r) :
    (Place.mk offset (l.bytes ++ r)).readValue =
      .ok (⟨offset, offset + l.bytes.length⟩, ⟨offset + l.bytes.length, r⟩) := by
  rw [readValue, l.skipValue_bytes offset r h]

/-- The children that are listed are those of the layout, without a fault. -/
theorem Layouts.listChildren_bytes {c : Container} (children : Layouts c) (first : Bool)
    (blanks : Blanks) (offset : Nat) (r : Bytes) :
    (Place.mk offset (blanks.bytes ++ (children.bytes first ++ c.closer :: r))).listChildren c first =
      ⟨(children.spots first (offset + blanks.bytes.length)).map Spot.child, none⟩ := by
  rw [← children.itemsBytes_items, ← children.childrenAt_items]
  exact Dialect.listChildren_items children.isSkipped_items first blanks offset r

end JsonSpan

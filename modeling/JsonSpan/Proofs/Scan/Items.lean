import JsonSpan.Proofs.Scan.Dialect

/-!
# Containers whose items can be skipped

Bytes that the scanners skip as a whole, whatever they hold inside (`IsSkipped`), can be put together
to a container: its items are separated by commas, each with blanks around it and with a key in an
object. Such a container is skipped as a whole again (`skipValue_container`), and its items are the
children that are listed in it (`listChildren_items`). In the other direction, whatever is listed
without a fault has this form (`exists_items`).
-/

namespace JsonSpan

open Place

/-! ### Pieces of a document -/

theorem drop_of_append {doc bs r : Bytes} {offset : Nat} (h : doc.drop offset = bs ++ r) :
    doc.drop (offset + bs.length) = r := by
  rw [← List.drop_drop, h, List.drop_left]

theorem slice_of_append {doc bs r : Bytes} {offset : Nat} (h : doc.drop offset = bs ++ r) :
    Span.slice ⟨offset, offset + bs.length⟩ doc = bs := by
  rw [Span.slice, List.drop_take, Nat.add_sub_cancel_left, h, List.take_left]

/-! ### Blanks and closers -/

theorem Place.matchBrackets_run {bs : Bytes} (h : ∀ b ∈ bs, IsPlain b) (owed : Bytes) (offset : Nat)
    (r : Bytes) :
    matchBrackets owed .outside offset (bs ++ r) =
      matchBrackets owed .outside (offset + bs.length) r :=
  matchBrackets_plainly (p := ⟨offset, bs ++ r⟩) (q := ⟨offset + bs.length, r⟩) ⟨bs, h, rfl, rfl⟩

theorem Blanks.isPlain (blanks : Blanks) : ∀ b ∈ blanks.bytes, IsPlain b :=
  fun b hb => isPlain_of_isBlank (blanks.blank b hb)

theorem Numeral.ends_cons {b : UInt8} (h : Byte.extendsNumber b = false) (r : Bytes) :
    Numeral.Ends (b :: r) := by
  intro b' hb'
  cases hb'
  exact h

theorem Numeral.ends_blanks (blanks : Blanks) {r : Bytes} (h : Numeral.Ends r) :
    Numeral.Ends (blanks.bytes ++ r) := by
  obtain ⟨bs, hb⟩ := blanks
  cases bs with
  | nil => exact h
  | cons b bs =>
    have hblank := hb b (by simp)
    refine Numeral.ends_cons ?_ _
    simp only [Byte.isBlank, Bool.or_eq_true, beq_iff_eq] at hblank
    rcases hblank with ((rfl | rfl) | rfl) | rfl <;> decide

theorem Container.ends_closer (c : Container) (r : Bytes) : Numeral.Ends (c.closer :: r) := by
  cases c <;> exact Numeral.ends_cons (by decide) r

/-- What blanks can be skipped up to. -/
def NoBlank (r : Bytes) : Prop :=
  ∀ b ∈ r.head?, Byte.isBlank b = false

theorem Kind.noBlank {offset : Nat} {r : Bytes} {k : Kind}
    (h : (Place.mk offset r).kind? = some k) : NoBlank r := by
  intro b hb
  have hk : Kind.ofByte? b = some k := by
    cases r with
    | nil => cases hb
    | cons b' r =>
      cases hb
      exact h
  cases hblank : Byte.isBlank b with
  | false => rfl
  | true =>
    simp only [Byte.isBlank, Bool.or_eq_true, beq_iff_eq] at hblank
    rcases hblank with ((rfl | rfl) | rfl) | rfl <;> cases hk

theorem noBlank_cons {b : UInt8} (h : Byte.isBlank b = false) (r : Bytes) : NoBlank (b :: r) := by
  intro b' hb'
  cases hb'
  exact h

theorem Place.skipBlanks_append {bs r : Bytes} (hbs : ∀ b ∈ bs, Byte.isBlank b) (hr : NoBlank r)
    (offset : Nat) : (Place.mk offset (bs ++ r)).skipBlanks = ⟨offset + bs.length, r⟩ :=
  skipWhile_exact hbs hr offset

theorem Container.noBlank_closer (c : Container) (r : Bytes) : NoBlank (c.closer :: r) := by
  cases c <;> exact noBlank_cons (by decide) r

/-! ### The next child -/

theorem Place.openChild_closer {c : Container} (fresh : Bool) (blanks : Blanks) (offset : Nat)
    (r : Bytes) : (Place.mk offset (blanks.bytes ++ c.closer :: r)).openChild c fresh =
      .ok (.closer ⟨offset + blanks.bytes.length, c.closer :: r⟩) := by
  rw [openChild, skipBlanks_append blanks.blank (c.noBlank_closer r)]
  exact if_pos rfl

theorem Place.openChild_first {c : Container} {bs r : Bytes} (hbs : ∀ b ∈ bs, Byte.isBlank b)
    {b : UInt8} (hr : r.head? = some b) (hblank : Byte.isBlank b = false) (hb : b ≠ c.closer)
    (offset : Nat) :
    (Place.mk offset (bs ++ r)).openChild c true = .ok (.child ⟨offset + bs.length, r⟩) := by
  have hno : NoBlank r := by
    intro b' hb'
    rw [hr] at hb'
    cases hb'
    exact hblank
  rw [openChild, skipBlanks_append hbs hno]
  cases r with
  | nil => cases hr
  | cons b' r =>
    cases hr
    have hne : ¬ (Place.mk (offset + bs.length) (b :: r)).byte? = some c.closer :=
      fun h => hb (Option.some.inj h)
    exact if_neg hne

theorem Place.openChild_later {c : Container} {bs bs' r : Bytes}
    (hbs : ∀ b ∈ bs, Byte.isBlank b) (hbs' : ∀ b ∈ bs', Byte.isBlank b) (hr : NoBlank r)
    (offset : Nat) :
    (Place.mk offset (bs ++ Byte.comma :: (bs' ++ r))).openChild c false =
      .ok (.child ⟨offset + bs.length + 1 + bs'.length, r⟩) := by
  have hno := noBlank_cons (b := Byte.comma) (by decide) (bs' ++ r)
  have hne : ¬ (Place.mk (offset + bs.length) (Byte.comma :: (bs' ++ r))).byte? = some c.closer := by
    intro h
    cases c <;> exact absurd (Option.some.inj h) (by decide)
  rw [openChild, skipBlanks_append hbs hno]
  refine (if_neg hne).trans ?_
  show Except.ok (Opening.child (Place.skipBlanks ⟨_ + 1, bs' ++ r⟩)) = _
  rw [skipBlanks_append hbs' hr]

theorem Place.listChildren_child {c : Container} {fresh : Bool} {p q : Place} {child : Child}
    (h : p.nextChild c fresh = .ok (some child, q)) :
    p.listChildren c fresh =
      ⟨child :: (q.listChildren c false).children, (q.listChildren c false).fault?⟩ := by
  rw [listChildren]
  split
  · next h' =>
    rw [h] at h'
    cases h'
    rfl
  · next h' =>
    rw [h] at h'
    cases h'
  · next h' =>
    rw [h] at h'
    cases h'

theorem Place.listChildren_closer {c : Container} {fresh : Bool} {p q : Place}
    (h : p.nextChild c fresh = .ok (none, q)) : p.listChildren c fresh = ⟨[], none⟩ := by
  rw [listChildren]
  split
  · next h' =>
    rw [h] at h'
    cases h'
  · rfl
  · next h' =>
    rw [h] at h'
    cases h'

namespace Dialect

/-! ### Bytes that are skipped -/

/-- All of the bytes are skipped as one value, unless they are a number that goes on behind them. -/
def IsSkipped (t : Bytes) : Prop :=
  ∀ (offset : Nat) (r : Bytes), Numeral.Ends r →
    Place.skipValue ⟨offset, t ++ r⟩ = .ok ⟨offset + t.length, r⟩

theorem IsScalar.isSkipped {t : Bytes} (h : IsScalar t) : IsSkipped t :=
  fun offset _ hr => h.skipValue hr offset

theorem numeral_ends_nil : Numeral.Ends [] :=
  fun _ hb => nomatch hb

theorem IsSkipped.exists_kind {t : Bytes} (h : IsSkipped t) :
    ∃ b more k, t = b :: more ∧ Kind.ofByte? b = some k := by
  have hskip := h 0 [] numeral_ends_nil
  rw [List.append_nil, skipValue] at hskip
  cases t with
  | nil => cases hskip
  | cons b more =>
    cases hk : Kind.ofByte? b with
    | some k => exact ⟨b, more, k, rfl, hk⟩
    | none =>
      have hkind : (Place.mk 0 (b :: more)).kind? = none := hk
      rw [hkind] at hskip
      cases hskip

/-- What is skipped as a whole is skipped behind any bytes, and a number in front of any. -/
theorem isSkipped_of_isExtent {t : Bytes} (h : (Span.whole t).IsExtent t) : IsSkipped t := by
  intro offset r hr
  have hall : (Place.ofOffset t 0).skipValue = .ok (.ofOffset t t.length) := h.skipValue
  by_cases hk : (Place.ofOffset t 0).kind? = some .number
  · rw [skipValue, hk] at hall
    obtain ⟨u, hu, hcovers⟩ := exists_isNumber hall
    have ht : t = u := by
      have hrest : t.drop 0 = u ++ t.drop t.length := hcovers.1
      rwa [List.drop_zero, List.drop_length, List.append_nil] at hrest
    exact (IsScalar.number (ht ▸ hu)).skipValue hr offset
  · let f : Frame := ⟨List.replicate offset 0, r⟩
    have hframe := skipValue_frame_of_ok (f := f) hall hk
    have hbefore : f.before.length = offset := List.length_replicate
    simpa [Frame.place, ofOffset, hbefore, f, Nat.add_comm] using hframe

/-! ### Items -/

/-- A key with its colon, and the blanks on both sides of the colon. -/
structure Key where
  token : Bytes
  isString : IsString token
  before : Blanks
  after : Blanks

/-- What stands in front of the value of an item: nothing in an array, a key in an object. -/
def Label : Container → Type
  | .array => Unit
  | .object => Key

/-- The bytes in front of the value of an item. -/
def labelBytes : (c : Container) → Label c → Bytes
  | .array, _ => []
  | .object, (key : Key) => key.token ++ key.before.bytes ++ Byte.colon :: key.after.bytes

/-- An item of a container, with the blanks before and after it. -/
structure Item (c : Container) where
  before : Blanks
  label : Label c
  value : Bytes
  after : Blanks

variable {c : Container}

/-- The bytes of items, with a comma before each but the first. -/
def itemsBytes (first : Bool) : List (Item c) → Bytes
  | [] => []
  | item :: more =>
    (if first then [] else [Byte.comma]) ++ (item.before.bytes ++ (labelBytes c item.label ++
      (item.value ++ (item.after.bytes ++ itemsBytes false more))))

def containerBytes (c : Container) (lead : Blanks) (items : List (Item c)) : Bytes :=
  c.opener :: (lead.bytes ++ (itemsBytes true items ++ [c.closer]))

/-- The span of the key of an item, whose label is at an offset. -/
def keySpan (offset : Nat) : (c : Container) → Label c → Option Span
  | .array, _ => none
  | .object, (key : Key) => some ⟨offset, offset + key.token.length⟩

/-- The children that items are, if their bytes are at an offset. -/
def childrenAt (first : Bool) (offset : Nat) : List (Item c) → List Child
  | [] => []
  | item :: more =>
    let key := offset + (if first then 0 else 1) + item.before.bytes.length
    let start := key + (labelBytes c item.label).length
    ⟨keySpan key c item.label, ⟨start, start + item.value.length⟩⟩ ::
      childrenAt false (start + item.value.length + item.after.bytes.length) more

/-! ### Containers are skipped -/

theorem matchBrackets_labelBytes (label : Label c) {owed : Bytes} (ho : owed ≠ []) (offset : Nat)
    (r : Bytes) : matchBrackets owed .outside offset (labelBytes c label ++ r) =
      matchBrackets owed .outside (offset + (labelBytes c label).length) r := by
  cases c with
  | array => rfl
  | object =>
    obtain ⟨token, htoken, before, after⟩ := (label : Key)
    have hkey := matchBrackets_skipValue ho
      (htoken.skipValue offset (before.bytes ++ (Byte.colon :: (after.bytes ++ r))))
    have hcolon := matchBrackets_plain owed (offset + token.length + before.bytes.length)
      (after.bytes ++ r) (b := Byte.colon) (by decide)
    show matchBrackets owed .outside offset
      (token ++ before.bytes ++ Byte.colon :: after.bytes ++ r) = _
    simp only [List.append_assoc, List.cons_append]
    rw [hkey, matchBrackets_run before.isPlain, hcolon, matchBrackets_run after.isPlain]
    simp only [labelBytes, List.length_append, List.length_cons]
    congr 1
    omega

theorem ends_after (after : Blanks) (more : List (Item c)) {r : Bytes} (h : Numeral.Ends r) :
    Numeral.Ends (after.bytes ++ (itemsBytes false more ++ r)) := by
  refine Numeral.ends_blanks after ?_
  cases more with
  | nil => exact h
  | cons => exact Numeral.ends_cons (by decide) _

theorem matchBrackets_items {items : List (Item c)} (h : ∀ item ∈ items, IsSkipped item.value)
    (first : Bool) {owed : Bytes} (ho : owed ≠ []) (offset : Nat) {r : Bytes} (hr : Numeral.Ends r) :
    matchBrackets owed .outside offset (itemsBytes first items ++ r) =
      matchBrackets owed .outside (offset + (itemsBytes first items).length) r := by
  induction items generalizing first offset with
  | nil => rfl
  | cons item more ih =>
    obtain ⟨hitem, hmore⟩ := List.forall_mem_cons.1 h
    have hcomma : ∀ b ∈ (if first then [] else [Byte.comma] : Bytes), IsPlain b := by
      cases first <;> decide
    have hvalue := fun o => matchBrackets_skipValue ho (hitem o _ (ends_after item.after more hr))
    simp only [itemsBytes, List.append_assoc]
    rw [matchBrackets_run hcomma, matchBrackets_run item.before.isPlain,
      matchBrackets_labelBytes item.label ho, hvalue, matchBrackets_run item.after.isPlain,
      ih hmore false]
    simp only [List.length_append]
    congr 1
    omega

theorem kind?_containerBytes (lead : Blanks) (items : List (Item c)) (offset : Nat) (r : Bytes) :
    ∃ k, (Place.mk offset (containerBytes c lead items ++ r)).kind? = some k ∧
      k.container? = some c := by
  cases c with
  | object => exact ⟨.object, rfl, rfl⟩
  | array => exact ⟨.array, rfl, rfl⟩

theorem skipValue_of_container? {p : Place} {k : Kind} (hk : p.kind? = some k)
    (hc : k.container? = some c) : p.skipValue = p.skipContainer := by
  rw [skipValue, hk]
  cases k <;> first | rfl | cases hc

/-- A container is skipped as a whole. -/
theorem skipValue_container (lead : Blanks) {items : List (Item c)}
    (h : ∀ item ∈ items, IsSkipped item.value) (offset : Nat) (r : Bytes) :
    Place.skipValue ⟨offset, containerBytes c lead items ++ r⟩ =
      .ok ⟨offset + (containerBytes c lead items).length, r⟩ := by
  obtain ⟨k, hk, hc⟩ := kind?_containerBytes lead items offset r
  have howed : [c.closer] ≠ [] := by simp
  have hinside := matchBrackets_items h true howed
    (offset + 1 + lead.bytes.length) (c.ends_closer r)
  have hclose : c.closer = Byte.closeBrace ∨ c.closer = Byte.closeBracket := by
    cases c <;> decide
  rw [skipValue_of_container? hk hc, skipContainer]
  simp only [containerBytes, List.cons_append, List.append_assoc, List.nil_append]
  rw [matchBrackets_opener, matchBrackets_run lead.isPlain, hinside,
    matchBrackets_lastCloser _ _ hclose]
  simp only [List.length_cons, List.length_append, List.length_nil]
  congr 2
  omega

theorem isSkipped_container (lead : Blanks) {items : List (Item c)}
    (h : ∀ item ∈ items, IsSkipped item.value) : IsSkipped (containerBytes c lead items) :=
  fun offset r _ => skipValue_container lead h offset r

/-! ### Items are listed -/

theorem readKey_bytes (key : Key) (offset : Nat) {r : Bytes} (hr : NoBlank r) :
    (Place.mk offset (labelBytes .object key ++ r)).readKey =
      .ok (⟨offset, offset + key.token.length⟩,
        ⟨offset + (labelBytes .object key).length, r⟩) := by
  obtain ⟨token, htoken, before, after⟩ := key
  show (Place.mk offset (token ++ before.bytes ++ Byte.colon :: after.bytes ++ r)).readKey =
    .ok (⟨offset, offset + token.length⟩, ⟨offset + (token ++ before.bytes ++
      Byte.colon :: after.bytes).length, r⟩)
  simp only [List.append_assoc, List.cons_append]
  have hkey : (Place.mk offset (token ++ (before.bytes ++ Byte.colon :: (after.bytes ++
      r)))).readValue = .ok (⟨offset, offset + token.length⟩,
        ⟨offset + token.length, before.bytes ++ Byte.colon :: (after.bytes ++ r)⟩) := by
    rw [readValue, htoken.skipValue]
  have hbefore := skipBlanks_append before.blank
    (noBlank_cons (b := Byte.colon) (by decide) (after.bytes ++ r)) (offset + token.length)
  have hafter := skipBlanks_append after.blank hr (offset + token.length + before.bytes.length + 1)
  have hquote : (Place.mk offset (token ++ (before.bytes ++ Byte.colon :: (after.bytes ++
      r)))).byte? = some Byte.quote := by
    cases htoken
    rfl
  rw [readKey, if_pos hquote, hkey]
  show (Place.expect Byte.colon _ >>= fun q : Place => .ok (_, q.skipBlanks)) = _
  rw [hbefore]
  show Except.ok (_, Place.skipBlanks ⟨_ + 1, after.bytes ++ r⟩) = _
  rw [hafter]
  simp only [List.length_append, List.length_cons]
  congr 3
  omega

theorem readChild_bytes (label : Label c) {value : Bytes} (hv : IsSkipped value) (offset : Nat)
    {r : Bytes} (hr : Numeral.Ends r) :
    (Place.mk offset (labelBytes c label ++ (value ++ r))).readChild c =
      .ok (⟨keySpan offset c label, ⟨offset + (labelBytes c label).length,
          offset + (labelBytes c label).length + value.length⟩⟩,
        ⟨offset + (labelBytes c label).length + value.length, r⟩) := by
  have hvalue := hv (offset + (labelBytes c label).length) r hr
  cases c with
  | array =>
    have h : (Place.mk offset (labelBytes .array label ++ (value ++ r))) =
      ⟨offset + (labelBytes .array label).length, value ++ r⟩ := rfl
    rw [h, readChild, readValue, hvalue]
    rfl
  | object =>
    obtain ⟨b, more, k, rfl, hk⟩ := hv.exists_kind
    have hkind : (Place.mk 0 (b :: more ++ r)).kind? = some k := hk
    have hno := Kind.noBlank hkind
    rw [readChild, readKey_bytes label offset hno]
    show (readValue _ >>= fun vq : Span × Place => .ok (_, _)) = _
    rw [readValue, hvalue]
    rfl

theorem head?_label (label : Label c) {value : Bytes} (hv : IsSkipped value) (r : Bytes) :
    ∃ b, (labelBytes c label ++ (value ++ r)).head? = some b ∧
      Byte.isBlank b = false ∧ b ≠ c.closer := by
  cases c with
  | object =>
    obtain ⟨token, htoken, before, after⟩ := (label : Key)
    cases htoken
    exact ⟨Byte.quote, rfl, by decide, by decide⟩
  | array =>
    obtain ⟨b, more, k, rfl, hk⟩ := hv.exists_kind
    have hkind : (Place.mk 0 (b :: more)).kind? = some k := hk
    refine ⟨b, rfl, Kind.noBlank hkind b rfl, ?_⟩
    rintro rfl
    cases hk

theorem nextChild_item {item : Item c} (hv : IsSkipped item.value) (more : List (Item c))
    (first : Bool) (blanks : Blanks) (offset : Nat) {r : Bytes} (hr : Numeral.Ends r) :
    ∃ child q, (Place.mk offset (blanks.bytes ++ (itemsBytes first (item :: more) ++ r))).nextChild
        c first = .ok (some child, q) ∧
      q.rest = item.after.bytes ++ (itemsBytes false more ++ r) ∧
      childrenAt first (offset + blanks.bytes.length) (item :: more) =
        child :: childrenAt false (q.offset + item.after.bytes.length) more := by
  obtain ⟨b, hb, hblank, hcloser⟩ :=
    head?_label item.label hv (item.after.bytes ++ (itemsBytes false more ++ r))
  -- where the label of the item starts
  let start := offset + blanks.bytes.length + (if first then 0 else 1) + item.before.bytes.length
  have hopen : (Place.mk offset (blanks.bytes ++ (itemsBytes first (item :: more) ++ r))).openChild
      c first = .ok (.child ⟨start, labelBytes c item.label ++ (item.value ++
        (item.after.bytes ++ (itemsBytes false more ++ r)))⟩) := by
    cases first with
    | true =>
      have hbs : ∀ b ∈ blanks.bytes ++ item.before.bytes, Byte.isBlank b :=
        List.forall_mem_append.2 ⟨blanks.blank, item.before.blank⟩
      have hfirst := openChild_first hbs hb hblank hcloser offset
      rw [List.length_append, List.append_assoc, ← Nat.add_assoc] at hfirst
      simpa [itemsBytes, List.append_assoc, start] using hfirst
    | false =>
      have hno : NoBlank (labelBytes c item.label ++ (item.value ++
          (item.after.bytes ++ (itemsBytes false more ++ r)))) := by
        intro b' hb'
        rw [Option.mem_def.1 hb'] at hb
        cases hb
        exact hblank
      have hlater := openChild_later (c := c) blanks.blank item.before.blank hno offset
      simpa [itemsBytes, List.append_assoc, start] using hlater
  have hread := readChild_bytes item.label hv start (ends_after item.after more hr)
  let value := start + (labelBytes c item.label).length
  refine ⟨⟨keySpan start c item.label, ⟨value, value + item.value.length⟩⟩,
    ⟨value + item.value.length, _⟩, ?_, rfl, rfl⟩
  rw [nextChild, hopen]
  show (readChild _ _ >>= _) = _
  rw [hread]
  rfl

theorem listChildren_items {items : List (Item c)} (h : ∀ item ∈ items, IsSkipped item.value)
    (first : Bool) (blanks : Blanks) (offset : Nat) (r : Bytes) :
    (Place.mk offset (blanks.bytes ++ (itemsBytes first items ++ c.closer :: r))).listChildren
        c first = ⟨childrenAt first (offset + blanks.bytes.length) items, none⟩ := by
  induction items generalizing first blanks offset with
  | nil =>
    refine listChildren_closer (q := ⟨offset + blanks.bytes.length, c.closer :: r⟩) ?_
    rw [itemsBytes, List.nil_append, nextChild, openChild_closer]
    rfl
  | cons item more ih =>
    obtain ⟨hitem, hmore⟩ := List.forall_mem_cons.1 h
    obtain ⟨child, ⟨offset', rest⟩, hnext, rfl, hchildren⟩ :=
      nextChild_item hitem more first blanks offset (c.ends_closer r)
    rw [listChildren_child hnext, ih hmore, hchildren]

theorem slice_childrenAt {items : List (Item c)} {doc r : Bytes} (first : Bool) {offset : Nat}
    (h : doc.drop offset = itemsBytes first items ++ r) :
    (childrenAt first offset items).map (·.value.slice doc) = items.map (·.value) := by
  induction items generalizing first offset with
  | nil => rfl
  | cons item more ih =>
    simp only [itemsBytes, List.append_assoc] at h
    have hbefore := drop_of_append h
    have hlabel := drop_of_append hbefore
    have hvalue := drop_of_append hlabel
    have hafter := drop_of_append (drop_of_append hvalue)
    have hcomma : (if first then [] else [Byte.comma] : Bytes).length = if first then 0 else 1 := by
      cases first <;> rfl
    rw [hcomma] at hvalue hafter
    rw [childrenAt, List.map_cons, List.map_cons, ih false hafter]
    exact congrArg (· :: _) (slice_of_append hvalue)

/-- The children of a container are its items, whatever the values hold inside. -/
theorem listing_items {lead : Blanks} {items : List (Item c)} (h : ∀ item ∈ items, IsSkipped item.value)
    {doc r : Bytes} {offset : Nat} (hdoc : doc.drop offset = containerBytes c lead items ++ r) :
    ∃ children, Listing.ofOffset c doc offset = ⟨children, none⟩ ∧
      children.map (·.value.slice doc) = items.map (·.value) := by
  have hinside : doc.drop (offset + 1) = lead.bytes ++ (itemsBytes true items ++ c.closer :: r) := by
    rw [← List.drop_drop, hdoc]
    simp [containerBytes]
  refine ⟨_, ?_, slice_childrenAt true (drop_of_append hinside)⟩
  rw [Listing.ofOffset, Place.ofOffset, hinside]
  exact listChildren_items h true lead (offset + 1) r

/-! ### What is listed has items -/

theorem exists_blanks (p : Place) : ∃ blanks : Blanks, p.Covers blanks.bytes p.skipBlanks := by
  obtain ⟨t, ht, hcovers⟩ := exists_skipWhile Byte.isBlank p.offset p.rest
  exact ⟨⟨t, ht⟩, hcovers⟩

theorem covers_expect {b : UInt8} {p q : Place} (h : p.expect b = .ok q) : p.Covers [b] q := by
  rw [expect] at h
  split at h
  · next hb =>
    cases h
    exact .next hb
  · cases h

theorem slice_of_covers {doc t u : Bytes} {n : Nat} {p q : Place} (h : (ofOffset doc n).Covers t p)
    (h' : p.Covers u q) : Span.slice ⟨p.offset, q.offset⟩ doc = u := by
  have hdrop : doc.drop p.offset = u ++ q.rest := (congrArg Place.rest h.after.ofOffset).symm.trans h'.1
  rw [h'.2]
  exact slice_of_append hdrop

theorem exists_lead {fresh : Bool} {p q : Place} (h : p.openChild c fresh = .ok (.closer q)) :
    ∃ (lead : Blanks) (r : Bytes), p.rest = lead.bytes ++ c.closer :: r := by
  obtain ⟨lead, hlead⟩ := exists_blanks p
  simp only [openChild] at h
  split at h
  · next hcloser =>
    have hall := (hlead.trans (.next hcloser)).1
    exact ⟨lead, p.skipBlanks.next.rest, by simpa using hall⟩
  · split at h
    · split at h <;> cases h
    · obtain ⟨_, _, h⟩ := bind_eq_ok.1 h
      cases h

theorem exists_separator {fresh : Bool} {p q : Place} (h : p.openChild c fresh = .ok (.child q)) :
    ∃ lead before : Blanks,
      p.Covers (lead.bytes ++ ((if fresh then [] else [Byte.comma]) ++ before.bytes)) q := by
  obtain ⟨lead, hlead⟩ := exists_blanks p
  simp only [openChild] at h
  split at h
  · cases h
  · cases fresh with
    | true =>
      simp only [if_true] at h
      split at h
      · cases h
      · cases h
        exact ⟨lead, ⟨[], List.forall_mem_nil _⟩, by simpa using hlead⟩
    | false =>
      obtain ⟨p', hcomma, h⟩ := bind_eq_ok.1 h
      cases h
      obtain ⟨before, hbefore⟩ := exists_blanks p'
      exact ⟨lead, before, hlead.trans ((covers_expect hcomma).trans hbefore)⟩

theorem exists_key {p q : Place} {s : Span} (h : p.readKey = .ok (s, q)) :
    ∃ key : Key, p.Covers (labelBytes .object key) q := by
  rw [readKey] at h
  split at h
  · next hquote =>
    obtain ⟨⟨s', p₁⟩, hkey, h⟩ := bind_eq_ok.1 h
    obtain ⟨p₂, hcolon, h⟩ := bind_eq_ok.1 h
    cases h
    have hskip : p.skipValue = .ok p₁ := by
      rw [readValue] at hkey
      split at hkey
      · next hskip =>
        cases hkey
        exact hskip
      · cases hkey
    have hk : p.kind? = some .string := by
      rw [kind?, hquote]
      rfl
    obtain ⟨token, htoken, hcovers⟩ := exists_isString hk hskip
    obtain ⟨before, hbefore⟩ := exists_blanks p₁
    obtain ⟨after, hafter⟩ := exists_blanks p₂
    refine ⟨⟨token, htoken, before, after⟩, ?_⟩
    exact (hcovers.trans hbefore).trans ((covers_expect hcolon).trans hafter)
  · cases h

theorem covers_readValue {p q : Place} {v : Span} (h : p.readValue = .ok (v, q)) :
    ∃ t, p.Covers t q ∧ v = ⟨p.offset, q.offset⟩ := by
  obtain ⟨⟨t, _, hcovers⟩, rfl⟩ := past_readValue h
  exact ⟨t, hcovers, rfl⟩

theorem exists_label {p q : Place} {child : Child} (h : p.readChild c = .ok (child, q)) :
    ∃ (label : Label c) (p' : Place) (t : Bytes), p.Covers (labelBytes c label) p' ∧ p'.Covers t q ∧
      child.value = ⟨p'.offset, q.offset⟩ := by
  cases c with
  | object =>
    obtain ⟨⟨s, p'⟩, hkey, h⟩ := bind_eq_ok.1 h
    obtain ⟨⟨v, q'⟩, hvalue, h⟩ := bind_eq_ok.1 h
    cases h
    obtain ⟨key, hlabel⟩ := exists_key hkey
    obtain ⟨t, hcovers, hv⟩ := covers_readValue hvalue
    exact ⟨key, p', t, hlabel, hcovers, hv⟩
  | array =>
    obtain ⟨⟨v, q'⟩, hvalue, h⟩ := bind_eq_ok.1 h
    cases h
    obtain ⟨t, hcovers, hv⟩ := covers_readValue hvalue
    exact ⟨(), p, t, .refl p, hcovers, hv⟩

/-- Where a listing has no fault there are items up to the closer, and they are what is listed. -/
theorem exists_items {doc : Bytes} {n : Nat} {fresh : Bool} {children : List Child}
    (h : (ofOffset doc n).listChildren c fresh = ⟨children, none⟩) :
    ∃ (lead : Blanks) (items : List (Item c)) (r : Bytes),
      doc.drop n = lead.bytes ++ (itemsBytes fresh items ++ c.closer :: r) ∧
        items.map (·.value) = children.map (·.value.slice doc) := by
  induction children generalizing n fresh with
  | nil =>
    rw [listChildren_eq] at h
    split at h
    · cases h
    · next q hnext =>
      obtain ⟨opening, hopen, hnext⟩ := bind_eq_ok.1 hnext
      cases opening with
      | closer q' =>
        obtain ⟨lead, r, hr⟩ := exists_lead hopen
        exact ⟨lead, [], r, hr, rfl⟩
      | child q' =>
        obtain ⟨_, _, hnext⟩ := bind_eq_ok.1 hnext
        cases hnext
    · cases h
  | cons child more ih =>
    rw [listChildren_eq] at h
    split at h
    · next child' q hnext =>
      obtain ⟨-, hq, -⟩ := found_of_nextChild hnext
      obtain ⟨opening, hopen, hnext⟩ := bind_eq_ok.1 hnext
      cases opening with
      | closer q' => cases hnext
      | child p₁ =>
        obtain ⟨⟨child₁, q₁⟩, hread, hnext⟩ := bind_eq_ok.1 hnext
        cases hnext
        obtain ⟨hchildren, hfault⟩ := Listing.mk.inj h
        obtain ⟨rfl, hmore⟩ := List.cons.inj hchildren
        have hlater : q.listChildren c false = ⟨more, none⟩ := by rw [← hmore, ← hfault]
        rw [hq] at hlater
        obtain ⟨after, items, r, hr, hvalues⟩ := ih hlater
        obtain ⟨lead, before, hseparator⟩ := exists_separator hopen
        obtain ⟨label, p₂, t, hlabel, hcovers, hvalue⟩ := exists_label hread
        have hslice := slice_of_covers (hseparator.trans hlabel) hcovers
        have hall := (hseparator.trans (hlabel.trans hcovers)).1
        have hrest := (congrArg Place.rest hq).trans hr
        refine ⟨lead, ⟨before, label, t, after⟩ :: items, r, ?_, ?_⟩
        · show (ofOffset doc n).rest = _
          rw [hall, hrest]
          simp [itemsBytes]
        · rw [List.map_cons, List.map_cons, hvalues, hvalue, hslice]
    · cases h
    · cases h

end Dialect

end JsonSpan

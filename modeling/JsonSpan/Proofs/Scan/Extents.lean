import JsonSpan.Proofs.Scan.Brackets

/-!
# Extents of values and of their children

A span is the extent of a value if reading a value at its start gives it back. The children that are
found in a container whose brackets match are extents again, lie strictly between the brackets, and
follow one another without overlap (`Span.IsExtent.listing`). This holds for any bytes: the insides
of a container are only as well formed as the reading of its children found them to be.
-/

namespace JsonSpan

/-- The value that starts where the span starts ends where the span ends. -/
def Span.IsExtent (doc : Bytes) (s : Span) : Prop :=
  (Place.ofOffset doc s.start).readValue = .ok (s, .ofOffset doc s.stop)

namespace Place

/-- `q` is reached from `p`, and the matching of brackets passes through both at one depth. -/
def Level (p q : Place) : Prop :=
  p.After q ∧ ∀ owed : Bytes, owed ≠ [] →
    matchBrackets owed .outside p.offset p.rest = matchBrackets owed .outside q.offset q.rest

theorem Level.refl (p : Place) : p.Level p :=
  ⟨After.refl p, fun _ _ => rfl⟩

theorem Level.trans {p q r : Place} (h₁ : p.Level q) (h₂ : q.Level r) : p.Level r :=
  ⟨h₁.1.trans h₂.1, fun owed ho => (h₁.2 owed ho).trans (h₂.2 owed ho)⟩

theorem Plainly.level {p q : Place} (h : p.Plainly q) : p.Level q := by
  refine ⟨?_, fun _ _ => matchBrackets_plainly h⟩
  obtain ⟨taken, _, hr, ho⟩ := h
  exact ⟨taken, hr, ho⟩

theorem level_readValue {p q : Place} {s : Span} (h : p.readValue = .ok (s, q)) : p.Level q :=
  ⟨(past_readValue h).1.after, fun _ ho => matchBrackets_readValue ho h⟩

/-- What is read from a document is an extent, not empty and inside of the document. -/
theorem isExtent_of_readValue {doc : Bytes} {n : Nat} {s : Span} {q : Place}
    (h : (ofOffset doc n).readValue = .ok (s, q)) :
    s.start = n ∧ q = ofOffset doc s.stop ∧ s.IsExtent doc ∧ s.start < s.stop ∧
      s.stop ≤ doc.length := by
  obtain ⟨hp, rfl⟩ := past_readValue h
  have hq : q = ofOffset doc q.offset := hp.after.ofOffset
  refine ⟨rfl, hq, ?_, hp.offset_lt, ?_⟩
  · show (ofOffset doc n).readValue = .ok (_, ofOffset doc q.offset)
    rw [← hq]
    exact h
  · obtain ⟨taken, hne, hr, ho⟩ := hp
    have hlen := congrArg List.length hr
    have hpos := List.length_pos_iff.2 hne
    simp only [ofOffset, List.length_drop, List.length_append] at hlen ho
    show q.offset ≤ doc.length
    omega

theorem Level.exists_ofOffset {doc : Bytes} {n : Nat} {q : Place} (h : (ofOffset doc n).Level q) :
    ∃ m, n ≤ m ∧ q = ofOffset doc m :=
  ⟨q.offset, h.1.offset_le, h.1.ofOffset⟩

/-! ### Where the parts of a child lie -/

theorem level_openChild {container : Container} {fresh : Bool} {p q : Place}
    (h : p.openChild container fresh = .ok (.child q)) : p.Level q := by
  refine (plainly_skipBlanks p).level.trans ?_
  simp only [openChild] at h
  split at h
  · cases h
  · split at h
    · split at h <;> cases h
      exact Level.refl _
    · simp only [bind, Except.bind, pure, Except.pure] at h
      split at h
      · cases h
      · next hx =>
        cases h
        exact ((plainly_expect hx (by decide)).trans (plainly_skipBlanks _)).level

/-- A key is the extent of a string, with room for both of its quotes. -/
def IsKey (doc : Bytes) (low high : Nat) (key : Span) : Prop :=
  key.IsExtent doc ∧ low ≤ key.start ∧ key.start + 2 ≤ key.stop ∧ key.stop ≤ high ∧
    key.stop ≤ doc.length

theorem past_stringTail {offset : Nat} {rest : Bytes} {q : Place}
    (h : stringTail offset rest = .ok q) : Past ⟨offset, rest⟩ q := by
  fun_induction stringTail offset rest with
  | case1 => cases h
  | case2 =>
    cases h
    exact (After.refl _).cons
  | case3 => cases h
  | case4 offset c r _ ih => exact (ih h).after.cons.after.cons
  | case5 offset b r _ _ ih => exact (ih h).after.cons

theorem two_le_readValue {p q : Place} {s : Span} (hp : p.byte? = some Byte.quote)
    (h : p.readValue = .ok (s, q)) : s.start + 2 ≤ s.stop := by
  have hk : p.kind? = some .string := by
    rw [kind?, hp]
    rfl
  rw [readValue, skipValue, hk] at h
  split at h
  · next q' hq =>
    cases h
    have : p.offset + 1 < q.offset := (past_stringTail hq).offset_lt
    show p.offset + 2 ≤ q.offset
    omega
  · cases h

theorem isKey_of_readKey {doc : Bytes} {n : Nat} {key : Span} {q : Place}
    (h : (ofOffset doc n).readKey = .ok (key, q)) :
    (ofOffset doc n).Level q ∧ IsKey doc n q.offset key := by
  simp only [readKey] at h
  split at h
  · next hb =>
    simp only [bind, Except.bind, pure, Except.pure] at h
    split at h
    · cases h
    · next kq hk =>
      obtain ⟨k, q₁⟩ := kq
      split at h
      · cases h
      · next q₂ hc =>
        cases h
        obtain ⟨hs, hq₁, hext, -, hlen⟩ := isExtent_of_readValue hk
        have hend : q₁.Level (q₂.skipBlanks) :=
          ((plainly_skipBlanks q₁).trans
            ((plainly_expect hc (by decide)).trans (plainly_skipBlanks q₂))).level
        refine ⟨(level_readValue hk).trans hend, hext, Nat.le_of_eq hs.symm, two_le_readValue hb hk, ?_, hlen⟩
        have := hend.1.offset_le
        rw [hq₁] at this
        exact this
  · cases h

/-- What is known of a child that was found from an offset on. -/
structure Found (doc : Bytes) (low : Nat) (c : Child) : Prop where
  extent : c.value.IsExtent doc
  low_le : low ≤ c.value.start
  nonempty : c.value.start < c.value.stop
  inside : c.value.stop ≤ doc.length
  key : ∀ k ∈ c.key, IsKey doc low c.value.start k

theorem Found.of_le {doc : Bytes} {low low' : Nat} {c : Child} (hle : low' ≤ low)
    (h : Found doc low c) : Found doc low' c where
  extent := h.extent
  low_le := Nat.le_trans hle h.low_le
  nonempty := h.nonempty
  inside := h.inside
  key k hk := by
    obtain ⟨he, hl, h2, hh, hd⟩ := h.key k hk
    exact ⟨he, Nat.le_trans hle hl, h2, hh, hd⟩

theorem found_of_readChild {doc : Bytes} {n : Nat} {container : Container} {c : Child} {q : Place}
    (h : (ofOffset doc n).readChild container = .ok (c, q)) :
    (ofOffset doc n).Level q ∧ q = ofOffset doc c.value.stop ∧ Found doc n c := by
  cases container with
  | object =>
    simp only [readChild, bind, Except.bind, pure, Except.pure] at h
    split at h
    · cases h
    · next kq hk =>
      obtain ⟨k, q₁⟩ := kq
      split at h
      · cases h
      · next vq hv =>
        obtain ⟨v, q₂⟩ := vq
        cases h
        obtain ⟨hlevel, hkey⟩ := isKey_of_readKey hk
        obtain ⟨m, hm, rfl⟩ := hlevel.exists_ofOffset
        obtain ⟨hs, hq, hext, hne, hlen⟩ := isExtent_of_readValue hv
        have hkey' : IsKey doc n v.start k := hs ▸ hkey
        have hle : n ≤ v.start := Nat.le_trans hm (Nat.le_of_eq hs.symm)
        exact ⟨hlevel.trans (level_readValue hv), hq, hext, hle, hne, hlen,
          fun k' hk' => by cases hk'; exact hkey'⟩
  | array =>
    simp only [readChild, bind, Except.bind, pure, Except.pure] at h
    split at h
    · cases h
    · next vq hv =>
      obtain ⟨v, q₂⟩ := vq
      cases h
      obtain ⟨hs, hq, hext, hne, hlen⟩ := isExtent_of_readValue hv
      exact ⟨level_readValue hv, hq, hext, Nat.le_of_eq hs.symm, hne, hlen, fun k hk => by cases hk⟩

theorem found_of_nextChild {doc : Bytes} {n : Nat} {container : Container} {fresh : Bool}
    {c : Child} {q : Place} (h : (ofOffset doc n).nextChild container fresh = .ok (some c, q)) :
    (ofOffset doc n).Level q ∧ q = ofOffset doc c.value.stop ∧ Found doc n c := by
  simp only [nextChild, bind, Except.bind, pure, Except.pure] at h
  split at h
  · cases h
  · next o ho =>
    cases o with
    | closer r => cases h
    | child r =>
      simp only at h
      split at h
      · cases h
      · next cq hc =>
        cases h
        have hlevel := level_openChild ho
        obtain ⟨m, hm, rfl⟩ := hlevel.exists_ofOffset
        obtain ⟨hl, hq, hf⟩ := found_of_readChild hc
        exact ⟨hlevel.trans hl, hq, hf.of_le hm⟩

/-- Where a listing starts inside brackets that match up to `stop`, its children end before `stop`
and follow one another. -/
theorem found_of_mem_listChildren {doc : Bytes} {closer : UInt8} {stop : Place}
    (container : Container) (fresh : Bool) (n : Nat)
    (hm : matchBrackets [closer] .outside n (doc.drop n) = .ok stop) :
    ((ofOffset doc n).listChildren container fresh).children.Pairwise
        (fun a b => Found doc a.value.stop b) ∧
      ∀ c ∈ ((ofOffset doc n).listChildren container fresh).children,
        Found doc n c ∧ c.value.stop < stop.offset := by
  induction hlen : (doc.drop n).length using Nat.strongRecOn generalizing n fresh with
  | ind len ih =>
    rw [listChildren]
    split
    · next c q h =>
      obtain ⟨hlevel, hq, hf⟩ := found_of_nextChild h
      have hm' : matchBrackets [closer] .outside c.value.stop (doc.drop c.value.stop) = .ok stop := by
        have := hlevel.2 [closer] (by simp)
        rw [hq] at this
        exact this.symm.trans hm
      have hshort := (past_nextChild h).2.2.length_lt
      rw [hq] at hshort ⊢
      obtain ⟨hp, hc⟩ := ih _ (hlen ▸ hshort) false c.value.stop hm' rfl
      constructor
      · rw [List.pairwise_cons]
        exact ⟨fun b hb => (hc b hb).1, hp⟩
      · intro b hb
        rcases List.mem_cons.1 hb with rfl | hb
        · exact ⟨hf, (past_matchBrackets hm').offset_lt⟩
        · have hle : n ≤ c.value.stop := Nat.le_trans hf.low_le (Nat.le_of_lt hf.nonempty)
          exact ⟨(hc b hb).1.of_le hle, (hc b hb).2⟩
    · simp
    · simp

end Place

/-! ### The children of an extent -/

theorem Span.IsExtent.bounds {doc : Bytes} {s : Span} (h : s.IsExtent doc) :
    s.start < s.stop ∧ s.stop ≤ doc.length := by
  obtain ⟨_, _, _, hne, hlen⟩ := Place.isExtent_of_readValue h
  exact ⟨hne, hlen⟩

theorem Span.isExtent_iff {doc : Bytes} {s : Span} :
    s.IsExtent doc ↔ (Place.ofOffset doc s.start).skipValue = .ok (.ofOffset doc s.stop) := by
  rw [Span.IsExtent, Place.readValue]
  cases (Place.ofOffset doc s.start).skipValue with
  | error q => simp
  | ok q =>
    constructor
    · exact fun h => congrArg Except.ok (Prod.mk.inj (Except.ok.inj h)).2
    · intro h
      cases h
      rfl

theorem Span.IsExtent.skipValue {doc : Bytes} {s : Span} (h : s.IsExtent doc) :
    (Place.ofOffset doc s.start).skipValue = .ok (.ofOffset doc s.stop) :=
  Span.isExtent_iff.1 h

theorem Place.kind?_of_kind {p : Place} {k : Kind} (h : p.kind = .ok k) : p.kind? = some k := by
  rw [Place.kind] at h
  split at h
  · next hk =>
    cases h
    exact hk
  · cases h

theorem Span.IsExtent.exists_kind {doc : Bytes} {s : Span} (h : s.IsExtent doc) :
    ∃ k, (Place.ofOffset doc s.start).kind = .ok k := by
  have hskip := h.skipValue
  rw [Place.skipValue] at hskip
  rw [Place.kind]
  cases hk : (Place.ofOffset doc s.start).kind? with
  | none =>
    rw [hk] at hskip
    cases hskip
  | some k => exact ⟨k, rfl⟩

def Container.opener : Container → UInt8
  | object => Byte.openBrace
  | array => Byte.openBracket

theorem matchBrackets_opener (container : Container) (closers : Bytes) (offset : Nat) (r : Bytes) :
    Place.matchBrackets closers .outside offset (container.opener :: r) =
      Place.matchBrackets (container.closer :: closers) .outside (offset + 1) r := by
  cases container <;> rfl

theorem Span.IsExtent.matchBrackets {doc : Bytes} {s : Span} {k : Kind} {container : Container}
    (h : s.IsExtent doc) (hk : (Place.ofOffset doc s.start).kind = .ok k)
    (hc : k.container? = some container) :
    Place.matchBrackets [container.closer] .outside (s.start + 1) (doc.drop (s.start + 1)) =
      .ok (.ofOffset doc s.stop) := by
  have hk? := Place.kind?_of_kind hk
  have hopener : Place.opener? k = some container.opener := by
    cases k <;> cases hc <;> rfl
  obtain ⟨r, hr⟩ := Place.rest_of_kind? hk? hopener
  have hskip : (Place.ofOffset doc s.start).skipContainer = .ok (.ofOffset doc s.stop) := by
    rw [← h.skipValue, Place.skipValue, hk?]
    cases k <;> cases hc <;> rfl
  have hdrop : doc.drop (s.start + 1) = r := by
    rw [← List.drop_drop]
    show ((Place.ofOffset doc s.start).rest).drop 1 = r
    rw [hr, List.drop_one, List.tail_cons]
  rw [Place.skipContainer, hr, matchBrackets_opener] at hskip
  rw [hdrop]
  exact hskip

/-- The children listed in a container follow one another strictly between its brackets. -/
theorem Span.IsExtent.listing {doc : Bytes} {s : Span} {k : Kind} {container : Container}
    (h : s.IsExtent doc) (hk : (Place.ofOffset doc s.start).kind = .ok k)
    (hc : k.container? = some container) :
    (Listing.ofOffset container doc s.start).children.Pairwise
        (fun a b => Place.Found doc a.value.stop b) ∧
      ∀ c ∈ (Listing.ofOffset container doc s.start).children,
        Place.Found doc (s.start + 1) c ∧ c.value.stop < s.stop :=
  Place.found_of_mem_listChildren container true (s.start + 1) (h.matchBrackets hk hc)

end JsonSpan

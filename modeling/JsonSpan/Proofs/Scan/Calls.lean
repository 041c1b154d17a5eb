import JsonSpan.Proofs.Scan.Inside
import JsonSpan.Proofs.Scan.Iteration

/-!
# Asking for children again and again

`Children.answer cs n` is what an iteration answers that has been asked `n` times before. The answers
are the children that are listed, then the fault that cuts the listing short, if one does, and from
then on nothing (`Children.Gives.answer`). In a container whose brackets match, all keys and values are
extents between the brackets and follow one another, and the iteration comes to rest on the closing
bracket or with a byte that cannot stand where it is (`Children.calls_inside`).
-/

namespace JsonSpan

/-- The spans of a child, a key before its value. -/
def Child.spans (c : Child) : List Span :=
  c.key.toList ++ [c.value]

namespace Place

theorem closer_of_nextChild {container : Container} {fresh : Bool} {p q : Place}
    (h : p.nextChild container fresh = .ok (none, q)) :
    q.byte? = some container.closer ∧ p.Level q := by
  obtain ⟨opening, hopen, h⟩ := bind_eq_ok.1 h
  cases opening with
  | child r =>
    obtain ⟨c, -, h⟩ := bind_eq_ok.1 h
    cases h
  | closer r =>
    cases h
    simp only [openChild] at hopen
    split at hopen
    · next hbyte =>
      cases hopen
      exact ⟨hbyte, level_skipBlanks p⟩
    · split at hopen
      · split at hopen <;> cases hopen
      · obtain ⟨r, -, hopen⟩ := bind_eq_ok.1 hopen
        cases hopen

theorem next_of_closer {container : Container} {p stop : Place}
    (h : p.byte? = some container.closer)
    (hm : matchBrackets [container.closer] .outside p.offset p.rest = .ok stop) : p.next = stop := by
  obtain ⟨offset, rest⟩ := p
  cases rest with
  | nil => simp [byte?] at h
  | cons b r =>
    obtain rfl : b = container.closer := by simpa [byte?] using h
    rw [matchBrackets_lastCloser _ _ (by cases container <;> simp [Container.closer])] at hm
    exact Except.ok.inj hm

theorem length_listChildren (container : Container) (fresh : Bool) (p : Place) :
    (p.listChildren container fresh).children.length ≤ p.rest.length := by
  fun_induction listChildren container fresh p with
  | case1 fresh p child q h later ih =>
    have hshort := (past_nextChild h).2.2.length_lt
    exact Nat.succ_le_of_lt (Nat.lt_of_le_of_lt ih hshort)
  | case2 => simp
  | case3 => simp

theorem Found.spans {doc : Bytes} {low : Nat} {c : Child} (h : Found doc low c) :
    c.spans.Pairwise (fun x y => x.stop ≤ y.start) ∧
      ∀ x ∈ c.spans, x.IsExtent doc ∧ low ≤ x.start ∧ x.start < x.stop ∧ x.stop ≤ c.value.stop := by
  have hvalue : c.value.IsExtent doc ∧ low ≤ c.value.start ∧ c.value.start < c.value.stop ∧
      c.value.stop ≤ c.value.stop :=
    ⟨h.extent, h.low_le, h.nonempty, Nat.le_refl _⟩
  cases hkey : c.key with
  | none => simpa [Child.spans, hkey] using hvalue
  | some key =>
    obtain ⟨hext, hlow, hlen, hstop, -⟩ := h.key key hkey
    have hne := h.nonempty
    have hspans : c.spans = [key, c.value] := by rw [Child.spans, hkey]; rfl
    rw [hspans, List.forall_mem_cons, List.forall_mem_singleton]
    exact ⟨List.pairwise_pair.2 hstop, ⟨hext, hlow, by omega, by omega⟩, hvalue⟩

theorem isSome_key_of_nextChild {container : Container} {fresh : Bool} {p q : Place} {c : Child}
    (h : p.nextChild container fresh = .ok (some c, q)) : c.key.isSome = (container == .object) := by
  obtain ⟨opening, -, h⟩ := bind_eq_ok.1 h
  cases opening with
  | closer r => cases h
  | child r =>
    obtain ⟨⟨c', q'⟩, hchild, h⟩ := bind_eq_ok.1 h
    cases h
    cases container with
    | object =>
      obtain ⟨⟨key, r₁⟩, -, hchild⟩ := bind_eq_ok.1 hchild
      obtain ⟨⟨value, r₂⟩, -, hchild⟩ := bind_eq_ok.1 hchild
      cases hchild
      rfl
    | array =>
      obtain ⟨⟨value, r₁⟩, -, hchild⟩ := bind_eq_ok.1 hchild
      cases hchild
      rfl

theorem isSome_key_of_mem_listChildren (container : Container) (fresh : Bool) (p : Place) :
    ∀ c ∈ (p.listChildren container fresh).children, c.key.isSome = (container == .object) := by
  fun_induction listChildren container fresh p with
  | case1 fresh p child q h later ih =>
    exact List.forall_mem_cons.2 ⟨isSome_key_of_nextChild h, ih⟩
  | case2 => simp
  | case3 => simp

end Place

namespace Children

/-- An iteration that has been asked a number of times. -/
def after (cs : Children) : Nat → Children
  | 0 => cs
  | n + 1 => cs.next.2.after n

/-- What an iteration answers that has been asked a number of times before. -/
def answer (cs : Children) (n : Nat) : Option (Except Fault Child) :=
  (cs.after n).next.1

/-! ### What one call does -/

/-- An iteration that has not ended gives a child and goes on behind it, or it ends: with nothing to
give at a closer, or with a fault. -/
theorem next_cases {cs cs' : Children} {x : Option (Except Fault Child)} (h : cs.next = (x, cs'))
    (hended : cs.ended = false) :
    (∃ child q, cs.place.nextChild cs.container cs.fresh = .ok (some child, q) ∧
      x = some (.ok child) ∧ cs' = ⟨cs.container, q, false, false⟩) ∨
    (∃ q, cs.place.nextChild cs.container cs.fresh = .ok (none, q) ∧
      x = none ∧ cs' = ⟨cs.container, q, false, true⟩) ∨
    ∃ q, cs.place.nextChild cs.container cs.fresh = .error q ∧
      x = some (.error q.fault) ∧ cs' = ⟨cs.container, q, false, true⟩ := by
  obtain ⟨container, p, fresh, ended⟩ := cs
  subst hended
  rw [next, if_neg (by simp)] at h
  split at h
  · next child q hnext =>
    cases h
    exact .inl ⟨child, q, hnext, rfl, rfl⟩
  · next q hnext =>
    cases h
    exact .inr (.inl ⟨q, hnext, rfl, rfl⟩)
  · next q hnext =>
    cases h
    exact .inr (.inr ⟨q, hnext, rfl, rfl⟩)

theorem next_ended {cs : Children} (h : cs.ended = true) : cs.next = (none, cs) := by
  rw [next, if_pos h]

theorem ended_of_next {cs cs' : Children} {x : Option (Except Fault Child)} (h : cs.next = (x, cs'))
    (hx : ∀ child, x ≠ some (.ok child)) : cs'.ended = true := by
  cases hended : cs.ended with
  | true =>
    rw [next_ended hended] at h
    cases h
    exact hended
  | false =>
    obtain ⟨child, q, -, rfl, -⟩ | ⟨q, -, -, rfl⟩ | ⟨q, -, -, rfl⟩ := next_cases h hended
    · exact absurd rfl (hx child)
    · rfl
    · rfl

/-! ### What all calls do -/

theorem after_ended {cs : Children} (h : cs.ended = true) (n : Nat) : cs.after n = cs := by
  induction n with
  | zero => rfl
  | succ n ih => rw [after, next_ended h, ih]

theorem answer_ended {cs : Children} (h : cs.ended = true) (n : Nat) : cs.answer n = none := by
  rw [answer, after_ended h, next_ended h]

theorem answer_succ {cs cs' : Children} {x : Option (Except Fault Child)} (h : cs.next = (x, cs'))
    (n : Nat) : cs.answer (n + 1) = cs'.answer n := by
  rw [answer, after, h, answer]

theorem answer_zero {cs cs' : Children} {x : Option (Except Fault Child)} (h : cs.next = (x, cs')) :
    cs.answer 0 = x := by
  rw [answer, after, h]

/-- The calls are answered by the children, then by the fault, and then by nothing. -/
theorem Gives.answer {cs : Children} {children : List Child} {fault? : Option Fault}
    (h : cs.Gives children fault?) (n : Nat) :
    cs.answer n = (children.map Except.ok ++ fault?.toList.map Except.error)[n]? := by
  induction h generalizing n with
  | nothing h =>
    cases n with
    | zero => exact answer_zero h
    | succ n =>
      rw [answer_succ h]
      exact answer_ended (ended_of_next h (by simp)) n
  | fault h =>
    cases n with
    | zero => exact answer_zero h
    | succ n =>
      rw [answer_succ h]
      exact answer_ended (ended_of_next h (by simp)) n
  | child h _ ih =>
    cases n with
    | zero => exact answer_zero h
    | succ n =>
      rw [answer_succ h]
      exact ih n

/-- Between matching brackets, an iteration that no fault ends comes to rest on the closer. -/
theorem Gives.rests {cs : Children} {children : List Child} (h : cs.Gives children none)
    (hended : cs.ended = false) {stop : Place}
    (hm : Place.matchBrackets [cs.container.closer] .outside cs.place.offset cs.place.rest = .ok stop)
    {n : Nat} (hn : children.length < n) :
    cs.place.After (cs.after n).place ∧ (cs.after n).place.byte? = some cs.container.closer ∧
      (cs.after n).place.next = stop := by
  generalize hfault : none = fault? at h
  induction h generalizing n with
  | @nothing cs cs' h =>
    obtain ⟨m, rfl⟩ : ∃ m, n = m + 1 := Nat.exists_eq_add_one.2 hn
    obtain ⟨child, q, -, ⟨⟩, -⟩ | ⟨q, hq, -, rfl⟩ | ⟨q, -, ⟨⟩, -⟩ := next_cases h hended
    obtain ⟨hbyte, hlevel⟩ := Place.closer_of_nextChild hq
    have hafter : cs.after (m + 1) = ⟨cs.container, q, false, true⟩ := by
      rw [after, h]
      exact after_ended rfl _
    rw [hafter]
    rw [hlevel.2 _ (by simp)] at hm
    exact ⟨hlevel.1, hbyte, Place.next_of_closer hbyte hm⟩
  | fault h => cases hfault
  | @child cs cs' child more fault? h _ ih =>
    obtain ⟨c, q, hq, -, rfl⟩ | ⟨q, -, ⟨⟩, -⟩ | ⟨q, -, ⟨⟩, -⟩ := next_cases h hended
    obtain ⟨m, rfl⟩ : ∃ m, n = m + 1 := Nat.exists_eq_add_one.2 (by omega)
    have hinside : Place.Inside stop cs.place := ⟨_, hm⟩
    have hlevel := hinside.level_nextChild cs.container cs.fresh
    rw [hq] at hlevel
    rw [after, h]
    rw [hlevel.2 _ (by simp)] at hm
    obtain ⟨hafter, hcloser⟩ := ih rfl hm (by simpa using hn) hfault
    exact ⟨hlevel.1.trans hafter, hcloser⟩

end Children

/-! ### In a container -/

/-- The keys and values in a container are extents strictly between its brackets. -/
theorem Span.IsExtent.spans {doc : Bytes} {s : Span} {k : Kind} {container : Container}
    (h : s.IsExtent doc) (hk : (Place.ofOffset doc s.start).kind = .ok k)
    (hc : k.container? = some container) :
    ((Listing.ofOffset container doc s.start).children.flatMap Child.spans).Pairwise
        (fun x y => x.stop ≤ y.start) ∧
      ∀ x ∈ (Listing.ofOffset container doc s.start).children.flatMap Child.spans,
        x.IsExtent doc ∧ s.start + 1 ≤ x.start ∧ x.start < x.stop ∧ x.stop ≤ s.stop - 1 := by
  obtain ⟨hfollow, hfound⟩ := h.listing hk hc
  constructor
  · rw [List.pairwise_flatMap]
    refine ⟨fun c hc => (hfound c hc).1.spans.1, hfollow.imp_of_mem fun {a b} ha hb hab x hx y hy => ?_⟩
    obtain ⟨-, -, -, hstop⟩ := (hfound a ha).1.spans.2 x hx
    obtain ⟨-, hstart, -, -⟩ := hab.spans.2 y hy
    exact Nat.le_trans hstop hstart
  · intro x hx
    obtain ⟨c, hc, hx⟩ := List.mem_flatMap.1 hx
    obtain ⟨hext, hstart, hne, hstop⟩ := (hfound c hc).1.spans.2 x hx
    have hlt := (hfound c hc).2
    exact ⟨hext, hstart, hne, by omega⟩

namespace Children

theorem rests_on_closer {doc : Bytes} {s : Span} {k : Kind} {container : Container}
    {children : List Child} (hs : s.IsExtent doc) (hk : (Place.ofOffset doc s.start).kind = .ok k)
    (hc : k.container? = some container)
    (h : (ofOffset container doc s.start).Gives children none) :
    doc[s.stop - 1]? = some container.closer ∧
      ∀ n, children.length < n →
        ((ofOffset container doc s.start).after n).place = .ofOffset doc (s.stop - 1) := by
  have hplace : ∀ n, children.length < n →
      doc[s.stop - 1]? = some container.closer ∧
        ((ofOffset container doc s.start).after n).place = .ofOffset doc (s.stop - 1) := by
    intro n hn
    obtain ⟨hafter, hbyte, hnext⟩ := h.rests rfl (hs.matchBrackets hk hc) hn
    have hstop : ((ofOffset container doc s.start).after n).place.offset = s.stop - 1 :=
      Nat.eq_sub_of_add_eq (congrArg Place.offset hnext)
    have hp := hafter.ofOffset
    rw [hstop] at hp
    rw [hp, Place.byte?, Place.ofOffset, List.head?_drop] at hbyte
    exact ⟨hbyte, hp⟩
  exact ⟨(hplace _ (Nat.lt_succ_self _)).1, fun n hn => (hplace n hn).2⟩

/-- Asked again and again, an iteration answers with some children, then with a fault if there is one,
and from then on with nothing. -/
def Answers (cs : Children) (children : List Child) (fault? : Option Fault) : Prop :=
  ∀ n, cs.answer n = (children.map Except.ok ++ fault?.toList.map Except.error)[n]?

/-- What is known of an iteration over the children of the container at a span. -/
structure StaysInside (doc : Bytes) (s : Span) (container : Container) (children : List Child)
    (fault? : Option Fault) : Prop where
  answers : (ofOffset container doc s.start).Answers children fault?
  /-- Members have keys, elements have none. -/
  keyed : ∀ c ∈ children, c.key.isSome = (container == .object)
  /-- Keys and values lie strictly between the brackets. -/
  inside : ∀ x ∈ children.flatMap Child.spans,
    s.start + 1 ≤ x.start ∧ x.start < x.stop ∧ x.stop ≤ s.stop - 1
  /-- Each of them is what is read where it starts. -/
  read : ∀ x ∈ children.flatMap Child.spans, ∃ p, (Place.ofOffset doc x.start).readValue = .ok (x, p)
  /-- They follow one another, a key before its value. -/
  follow : (children.flatMap Child.spans).Pairwise fun x y => x.stop ≤ y.start
  /-- Without a fault the iteration comes to rest on the closing bracket. -/
  rest : fault? = none → doc[s.stop - 1]? = some container.closer ∧
    ∀ n, children.length < n →
      ((ofOffset container doc s.start).after n).place = .ofOffset doc (s.stop - 1)
  /-- A fault is a byte strictly inside of the span. -/
  fault : ∀ x ∈ fault?, ∃ offset byte, x = .badByte offset byte ∧ s.start < offset ∧
    offset < s.stop ∧ doc[offset]? = some byte

theorem exists_answers (container : Container) (doc : Bytes) (offset : Nat) :
    ∃ children fault?, Answers ⟨container, .ofOffset doc offset, true, false⟩ children fault? ∧
      children.length ≤ doc.length := by
  refine ⟨_, _, (gives_listChildren container true (.ofOffset doc offset)).answer, ?_⟩
  calc ((Place.ofOffset doc offset).listChildren container true).children.length
    _ ≤ (doc.drop offset).length := Place.length_listChildren container true _
    _ ≤ doc.length := by simp

theorem ofWord?_eq_some {container : Container} {doc : Bytes} {width : Nat} {start : BitVec width}
    {cs : Children} :
    ofWord? container doc start = some cs ↔
      start ≠ .allOnes width ∧ cs = ofWord container doc start := by
  unfold ofWord?
  by_cases hlast : start = .allOnes width
  · simp [hlast]
  · simp [hlast, eq_comm]

theorem ofWord_eq (container : Container) (doc : Bytes) {width : Nat} {start : BitVec width}
    (h : start ≠ .allOnes width) :
    ofWord container doc start = ofOffset container doc start.toNat := by
  have hlast : start.toNat ≠ (BitVec.allOnes width).toNat := fun heq => h (BitVec.eq_of_toNat_eq heq)
  have hsum : (start + 1).toNat = start.toNat + 1 := by
    have hlt := start.isLt
    rw [BitVec.toNat_allOnes] at hlast
    simp only [BitVec.ofNat_eq_ofNat, BitVec.toNat_add, BitVec.toNat_ofNat, Nat.add_mod_mod]
    exact Nat.mod_eq_of_lt (by omega)
  rw [ofWord, hsum, ofOffset]

/-- Asking for the children of a value that was read stays inside of it. Whatever it is started on, an
iteration gives no more children than there are bytes, at most one fault, and then nothing. A span
starts at a machine word. At the last word the iteration is over the bytes from the front on, or none
comes about where overflow is checked; at any other word it is the iteration from that offset. -/
theorem calls_inside (doc : Bytes) :
    (∀ (s : Span) (p : Place) (k : Kind) (container : Container),
      (Place.ofOffset doc s.start).readValue = .ok (s, p) →
      (Place.ofOffset doc s.start).kind = .ok k → k.container? = some container →
      ∃ children fault?, StaysInside doc s container children fault?) ∧
    ∀ (container : Container) (width : Nat) (start : BitVec width),
      (∃ children fault?, (ofWord container doc start).Answers children fault? ∧
        children.length ≤ doc.length) ∧
      (∀ cs, ofWord? container doc start = some cs ↔
        start ≠ .allOnes width ∧ cs = ofWord container doc start) ∧
      (start ≠ .allOnes width →
        ofWord container doc start = ofOffset container doc start.toNat) := by
  constructor
  · intro s p k container hread hk hc
    have hs : s.IsExtent doc := by
      obtain ⟨-, -, hext, -⟩ := Place.isExtent_of_readValue hread
      exact hext
    have hgives : (ofOffset container doc s.start).Gives _ _ := gives_iff.2 rfl
    obtain ⟨hfollow, hspans⟩ := hs.spans hk hc
    refine ⟨_, _, {
      answers := hgives.answer
      keyed := Place.isSome_key_of_mem_listChildren container true _
      inside := fun x hx => (hspans x hx).2
      read := fun x hx => ⟨_, (hspans x hx).1⟩
      follow := hfollow
      rest := fun hclean => ?_
      fault := fun x hx => hs.isInside_of_fault hk hc hx }⟩
    rw [hclean] at hgives
    exact rests_on_closer hs hk hc hgives
  · intro container width start
    exact ⟨exists_answers container doc (start + 1).toNat, fun cs => ofWord?_eq_some,
      ofWord_eq container doc⟩

/-- A member is given, then the byte in place of the next colon, and then nothing. A span that starts
at the last word is gone through from the front. -/
theorem calls_inside_broken :
    let doc := utf8 "\x7b\"a\":[1],\"b\" 2\x7d"
    let cs := ofOffset .object doc 0
    (Place.ofOffset doc 0).readValue = .ok (⟨0, 15⟩, ⟨15, []⟩) ∧
      (Place.ofOffset doc 0).kind = .ok .object ∧
      (∃ children fault?, StaysInside doc ⟨0, 15⟩ .object children fault?) ∧
      cs.answer 0 = some (.ok ⟨some ⟨1, 4⟩, ⟨5, 8⟩⟩) ∧
      cs.answer 1 = some (.error (.badByte 13 (Byte.ofChar '2'))) ∧ cs.answer 2 = none ∧
      (ofWord .array doc (BitVec.allOnes 64)).answer 0 = some (.ok ⟨none, ⟨0, 15⟩⟩) ∧
      ofWord? .array doc (BitVec.allOnes 64) = none := by
  intro doc cs
  have hread : (Place.ofOffset doc 0).readValue = .ok (⟨0, 15⟩, ⟨15, []⟩) := by decide +kernel
  have hk : (Place.ofOffset doc 0).kind = .ok .object := by decide +kernel
  exact ⟨hread, hk, (calls_inside doc).1 ⟨0, 15⟩ _ _ .object hread hk rfl, by decide +kernel,
    by decide +kernel, by decide +kernel, by decide +kernel, by decide +kernel⟩

end Children

end JsonSpan

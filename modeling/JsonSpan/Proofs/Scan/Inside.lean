import JsonSpan.Proofs.Scan.Extents
import JsonSpan.Proofs.Scan.Locality

/-!
# Reading between brackets

Between the brackets of a container nothing that reads children can run out of bytes: wherever it
stops, with a result or stuck, the matching of brackets has the same closer still to come
(`Place.Inside.level_nextChild`). So a listing that is cut short is cut short by a byte inside of the
container (`Span.IsExtent.isInside_of_fault`).
-/

namespace JsonSpan

/-- The place that was found where a child may start. -/
def Opening.place : Opening → Place
  | .child start => start
  | .closer place => place

namespace Place

/-- Between brackets: the closer that is owed is found, and `stop` is the place after it. -/
def Inside (stop p : Place) : Prop :=
  ∃ closer, matchBrackets [closer] .outside p.offset p.rest = .ok stop

variable {stop p q : Place}

theorem Inside.past (h : Inside stop p) : p.Past stop := by
  obtain ⟨closer, h⟩ := h
  exact past_matchBrackets h

theorem Inside.rest_ne_nil (h : Inside stop p) : p.rest ≠ [] :=
  h.past.rest_ne_nil

theorem Inside.of_level (h : Inside stop p) (hl : p.Level q) : Inside stop q := by
  obtain ⟨closer, h⟩ := h
  exact ⟨closer, (hl.2 [closer] (by simp)).symm.trans h⟩

/-! ### Plain scans -/

/-- A scan that reads only plain bytes, also where it gets stuck. -/
def StaysPlain (scan : Place → Scan) : Prop :=
  ∀ p : Place, p.Plainly (stopOf id (scan p))

namespace StaysPlain

variable {scan scan' : Place → Scan}

theorem ok : StaysPlain .ok := Plainly.refl

theorem error : StaysPlain .error := Plainly.refl

theorem bind (hs : StaysPlain scan) (hs' : StaysPlain scan') :
    StaysPlain fun p => scan p >>= scan' :=
  fun p => rel_stopOf_bind (R := Plainly) Plainly.trans (hs p) fun q _ _ => hs' q

theorem onByte {accept : UInt8 → Bool} (ha : ∀ b, accept b → IsPlain b) (hs : StaysPlain scan)
    (hs' : StaysPlain scan') : StaysPlain (onByte accept scan scan') := by
  intro p
  rw [Place.onByte]
  split
  · next b hb =>
    split
    · next hc => exact (plainly_next hb (ha b hc)).trans (hs p.next)
    · exact hs' p
  · exact hs' p

end StaysPlain

theorem staysPlain_skipIf {accept : UInt8 → Bool} (ha : ∀ b, accept b → IsPlain b) :
    StaysPlain fun p => .ok (p.skipIf accept) :=
  plainly_skipIf ha

theorem isPlain_of_eq {b c : UInt8} (hc : IsPlain c) (h : (b == c) = true) : IsPlain b := by
  rw [beq_iff_eq] at h
  exact h ▸ hc

theorem isPlain_of_eq_or {b c d : UInt8} (hc : IsPlain c) (hd : IsPlain d)
    (h : (b == c || b == d) = true) : IsPlain b := by
  rw [Bool.or_eq_true] at h
  exact h.elim (isPlain_of_eq hc) (isPlain_of_eq hd)

theorem staysPlain_someDigits : StaysPlain someDigits := by
  rw [someDigits_eq]
  exact .onByte (fun _ => isPlain_of_isDigit)
    (fun p => plainly_skipWhile (fun _ => isPlain_of_isDigit) p.offset p.rest) .error

theorem staysPlain_skipNumber : StaysPlain skipNumber := by
  have hfraction : StaysPlain skipFraction := by
    rw [skipFraction_eq]
    exact .onByte (fun _ => isPlain_of_eq (by decide)) staysPlain_someDigits .ok
  have hexponent : StaysPlain skipExponent := by
    rw [skipExponent_eq]
    exact .onByte (fun _ => isPlain_of_eq_or (by decide) (by decide))
      ((staysPlain_skipIf fun _ => isPlain_of_eq_or (by decide) (by decide)).bind
        staysPlain_someDigits) .ok
  rw [skipNumber_eq]
  exact (((staysPlain_skipIf fun _ => isPlain_of_eq (by decide)).bind
    staysPlain_someDigits).bind hfraction).bind hexponent

theorem staysPlain_skipWord {word : Bytes} (hw : ∀ b ∈ word, IsPlain b) :
    StaysPlain (skipWord word) := by
  induction word with
  | nil => exact .ok
  | cons w ws ih =>
    rw [skipWord_cons_eq]
    exact .onByte (fun _ => isPlain_of_eq (hw w (by simp))) (ih fun b hb => hw b (by simp [hb]))
      .error

/-! ### Strings and brackets -/

theorem matchBrackets_of_stringTail_error {owed : Bytes} {offset : Nat} {rest : Bytes}
    (h : stringTail offset rest = .error q) (stop : Place) :
    matchBrackets owed .inside offset rest ≠ .ok stop := by
  rw [matchBrackets_inside, h]
  exact nofun

theorem matchBrackets_append_error {closers : Bytes} {mode : Quoting} {offset : Nat} {rest : Bytes}
    (h : matchBrackets closers mode offset rest = .error q) (hc : closers ≠ []) (owed : Bytes) :
    matchBrackets (closers ++ owed) mode offset rest = .error q := by
  fun_induction matchBrackets closers mode offset rest
  case case1 => exact h
  case case2 ih | case3 ih | case4 ih | case12 ih => exact ih h hc
  case case5 hq hb ih =>
    rw [matchBrackets_inside_other _ _ _ hq hb]
    exact ih h hc
  case case6 ih | case7 ih => exact ih h (by simp)
  case case8 => exact absurd rfl hc
  case case9 => cases h
  case case10 offset r b closers he h₁ h₂ hb ih =>
    have hne : closers ≠ [] := fun hnil => he (by rw [hnil]; rfl)
    rw [List.cons_append, matchBrackets_closer _ _ hb (by simp [hne])]
    exact ih h hne
  case case11 offset b r h₁ h₂ hb c closers hcb =>
    rw [← h, List.cons_append, matchBrackets_wrongCloser _ _ _ hb (by simpa using hcb)]
  case case13 h₁ h₂ h₃ h₄ ih =>
    rw [matchBrackets_plain _ _ _ ⟨h₁, h₂, fun e => h₃ (.inl e), fun e => h₃ (.inr e), h₄⟩]
    exact ih h hc

theorem Inside.skipContainer_ne_error (h : Inside stop p) (container : Container) {r : Bytes}
    (hr : p.rest = container.opener :: r) : p.skipContainer ≠ .error q := by
  intro he
  obtain ⟨closer, h⟩ := h
  rw [skipContainer, hr, matchBrackets_opener] at he
  rw [hr, matchBrackets_opener] at h
  have hmore := matchBrackets_append_error he (by simp) [closer]
  cases h.symm.trans hmore

/-! ### Wherever reading stops -/

theorem Inside.level_of_skipValue_error (h : Inside stop p) (he : p.skipValue = .error q) :
    p.Level q := by
  unfold skipValue at he
  split at he
  case h_1 =>
    cases he
    exact .refl p
  case h_2 hk =>
    obtain ⟨r, hr⟩ := rest_of_kind? hk rfl
    exact absurd he (h.skipContainer_ne_error .object hr)
  case h_3 hk =>
    obtain ⟨r, hr⟩ := rest_of_kind? hk rfl
    exact absurd he (h.skipContainer_ne_error .array hr)
  case h_4 hk =>
    obtain ⟨closer, h⟩ := h
    obtain ⟨r, hr⟩ := rest_of_kind? hk rfl
    rw [skipString, hr] at he
    rw [hr, matchBrackets_quote] at h
    exact absurd h (matchBrackets_of_stringTail_error he stop)
  case h_5 =>
    have hplain := staysPlain_skipNumber p
    rw [he] at hplain
    exact hplain.level
  case h_6 | h_7 =>
    have hword : ∀ b ∈ wordOf p.byte?, IsPlain b := isPlain_of_mem_wordOf
    have hplain := staysPlain_skipWord hword p
    rw [he] at hplain
    exact hplain.level

theorem Inside.level_skipValue (h : Inside stop p) : p.Level (stopOf id p.skipValue) := by
  cases hr : p.skipValue with
  | error q => exact h.level_of_skipValue_error hr
  | ok q => exact ⟨(past_skipValue hr).after, fun _ ho => matchBrackets_skipValue ho hr⟩

theorem Inside.level_readValue (h : Inside stop p) : p.Level (stopOf Prod.snd p.readValue) := by
  have hl := h.level_skipValue
  rw [readValue]
  split <;> rename_i hr <;> rw [hr] at hl <;> exact hl

theorem level_expect {b : UInt8} (hb : IsPlain b) (p : Place) :
    p.Level (stopOf id (p.expect b)) := by
  rw [expect]
  split
  · next hp => exact (plainly_next hp hb).level
  · exact .refl p

theorem level_skipBlanks (p : Place) : p.Level p.skipBlanks :=
  (plainly_skipBlanks p).level

theorem level_stopOf_openChild (container : Container) (fresh : Bool) (p : Place) :
    p.Level (stopOf Opening.place (p.openChild container fresh)) := by
  refine (level_skipBlanks p).trans ?_
  simp only [openChild]
  split
  · exact .refl _
  · split
    · split <;> exact .refl _
    · refine rel_stopOf_bind (R := Level) Level.trans (level_expect (by decide) _) ?_
      exact fun q _ _ => level_skipBlanks q

theorem Inside.level_readKey (h : Inside stop p) : p.Level (stopOf Prod.snd p.readKey) := by
  rw [readKey]
  split
  · refine rel_stopOf_bind (R := Level) Level.trans h.level_readValue ?_
    rintro ⟨key, q⟩ _ _
    refine (level_skipBlanks q).trans ?_
    refine rel_stopOf_bind (R := Level) Level.trans (level_expect (by decide) _) ?_
    exact fun r _ _ => level_skipBlanks r
  · exact .refl p

theorem Inside.level_readChild (h : Inside stop p) (container : Container) :
    p.Level (stopOf Prod.snd (p.readChild container)) := by
  cases container with
  | object =>
    refine rel_stopOf_bind (R := Level) Level.trans h.level_readKey ?_
    rintro ⟨key, q⟩ _ hq
    refine rel_stopOf_bind (R := Level) Level.trans (h.of_level hq).level_readValue ?_
    exact fun r _ _ => .refl _
  | array =>
    refine rel_stopOf_bind (R := Level) Level.trans h.level_readValue ?_
    exact fun r _ _ => .refl _

/-- Wherever the reading of a child stops, the same closer is still to come. -/
theorem Inside.level_nextChild (h : Inside stop p) (container : Container) (fresh : Bool) :
    p.Level (stopOf Prod.snd (p.nextChild container fresh)) := by
  refine rel_stopOf_bind (R := Level) Level.trans (level_stopOf_openChild container fresh p) ?_
  intro opening _ hq
  cases opening with
  | closer q => exact .refl _
  | child q =>
    refine rel_stopOf_bind (R := Level) Level.trans ((h.of_level hq).level_readChild container) ?_
    exact fun r _ _ => .refl _

theorem Inside.exists_of_fault (h : Inside stop p) (container : Container) (fresh : Bool)
    {x : Fault} (hx : (p.listChildren container fresh).fault? = some x) :
    ∃ q, p.Level q ∧ x = q.fault := by
  induction hlen : p.rest.length using Nat.strongRecOn generalizing p fresh with
  | ind len ih =>
    have hlevel := h.level_nextChild container fresh
    rw [listChildren] at hx
    split at hx
    · next child q hnext =>
      rw [hnext] at hlevel
      have hshort := (past_nextChild hnext).2.2.length_lt
      obtain ⟨r, hr, he⟩ := ih _ (hlen ▸ hshort) (h.of_level hlevel) false hx rfl
      exact ⟨r, hlevel.trans hr, he⟩
    · cases hx
    · next q hnext =>
      rw [hnext] at hlevel
      exact ⟨q, hlevel, (Option.some.inj hx).symm⟩

end Place

/-- A byte strictly inside of a span is at fault. -/
def Fault.IsInside (doc : Bytes) (s : Span) (x : Fault) : Prop :=
  ∃ offset byte, x = .badByte offset byte ∧ s.start < offset ∧ offset < s.stop ∧
    doc[offset]? = some byte

/-- The children of a value are cut short only by a byte strictly inside of it. -/
theorem Span.IsExtent.isInside_of_fault {doc : Bytes} {s : Span} {k : Kind} {container : Container}
    (h : s.IsExtent doc) (hk : (Place.ofOffset doc s.start).kind = .ok k)
    (hc : k.container? = some container) {x : Fault}
    (hx : (Listing.ofOffset container doc s.start).fault? = some x) : x.IsInside doc s := by
  have hinside : Place.Inside (.ofOffset doc s.stop) (.ofOffset doc (s.start + 1)) :=
    ⟨container.closer, h.matchBrackets hk hc⟩
  obtain ⟨q, hq, rfl⟩ := hinside.exists_of_fault container true hx
  have hpast := (hinside.of_level hq).past
  have hplace : q = .ofOffset doc q.offset := hq.1.ofOffset
  obtain ⟨b, r, hrest⟩ := List.exists_cons_of_ne_nil hpast.rest_ne_nil
  refine ⟨q.offset, b, ?_, hq.1.offset_le, hpast.offset_lt, ?_⟩
  · rw [Place.fault, hrest]
  · have hdrop : doc.drop q.offset = b :: r := by
      rw [← hrest]
      exact (congrArg Place.rest hplace).symm
    rw [← List.head?_drop, hdrop, List.head?_cons]

end JsonSpan

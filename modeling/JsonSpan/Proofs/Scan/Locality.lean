import JsonSpan.Proofs.Fallible
import JsonSpan.Scan.Children

/-!
# Scanners look no further than where they stop

A document can be framed: bytes are put before and after it (`Frame.doc`), and every place in it has
its counterpart in the framed document (`Frame.place`). A scan is local (`Place.Local`) if it does
the same from both. It ends at counterparts, in the same way, if it leaves something of the inner
document over, since what it has not come to cannot matter; and a value that ends within the inner
document is also found there when the frame is taken away.

Scans are put together from few parts, and are local because the parts are. Those that go on byte by
byte, a string and the matching of brackets, are runs of a machine (`Place.run`). All but that of a
number also see where they end, and leave nothing open (`Place.SelfDelimiting`).
-/

namespace JsonSpan

section

variable {α β : Type}

/-- Where a reading ended: the place it reached with its result, or the one where it is stuck. -/
def stopOf (reached : α → Place) : Except Place α → Place
  | .ok a => reached a
  | .error q => q

theorem rel_stopOf_bind {R : Place → Place → Prop} (trans : ∀ {p q r}, R p q → R q r → R p r)
    {p : Place} {reached : α → Place} {reached' : β → Place} {x : Except Place α}
    {k : α → Except Place β} (hx : R p (stopOf reached x))
    (hk : ∀ a, x = .ok a → R p (reached a) → R (reached a) (stopOf reached' (k a))) :
    R p (stopOf reached' (x >>= k)) := by
  cases x with
  | error q => exact hx
  | ok a => exact trans hx (hk a rfl hx)

end

/-! ### Frames -/

/-- Bytes to be put before and after a document. -/
structure Frame where
  before : Bytes
  after : Bytes

namespace Frame

variable (f : Frame)

def doc (inner : Bytes) : Bytes :=
  f.before ++ (inner ++ f.after)

/-- The counterpart of a place in the framed document. -/
def place (p : Place) : Place :=
  ⟨p.offset + f.before.length, p.rest ++ f.after⟩

theorem place_ofOffset {inner : Bytes} {n : Nat} (hn : n ≤ inner.length) :
    f.place (.ofOffset inner n) = .ofOffset (f.doc inner) (n + f.before.length) := by
  rw [place, Place.ofOffset, Place.ofOffset, doc, Nat.add_comm, ← List.drop_drop, List.drop_left,
    List.drop_append_of_le_length hn]

variable {f} {p q : Place}

theorem place_injective (h : f.place p = f.place q) : p = q := by
  obtain ⟨po, pr⟩ := p
  obtain ⟨qo, qr⟩ := q
  simp only [place, Place.mk.injEq, Nat.add_right_cancel_iff, List.append_cancel_right_eq] at h
  rw [h.1, h.2]

theorem next_place (h : p.rest ≠ []) : (f.place p).next = f.place p.next := by
  obtain ⟨offset, rest⟩ := p
  obtain ⟨b, r, rfl⟩ := List.exists_cons_of_ne_nil h
  simp only [place, Place.next, List.cons_append, List.tail_cons, Nat.add_right_comm]

theorem byte?_place (h : p.rest ≠ []) : (f.place p).byte? = p.byte? := by
  obtain ⟨offset, rest⟩ := p
  obtain ⟨b, r, rfl⟩ := List.exists_cons_of_ne_nil h
  rfl

theorem place_of_after (h : p.rest = []) (hf : f.after = []) :
    f.place p = ⟨p.offset + f.before.length, []⟩ := by
  rw [place, h, hf]
  rfl

theorem after_of_place (h : (f.place p).After (f.place q)) : p.After q := by
  obtain ⟨taken, hr, ho⟩ := h
  simp only [place, ← List.append_assoc, List.append_cancel_right_eq] at hr
  refine ⟨taken, hr, ?_⟩
  simp only [place] at ho
  omega

theorem past_of_place (h : (f.place p).Past (f.place q)) : p.Past q := by
  obtain ⟨taken, hne, hr, ho⟩ := h
  simp only [place, ← List.append_assoc, List.append_cancel_right_eq] at hr
  refine ⟨taken, hne, hr, ?_⟩
  simp only [place] at ho
  omega

theorem exists_place {r : Place} (h : (f.place p).After r) (h' : r.After (f.place q)) :
    ∃ r', r = f.place r' := by
  obtain ⟨taken, _, ho⟩ := h
  obtain ⟨left, hr, _⟩ := h'
  refine ⟨⟨p.offset + taken.length, left ++ q.rest⟩, ?_⟩
  obtain ⟨offset, rest⟩ := r
  simp only [place, Place.mk.injEq] at *
  exact ⟨by omega, by rw [hr, List.append_assoc]⟩

end Frame

namespace Place

theorem After.rest_ne_nil {p q : Place} (h : p.After q) (hq : q.rest ≠ []) : p.rest ≠ [] := by
  obtain ⟨taken, hr, _⟩ := h
  rw [hr]
  simp [hq]

theorem After.eq_of_nil {p q : Place} (h : p.After q) (hp : p.rest = []) : q = p := by
  obtain ⟨taken, hr, ho⟩ := h
  obtain ⟨offset, rest⟩ := q
  obtain ⟨offset', rest'⟩ := p
  subst hp
  obtain ⟨rfl, rfl⟩ := List.append_eq_nil_iff.1 hr.symm
  exact congrArg (Place.mk · []) ho

theorem Past.rest_ne_nil {p q : Place} (h : p.Past q) : p.rest ≠ [] := by
  obtain ⟨taken, hne, hr, _⟩ := h
  rw [hr]
  simp [hne]

/-! ### Local scans -/

/-- What a scan does is decided by the bytes up to where it stops. -/
structure Local (scan : Place → Scan) : Prop where
  /-- It stops at a place that comes after its start. -/
  after (p : Place) : p.After (stopOf id (scan p))
  /-- In a frame it ends in the same way, if it leaves something over or nothing comes behind. -/
  frame {f : Frame} {p : Place} (h : (stopOf id (scan p)).rest ≠ [] ∨ f.after = []) :
    scan (f.place p) = mapBoth f.place f.place (scan p)
  /-- What it finds in a frame without leaving the inner document, it finds without the frame. -/
  cut {f : Frame} {p q : Place} (h : scan (f.place p) = .ok (f.place q)) : scan p = .ok q

namespace Local

variable {scan scan' : Place → Scan} {accept : UInt8 → Bool}

theorem ok : Local .ok where
  after := After.refl
  frame _ := rfl
  cut h := congrArg Except.ok (Frame.place_injective (Except.ok.inj h))

theorem error : Local .error where
  after := After.refl
  frame _ := rfl
  cut h := by cases h

theorem bind (hs : Local scan) (hs' : Local scan') : Local fun p => scan p >>= scan' where
  after p := rel_stopOf_bind (R := After) After.trans (hs.after p) fun q _ _ => hs'.after q
  frame {f p} h := by
    have hx : scan (f.place p) = mapBoth f.place f.place (scan p) := by
      refine hs.frame (h.imp_left fun hne => ?_)
      cases hp : scan p with
      | error q =>
        rw [hp] at hne
        exact hne
      | ok q =>
        rw [hp] at hne
        exact (hs'.after q).rest_ne_nil hne
    refine bind_eq_mapBoth hx fun q hq => hs'.frame (h.imp_left fun hne => ?_)
    rw [hq] at hne
    exact hne
  cut {f p r} h := by
    cases hq : scan (f.place p) with
    | error q =>
      rw [hq] at h
      cases h
    | ok q =>
      have hr : scan' q = .ok (f.place r) := by
        rw [hq] at h
        exact h
      have hpq : (f.place p).After q := by simpa [hq, stopOf] using hs.after (f.place p)
      have hqr : q.After (f.place r) := by simpa [hr, stopOf] using hs'.after q
      obtain ⟨q', rfl⟩ := Frame.exists_place hpq hqr
      show (scan p >>= scan') = _
      rw [hs.cut hq]
      exact hs'.cut hr

end Local

/-- One scan after a byte of a class, and another one if no such byte stands there. -/
def onByte (accept : UInt8 → Bool) (yes no : Place → Scan) (p : Place) : Scan :=
  match p.byte? with
  | some b => if accept b then yes p.next else no p
  | none => no p

theorem onByte_cons {accept : UInt8 → Bool} {yes no : Place → Scan} {offset : Nat} {b : UInt8}
    {r : Bytes} : onByte accept yes no ⟨offset, b :: r⟩ =
      if accept b then yes ⟨offset + 1, r⟩ else no ⟨offset, b :: r⟩ := rfl

theorem local_onByte {accept : UInt8 → Bool} {yes no : Place → Scan} (hy : Local yes)
    (hn : Local no) : Local (onByte accept yes no) where
  after p := by
    obtain ⟨offset, rest⟩ := p
    cases rest with
    | nil => exact hn.after _
    | cons b r =>
      rw [onByte_cons]
      split
      · exact (hy.after _).cons.after
      · exact hn.after _
  frame {f p} h := by
    obtain ⟨offset, rest⟩ := p
    cases rest with
    | nil =>
      have hstop : stopOf id (no ⟨offset, []⟩) = ⟨offset, []⟩ := (hn.after _).eq_of_nil rfl
      have hf : f.after = [] := h.resolve_left fun hne => hne (congrArg Place.rest hstop)
      have hframe := hn.frame (f := f) (p := ⟨offset, []⟩) (.inr hf)
      rw [Frame.place_of_after rfl hf] at hframe ⊢
      exact hframe
    | cons b r =>
      rw [onByte_cons] at h ⊢
      show (if accept b then yes ⟨offset + f.before.length + 1, r ++ f.after⟩ else _) = _
      split at h <;> rename_i hb <;> simp only [hb, if_true, if_false, Bool.false_eq_true]
      · rw [Nat.add_right_comm]
        exact hy.frame h
      · exact hn.frame h
  cut {f p q} h := by
    obtain ⟨offset, rest⟩ := p
    cases rest with
    | nil =>
      cases hf : f.after with
      | nil =>
        rw [Frame.place_of_after rfl hf] at h
        refine hn.cut (f := f) ?_
        rw [Frame.place_of_after rfl hf]
        exact h
      | cons b r =>
        -- the byte stands behind the inner document, so a scan that reads it ends behind it
        have hp : f.place ⟨offset, []⟩ = ⟨offset + f.before.length, b :: r⟩ := by
          rw [Frame.place, hf]
          rfl
        rw [hp, onByte_cons] at h
        split at h
        · have hpast : (f.place ⟨offset, []⟩).Past (f.place q) := by
            rw [hp]
            simpa [h, stopOf] using (hy.after ⟨offset + f.before.length + 1, r⟩).cons
          exact absurd rfl (Frame.past_of_place hpast).rest_ne_nil
        · rw [← hp] at h
          exact hn.cut h
    | cons b r =>
      have hp : onByte accept yes no (f.place ⟨offset, b :: r⟩) =
          if accept b then yes (f.place ⟨offset + 1, r⟩) else no (f.place ⟨offset, b :: r⟩) := by
        simp only [Frame.place, List.cons_append, onByte_cons, Nat.add_right_comm]
      rw [hp] at h
      rw [onByte_cons]
      split at h <;> rename_i hb
      · rw [if_pos hb]
        exact hy.cut h
      · rw [if_neg hb]
        exact hn.cut h

/-! ### Byte by byte -/

/-- What a machine does at a byte: it goes on, it ends after the byte, or it is stuck before it. -/
inductive Verdict (σ : Type) where
  | go (state : σ)
  | done
  | stuck

/-- The run of a machine that reads byte by byte until it is done. -/
def run {σ : Type} (step : σ → UInt8 → Verdict σ) : σ → Nat → Bytes → Scan
  | _, offset, [] => .error ⟨offset, []⟩
  | s, offset, b :: r =>
    match step s b with
    | .go s => run step s (offset + 1) r
    | .done => .ok ⟨offset + 1, r⟩
    | .stuck => .error ⟨offset, b :: r⟩

section

variable {σ : Type} (step : σ → UInt8 → Verdict σ)

theorem past_run {s : σ} {offset : Nat} {rest : Bytes} {q : Place}
    (h : run step s offset rest = .ok q) : Past ⟨offset, rest⟩ q := by
  induction rest generalizing s offset with
  | nil => cases h
  | cons b r ih =>
    rw [run] at h
    split at h
    · exact (ih h).after.cons
    · cases h
      exact (After.refl _).cons
    · cases h

theorem after_run (s : σ) (offset : Nat) (rest : Bytes) :
    After ⟨offset, rest⟩ (stopOf id (run step s offset rest)) := by
  induction rest generalizing s offset with
  | nil => exact .refl _
  | cons b r ih =>
    rw [run]
    split
    · exact (ih _ _).cons.after
    · exact (After.refl _).cons.after
    · exact .refl _

theorem local_run (s : σ) : Local fun p => run step s p.offset p.rest where
  after p := after_run step s p.offset p.rest
  frame {f p} h := by
    obtain ⟨offset, rest⟩ := p
    simp only [Frame.place] at h ⊢
    induction rest generalizing s offset with
    | nil =>
      have hf : f.after = [] := h.resolve_left fun hne => hne rfl
      simp [run, Frame.place, hf]
    | cons b r ih =>
      rw [run] at h
      rw [List.cons_append, run, run]
      split <;> rename_i hstep <;> rw [hstep] at h
      · rw [Nat.add_right_comm]
        exact ih _ _ h
      · simp [Frame.place, Nat.add_right_comm]
      · rfl
  cut {f p q} h := by
    obtain ⟨offset, rest⟩ := p
    simp only [Frame.place] at h ⊢
    induction rest generalizing s offset with
    | nil =>
      have hpast : (f.place ⟨offset, []⟩).Past (f.place q) := past_run step h
      exact absurd rfl (Frame.past_of_place hpast).rest_ne_nil
    | cons b r ih =>
      rw [List.cons_append, run] at h
      rw [run]
      split <;> rename_i hstep <;> rw [hstep] at h
      · rw [Nat.add_right_comm] at h
        exact ih _ _ h
      · refine congrArg Except.ok (Frame.place_injective (f := f) ?_)
        rw [Frame.place, Nat.add_right_comm]
        exact Except.ok.inj h
      · cases h

end

/-! ### The scanners -/

theorem local_skipWhile (accept : UInt8 → Bool) :
    Local fun p => .ok (skipWhile accept p.offset p.rest) where
  after p := after_skipWhile accept p.offset p.rest
  frame {f p} h := by
    obtain ⟨offset, rest⟩ := p
    simp only [Frame.place, mapBoth_ok, stopOf, id] at h ⊢
    congr 1
    induction rest generalizing offset with
    | nil =>
      have hf : f.after = [] := h.resolve_left fun hne => hne rfl
      rw [hf]
      rfl
    | cons b r ih =>
      rw [skipWhile] at h
      rw [List.cons_append, skipWhile, skipWhile]
      split <;> rename_i hb
      · rw [if_pos hb] at h
        rw [Nat.add_right_comm]
        exact ih _ h
      · rfl
  cut {f p q} h := by
    obtain ⟨offset, rest⟩ := p
    simp only [Frame.place, Except.ok.injEq] at h ⊢
    induction rest generalizing offset with
    | nil =>
      have hafter : (f.place ⟨offset, []⟩).After (f.place q) := by
        rw [Frame.place, Frame.place, ← h]
        exact after_skipWhile accept _ _
      exact ((Frame.after_of_place hafter).eq_of_nil rfl).symm
    | cons b r ih =>
      rw [List.cons_append, skipWhile] at h
      rw [skipWhile]
      split <;> rename_i hb
      · rw [if_pos hb, Nat.add_right_comm] at h
        exact ih _ h
      · rw [if_neg hb] at h
        exact Frame.place_injective (f := f) h

theorem skipIf_eq (accept : UInt8 → Bool) :
    (fun p => .ok (p.skipIf accept)) = onByte accept .ok .ok := by
  funext ⟨offset, rest⟩
  cases rest with
  | nil => rfl
  | cons b r =>
    show Except.ok (if accept b then _ else _) = if accept b then _ else _
    split <;> rfl

theorem someDigits_eq :
    someDigits = onByte Byte.isDigit (fun p => .ok p.skipDigits) .error := by
  funext ⟨offset, rest⟩
  cases rest with
  | nil => rfl
  | cons b r =>
    show (if Byte.isDigit b then _ else _) = if Byte.isDigit b then _ else _
    split
    · next hb => simp only [skipDigits, skipWhile, hb, if_true, next, List.tail_cons]
    · rfl

theorem skipFraction_eq : skipFraction = onByte (· == Byte.point) someDigits .ok := by
  funext ⟨offset, rest⟩
  cases rest with
  | nil => rfl
  | cons b r => simp [skipFraction, onByte, byte?]

theorem skipExponent_eq :
    skipExponent = onByte (fun b => b == Byte.ofChar 'e' || b == Byte.ofChar 'E')
      (fun p => .ok (p.skipIf fun b => b == Byte.plus || b == Byte.minus) >>= someDigits) .ok := by
  funext ⟨offset, rest⟩
  cases rest with
  | nil => rfl
  | cons b r =>
    simp only [skipExponent, onByte, byte?, List.head?_cons, Option.some.injEq, Bool.or_eq_true,
      beq_iff_eq]
    rfl

theorem skipNumber_eq : skipNumber = fun p =>
    (((.ok (p.skipIf (· == Byte.minus)) : Scan) >>= someDigits) >>= skipFraction) >>= skipExponent := by
  funext p
  simp only [bind_assoc]
  rfl

theorem skipWord_cons_eq (w : UInt8) (ws : Bytes) :
    skipWord (w :: ws) = onByte (· == w) (skipWord ws) .error := by
  funext ⟨offset, rest⟩
  cases rest with
  | nil => rfl
  | cons b r => simp [skipWord, onByte, byte?]

theorem local_someDigits : Local someDigits := by
  rw [someDigits_eq]
  exact local_onByte (local_skipWhile Byte.isDigit) .error

theorem local_skipIf (accept : UInt8 → Bool) : Local fun p => .ok (p.skipIf accept) := by
  rw [skipIf_eq]
  exact local_onByte .ok .ok

theorem local_skipNumber : Local skipNumber := by
  have hfraction : Local skipFraction := by
    rw [skipFraction_eq]
    exact local_onByte local_someDigits .ok
  have hexponent : Local skipExponent := by
    rw [skipExponent_eq]
    exact local_onByte ((local_skipIf _).bind local_someDigits) .ok
  rw [skipNumber_eq]
  exact (((local_skipIf _).bind local_someDigits).bind hfraction).bind hexponent

theorem local_skipWord (word : Bytes) : Local (skipWord word) := by
  induction word with
  | nil => exact .ok
  | cons w ws ih =>
    rw [skipWord_cons_eq]
    exact local_onByte ih .error

/-- Inside a string, where the state says whether a backslash escapes the next byte. -/
def stringStep (escaped : Bool) (b : UInt8) : Verdict Bool :=
  if escaped then .go false
  else if b = Byte.quote then .done
  else .go (b == Byte.backslash)

theorem stringTail_eq (offset : Nat) (rest : Bytes) :
    stringTail offset rest = run stringStep false offset rest := by
  fun_induction stringTail offset rest with
  | case1 => rfl
  | case2 => rfl
  | case3 => rfl
  | case4 offset b r _ ih => exact ih
  | case5 offset b r hq hb ih =>
    rw [run, stringStep, if_neg (by simp), if_neg hq, beq_eq_false_iff_ne.2 hb]
    exact ih

/-- Between brackets, where the state has the closers that are owed and whether a string is open. -/
def bracketStep (state : Bytes × Quoting) (b : UInt8) : Verdict (Bytes × Quoting) :=
  match state with
  | (closers, .escaped) => .go (closers, .inside)
  | (closers, .inside) =>
    if b = Byte.quote then .go (closers, .outside)
    else if b = Byte.backslash then .go (closers, .escaped)
    else .go (closers, .inside)
  | (closers, .outside) =>
    if b = Byte.openBrace then .go (Byte.closeBrace :: closers, .outside)
    else if b = Byte.openBracket then .go (Byte.closeBracket :: closers, .outside)
    else if b = Byte.closeBrace ∨ b = Byte.closeBracket then
      match closers with
      | [] => .stuck
      | c :: owed => if c = b then if owed.isEmpty then .done else .go (owed, .outside) else .stuck
    else if b = Byte.quote then .go (closers, .inside)
    else .go (closers, .outside)

theorem matchBrackets_eq (closers : Bytes) (mode : Quoting) (offset : Nat) (rest : Bytes) :
    matchBrackets closers mode offset rest = run bracketStep (closers, mode) offset rest := by
  fun_induction matchBrackets closers mode offset rest <;> simp_all [run, bracketStep]

theorem local_matchBrackets (closers : Bytes) (mode : Quoting) :
    Local fun p => matchBrackets closers mode p.offset p.rest := by
  simp only [matchBrackets_eq]
  exact local_run bracketStep (closers, mode)

/-! ### Values -/

/-- The scan of a value that starts with a byte. -/
def skipValueOf (b : UInt8) : Place → Scan :=
  match Kind.ofByte? b with
  | none => .error
  | some .object | some .array => skipContainer
  | some .string => onByte (· == Byte.quote) (fun p => stringTail p.offset p.rest) .error
  | some .number => skipNumber
  | some .boolean | some .null => skipWord (wordOf (some b))

theorem skipValue_cons (offset : Nat) (b : UInt8) (r : Bytes) :
    skipValue ⟨offset, b :: r⟩ = skipValueOf b ⟨offset, b :: r⟩ := by
  have hk : kind? ⟨offset, b :: r⟩ = Kind.ofByte? b := rfl
  rw [skipValue, skipValueOf, hk]
  cases hb : Kind.ofByte? b with
  | none => rfl
  | some k =>
    cases k with
    | string =>
      have hquote : b = Byte.quote := by grind [Kind.ofByte?]
      subst hquote
      rfl
    | _ => rfl

theorem local_skipValueOf (b : UInt8) : Local (skipValueOf b) := by
  rw [skipValueOf]
  split
  · exact .error
  · exact local_matchBrackets [] .outside
  · exact local_matchBrackets [] .outside
  · simp only [stringTail_eq]
    exact local_onByte (local_run stringStep false) .error
  · exact local_skipNumber
  · exact local_skipWord _
  · exact local_skipWord _

theorem local_skipValue : Local skipValue where
  after p := by
    obtain ⟨offset, rest⟩ := p
    cases rest with
    | nil => exact .refl _
    | cons b r =>
      rw [skipValue_cons]
      exact (local_skipValueOf b).after _
  frame {f p} h := by
    obtain ⟨offset, rest⟩ := p
    cases rest with
    | nil =>
      have hf : f.after = [] := h.resolve_left fun hne => hne rfl
      rw [Frame.place_of_after rfl hf]
      exact congrArg Except.error (Frame.place_of_after (p := ⟨offset, []⟩) rfl hf).symm
    | cons b r =>
      rw [skipValue_cons] at h ⊢
      rw [← (local_skipValueOf b).frame h]
      exact skipValue_cons _ b _
  cut {f p q} h := by
    obtain ⟨offset, rest⟩ := p
    cases rest with
    | nil => exact absurd rfl (Frame.past_of_place (past_skipValue h)).rest_ne_nil
    | cons b r =>
      rw [skipValue_cons]
      refine (local_skipValueOf b).cut (f := f) ?_
      rw [← h]
      exact (skipValue_cons _ b _).symm

/-! ### Scans that see where they end -/

/-- A scan that ends where what it has read says so: what it finds, it finds in every frame. The scan
of a number is not like that, as another digit goes on with the number. -/
def SelfDelimiting (scan : Place → Scan) : Prop :=
  ∀ (f : Frame) (p q : Place), scan p = .ok q → scan (f.place p) = .ok (f.place q)

namespace SelfDelimiting

theorem ok : SelfDelimiting .ok := by
  intro f p q h
  cases h
  rfl

theorem error : SelfDelimiting .error := by
  intro f p q h
  cases h

theorem onByte {accept : UInt8 → Bool} {scan : Place → Scan} (hs : SelfDelimiting scan) :
    SelfDelimiting (onByte accept scan .error) := by
  intro f p q h
  obtain ⟨offset, rest⟩ := p
  cases rest with
  | nil => cases h
  | cons b r =>
    rw [onByte_cons] at h
    split at h <;> rename_i hb
    · show Place.onByte accept scan .error ⟨offset + f.before.length, b :: (r ++ f.after)⟩ = _
      rw [onByte_cons, if_pos hb, Nat.add_right_comm]
      exact hs f _ q h
    · cases h

end SelfDelimiting

theorem selfDelimiting_run {σ : Type} (step : σ → UInt8 → Verdict σ) (s : σ) :
    SelfDelimiting fun p => run step s p.offset p.rest := by
  intro f p q h
  obtain ⟨offset, rest⟩ := p
  simp only [Frame.place] at h ⊢
  induction rest generalizing s offset with
  | nil => cases h
  | cons b r ih =>
    rw [run] at h
    rw [List.cons_append, run]
    split at h <;> rename_i hstep
    · rw [Nat.add_right_comm]
      exact ih _ _ h
    · cases h
      rw [Nat.add_right_comm]
    · cases h

theorem selfDelimiting_skipWord (word : Bytes) : SelfDelimiting (skipWord word) := by
  induction word with
  | nil => exact .ok
  | cons w ws ih =>
    rw [skipWord_cons_eq]
    exact ih.onByte

/-- Every value but a number ends where it says. -/
theorem skipValue_frame_of_ok {f : Frame} {p q : Place} (h : p.skipValue = .ok q)
    (hk : p.kind? ≠ some .number) : (f.place p).skipValue = .ok (f.place q) := by
  obtain ⟨offset, rest⟩ := p
  cases rest with
  | nil => cases h
  | cons b r =>
    have hbrackets : SelfDelimiting skipContainer := by
      unfold skipContainer
      simp only [matchBrackets_eq]
      exact selfDelimiting_run bracketStep ([], .outside)
    have hscan : SelfDelimiting (skipValueOf b) := by
      rw [skipValueOf]
      split
      · exact .error
      · exact hbrackets
      · exact hbrackets
      · simp only [stringTail_eq]
        exact (selfDelimiting_run stringStep false).onByte
      · next hnumber => exact absurd hnumber hk
      · exact selfDelimiting_skipWord _
      · exact selfDelimiting_skipWord _
    rw [skipValue_cons] at h
    rw [← hscan f _ q h]
    exact skipValue_cons _ b _

end Place

end JsonSpan

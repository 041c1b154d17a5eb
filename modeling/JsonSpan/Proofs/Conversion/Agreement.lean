import JsonSpan.Proofs.Conversion.Converters
import JsonSpan.Proofs.Conversion.Tracking
import JsonSpan.Proofs.Fallible
import JsonSpan.Proofs.Grammar.Selectors

/-!
# The grammar and the conversion do not drift apart

The readers of parts go the way of the readers of meanings, and what the conversion makes of the parts
is what the readers of meanings give. So the conversion never finds other parts than it can use: it
fails as the text denotes nothing, or not at all.
-/

namespace JsonSpan

open Grammar Reader Spelling

/-! ### Meanings -/

section

variable {α β : Type}

@[simp] theorem ofMeaning_ok (a : α) : ofMeaning (.ok a) = Pure.pure a := rfl

@[simp] theorem ofMeaning_error (e : PathError) : ofMeaning (.error e : Meaning α) = throw (.path e) :=
  rfl

theorem ofMeaning_bind (m : Meaning α) (k : α → Meaning β) :
    ofMeaning (m >>= k) = ofMeaning m >>= fun a => ofMeaning (k a) := by
  cases m <;> rfl

theorem ofMeaning_map (m : Meaning α) (f : α → β) :
    ofMeaning (m.map f) = ofMeaning m >>= fun a => Pure.pure (f a) := by
  cases m <;> rfl

end

namespace Conversion

/-! ### Numbers -/

theorem spanSign_of_isDigit {c : Char} (h : c.isDigit) (cs : List Char) :
    spanSign (c :: cs) = (false, c :: cs) := by
  unfold spanSign
  split
  · next heq =>
    cases heq
    exact absurd h (by decide)
  · next heq =>
    cases heq
    exact absurd h (by decide)
  · rfl

theorem isExponent_exponentChars (n : Numeral) : isExponent n.exponentChars = true := by
  unfold Numeral.exponentChars
  cases n.exponent with
  | none => rfl
  | some e =>
    have hdigits : (spanSign (e.sign.chars ++ e.digits.chars)).2 = e.digits.chars := by
      cases e.sign with
      | plus => rfl
      | minus => rfl
      | none =>
        obtain ⟨c, more, hc, hd⟩ := e.digits.exists_chars
        rw [ExponentSign.chars, List.nil_append, hc, spanSign_of_isDigit hd]
    have hall : e.digits.chars.all Char.isDigit = true := List.all_eq_true.2 e.digits.digits
    have hmark : (if e.capital then 'E' else 'e') = 'e' ∨ (if e.capital then 'E' else 'e') = 'E' := by
      cases e.capital <;> decide
    show isExponent (_ :: (e.sign.chars ++ e.digits.chars)) = true
    simp only [isExponent, hdigits, hall]
    simpa using e.digits.nonempty

theorem isNumber_chars (n : Numeral) : isNumber n.chars = true := by
  have hsign : (spanSign n.chars).2 = n.whole.chars ++ (n.fractionChars ++ n.exponentChars) := by
    obtain ⟨c, more, hc, hd⟩ := n.whole.exists_chars
    rw [Numeral.chars, List.append_assoc, List.append_assoc]
    cases n.negative with
    | true => rfl
    | false =>
      rw [if_neg Bool.false_ne_true, List.nil_append, hc, List.cons_append, spanSign_of_isDigit hd]
  have hwhole : Decimal.spanDigits (n.whole.chars ++ (n.fractionChars ++ n.exponentChars)) =
      (n.whole.chars, n.fractionChars ++ n.exponentChars) :=
    n.whole.spanDigits n.isDigit_head_fractionChars
  have hne := n.whole.nonempty
  rw [isNumber, hsign, hwhole]
  unfold Numeral.fractionChars
  cases n.fraction with
  | none =>
    rw [List.nil_append]
    dsimp only
    split
    · next ds hdot =>
      have hhead : '.' ∈ n.exponentChars.head? := by rw [hdot]; rfl
      exact absurd rfl (n.isDigit_head_exponentChars '.' hhead).2
    · simpa [isExponent_exponentChars] using hne
  | some ds =>
    have hspan := ds.spanDigits (r := n.exponentChars) fun c hc => (n.isDigit_head_exponentChars c hc).1
    show (!(n.whole.chars ++ (Decimal.spanDigits (ds.chars ++ n.exponentChars)).1).isEmpty &&
      isExponent (Decimal.spanDigits (ds.chars ++ n.exponentChars)).2) = true
    rw [hspan]
    simpa [isExponent_exponentChars] using fun h => absurd h hne

/-! ### Integers -/

theorem integer_eq {kind : PartKind} {t ds : List Char} (negative : Bool) {inner : List Part}
    (ht : t = if negative then '-' :: ds else ds) (hspan : spanSign t = (negative, ds))
    (hne : ds ≠ []) (h : ∀ c ∈ ds, c.isDigit) :
    integer (.mk kind t inner) = ofMeaning (integerMeaning negative ds) := by
  have hall : ds.all Char.isDigit = true := List.all_eq_true.2 h
  rw [integer, Part.text, integer?, hspan, integerMeaning]
  simp only [hne, hall, ne_eq, not_false_eq_true, true_and]
  generalize (if negative = true then -(Decimal.ofDigits ds : Int) else Decimal.ofDigits ds) = i
  by_cases hrange : Int64.minValue.toInt ≤ i ∧ i ≤ Int64.maxValue.toInt
  · rw [if_pos hrange, if_pos hrange]
    rfl
  · rw [if_neg hrange, if_neg hrange, ht]
    rfl

/-! ### Tokens -/

variable {α : Type}

/-- One part, read by one thing, that converts to what is denoted. -/
def IsPart (kind : PartKind) (convert : Part → Converted α) (t : List Char) (xs : List Part)
    (m : Meaning α) : Prop :=
  ∃ x, xs = [x] ∧ x.kind = kind ∧ x.text = t ∧ convert x = ofMeaning m

/-- One part that converts to what is denoted. -/
def OnePart (convert : Part → Converted α) (_ : List Char) (xs : List Part) (m : Meaning α) : Prop :=
  ∃ x, xs = [x] ∧ convert x = ofMeaning m

theorem IsPart.one {kind : PartKind} {convert : Part → Converted α} {t : List Char} {xs : List Part}
    {m : Meaning α} (h : IsPart kind convert t xs m) : OnePart convert t xs m := by
  obtain ⟨x, rfl, -, -, hm⟩ := h
  exact ⟨x, rfl, hm⟩

theorem tracks_converted (which : Rule) {convert : Part → Converted α} {r : Reader (List Part)}
    {s : Reader (Meaning α)} (h : Tracks (fun t inner m =>
      convert (.mk (.rule which) t inner) = ofMeaning m) r s) :
    Tracks (IsPart (.rule which) convert) (Parts.ruled which r) (Reader.rule which s) := by
  refine (Parts.tracks_ruled which h).mono ?_
  rintro t _ m ⟨inner, rfl, hm⟩
  exact ⟨_, rfl, rfl, rfl, hm⟩

theorem tracks_one {kind : PartKind} {convert : Part → Converted α} {r : Reader (List Part)}
    {s : Reader (Meaning α)} (h : Tracks (IsPart kind convert) r s) : Tracks (OnePart convert) r s :=
  h.mono fun _ _ _ hx => hx.one

theorem tracks_wildcard :
    Tracks (IsPart (.rule .wildcard) member) Parts.wildcard Grammar.wildcard := by
  refine tracks_converted _ (.map_right ((Parts.tracks_plain (takes_text ['*'])).mono ?_))
  intro t inner _ _
  rw [member]
  rfl

theorem tracks_fieldName :
    Tracks (IsPart (.rule .fieldName) member) Parts.fieldName Grammar.fieldName := by
  refine tracks_converted _ (Parts.tracks_inRow_plain (takes_char _) ?_)
  rintro _ c ⟨rfl, _⟩
  refine Parts.tracks_inRow_plain (takes_run _) ?_
  rintro t _ ⟨rfl, _⟩
  refine Parts.tracks_inRow_nil ?_
  rw [member, List.append_nil]
  rfl

theorem tracks_integer :
    Tracks (IsPart (.rule .integer) integer) Parts.integer Grammar.integer := by
  refine tracks_converted _ (Parts.tracks_inRow_plain (Takes.optional (takes_char _)) ?_)
  intro u sign hsign
  refine Parts.tracks_inRow_plain (takes_char _) ?_
  rintro _ d ⟨rfl, hd⟩
  refine Parts.tracks_inRow_plain (takes_run _) ?_
  rintro _ ds ⟨rfl, hds⟩
  refine Parts.tracks_inRow_nil ?_
  rw [List.append_nil]
  have hdigits : ∀ c ∈ d :: ds, c.isDigit := List.forall_mem_cons.2 ⟨hd, hds⟩
  rcases hsign with ⟨rfl, rfl⟩ | ⟨c, rfl, rfl, hc⟩
  · exact integer_eq false rfl (spanSign_of_isDigit hd ds) (List.cons_ne_nil d ds) hdigits
  · rw [beq_iff_eq.1 hc]
    exact integer_eq true rfl rfl (List.cons_ne_nil d ds) hdigits

theorem tracks_string :
    Tracks (IsPart (.rule .string) string) Parts.string Grammar.string := by
  have hquoted (close : Char) : Tracks (fun t inner m =>
      string (.mk (.rule .string) t inner) = ofMeaning m) (Parts.quoted close) (quoted close) := by
    refine Parts.tracks_inRow_plain (takes_text _) fun u _ _ => ?_
    refine Parts.tracks_inRow (Parts.tracks_part _ (Parts.tracks_plain
      (takes_taking (prefix_stringBody close)))) ?_
    rintro t _ _ ⟨_, rfl, rfl, rfl, _⟩
    exact Parts.tracks_inRow_plain (takes_text _) fun v _ _ => Parts.tracks_inRow_nil rfl
  exact tracks_converted _ ((hquoted '"').or (hquoted '\''))

theorem tracks_number :
    Tracks (IsPart (.rule .number) number) Parts.number Grammar.number := by
  refine tracks_converted _ (.map_right (Tracks.withText_right (Parts.tracks_plain takes_numeral)
    |>.mono ?_))
  rintro t inner ⟨_, _⟩ ⟨rfl, rfl, n, rfl⟩
  rw [number, Part.text, if_pos (isNumber_chars n)]
  rfl

theorem tracks_operator : Tracks (fun t xs op => ∃ x, xs = [x] ∧ x.text = t ∧ OperatorText t op)
    Parts.operator Grammar.operator := by
  have hsign (cs : List Char) {op : Option Comparison} (h : OperatorText cs op) :
      Tracks (fun t inner op => inner = [] ∧ OperatorText t op) (Parts.plain (text cs))
        (sign cs op) := by
    refine .map_right ((Parts.tracks_plain (takes_text cs)).mono ?_)
    rintro _ _ _ ⟨rfl, rfl⟩
    exact ⟨rfl, h⟩
  have hall := Tracks.or (hsign _ (.compare .equal)) (.or (hsign _ (.compare .unequal))
    (.or (hsign _ (.compare .lessEqual)) (.or (hsign _ (.compare .greaterEqual))
      (.or (hsign _ .like) (.or (hsign _ (.compare .less)) (hsign _ (.compare .greater)))))))
  refine (Parts.tracks_ruled .operator hall).mono ?_
  rintro t _ op ⟨inner, rfl, rfl, h⟩
  exact ⟨_, rfl, rfl, h⟩

/-- A part as what stands on the left of an operator, and may stand on its right. -/
def SidePart (x : Part) : Side → Prop
  | .string value => x.kind = .rule .string ∧ string x = ofMeaning value
  | .other text value =>
    x.kind ≠ .rule .string ∧ x.kind ≠ .rule .regex ∧ x.text = text ∧ operand x = ofMeaning value

/-- A part as what stands on the right of an operator. -/
def RightPart (x : Part) : RightSide → Prop
  | .regex text source flags =>
    x = .mk (.rule .regex) text [.mk .regexBody source [], .mk .regexFlags flags []]
  | .side side => SidePart x side

theorem SidePart.operand_eq {x : Part} {side : Side} (h : SidePart x side) :
    operand x = ofMeaning side.operand := by
  cases side with
  | string value =>
    obtain ⟨hkind, hvalue⟩ := h
    rw [operand, hkind, Side.operand, ofMeaning_map]
    show (string x >>= fun s => Pure.pure _) = _
    rw [hvalue]
  | other text value => exact h.2.2.2

theorem tracks_regex :
    Tracks (fun _ xs right => ∃ x, xs = [x] ∧ RightPart x right) Parts.regex Grammar.regex := by
  have hbody : Takes (taking regexBody) fun t cs => cs = t := by
    intro p cs q hr
    obtain ⟨rest, hrest, -⟩ := prefix_regexBody p.rest
    cases hr
    exact ⟨_, (List.prefix_iff_eq_append.1 ⟨rest, hrest.symm⟩).symm, rfl⟩
  have hparts : Tracks (fun _ inner b =>
      inner = [.mk .regexBody b.1 [], .mk .regexFlags b.2 []]) (Parts.inRow
        [Parts.plain (text ['/']), Parts.part .regexBody (Parts.plain (taking regexBody)),
          Parts.plain (text ['/']), Parts.part .regexFlags (Parts.plain (run Char.isAlpha))])
      regexParts := by
    refine Parts.tracks_inRow_plain (takes_text _) fun _ _ _ => ?_
    refine Parts.tracks_inRow (Parts.tracks_part _ (Parts.tracks_plain hbody)) ?_
    rintro source _ _ ⟨_, rfl, rfl, rfl⟩
    refine Parts.tracks_inRow_plain (takes_text _) fun _ _ _ => ?_
    refine Parts.tracks_inRow (Parts.tracks_part _ (Parts.tracks_plain (takes_run _))) ?_
    rintro flags _ _ ⟨_, rfl, rfl, rfl, _⟩
    exact Parts.tracks_inRow_nil rfl
  rw [regex_eq]
  refine (Parts.tracks_ruled (R := fun t inner right =>
    RightPart (.mk (.rule .regex) t inner) right) .regex
      (.map_right (hparts.withText_right.mono ?_))).mono ?_
  · rintro t _ ⟨⟨source, flags⟩, _⟩ ⟨rfl, rfl⟩
    rfl
  · rintro t _ right ⟨inner, rfl, h⟩
    exact ⟨_, rfl, h⟩

/-- A reader of one part on a side of an operator. -/
abbrev TracksSide (r : Reader (List Part)) (s : Reader Side) : Prop :=
  Tracks (fun _ xs side => ∃ x, xs = [x] ∧ SidePart x side) r s

theorem tracks_constant {which : Rule} {convert : Part → Converted Literal} {r : Reader (List Part)}
    {s : Reader (Meaning Literal)} (h : Tracks (IsPart (.rule which) convert) r s)
    (hstring : which ≠ .string) (hregex : which ≠ .regex)
    (hoperand : ∀ x : Part, x.kind = .rule which →
      operand x = convert x >>= fun v => Pure.pure (.literal v)) :
    TracksSide r (constant s) := by
  refine .map_right (h.withText_right.mono ?_)
  rintro _ _ ⟨m, _⟩ ⟨rfl, x, rfl, hkind, rfl, hm⟩
  refine ⟨x, rfl, ?_, ?_, rfl, ?_⟩
  · rw [hkind]
    simpa using hstring
  · rw [hkind]
    simpa using hregex
  · rw [hoperand x hkind, hm, ofMeaning_map]

theorem tracks_literal : TracksSide Parts.literal Grammar.literal := by
  have hword (which : Rule) (name : String) (value : Literal) :
      Tracks (IsPart (.rule which) fun _ => Pure.pure value) (Parts.word which name)
        (word which name value) :=
    tracks_converted which (.map_right ((Parts.tracks_plain (takes_text _)).mono fun _ _ _ _ => rfl))
  have hstring : TracksSide Parts.string (Grammar.string >>= fun m => Pure.pure (.string m)) := by
    refine .map_right (tracks_string.mono ?_)
    rintro _ _ m ⟨x, rfl, hkind, -, hm⟩
    exact ⟨x, rfl, hkind, hm⟩
  have hoperand {which : Rule} {f : Part → Converted Operand} (hf : ∀ t inner,
      operand (.mk (.rule which) t inner) = f (.mk (.rule which) t inner)) (x : Part)
      (hx : x.kind = .rule which) : operand x = f x := by
    obtain ⟨_, t, inner⟩ := x
    obtain rfl := hx
    exact hf t inner
  rw [literal_eq]
  refine .or (tracks_constant tracks_number (by decide) (by decide) (hoperand ?_)) (.or hstring (.or
    (tracks_constant (hword _ _ _) (by decide) (by decide) (hoperand ?_)) (.or
      (tracks_constant (hword _ _ _) (by decide) (by decide) (hoperand ?_))
      (tracks_constant (hword _ _ _) (by decide) (by decide) (hoperand ?_)))))
  all_goals
    intro t inner
    rw [operand]
    rfl

/-! ### Selectors -/

theorem tracks_name : Tracks (fun t xs m => ∃ n : Meaning String, m = n.map .name ∧
    IsPart (.rule .name) nameIn t xs n) Parts.name Grammar.name := by
  refine (Parts.tracks_ruled .name (R := fun _ inner m => ∃ n : Meaning String, m = n.map .name ∧
    OnePart string [] inner n) (.map_right (tracks_string.mono ?_))).mono ?_
  · rintro _ _ n ⟨x, rfl, -, -, hn⟩
    exact ⟨n, rfl, x, rfl, hn⟩
  · rintro t _ _ ⟨_, rfl, n, rfl, x, rfl, hn⟩
    exact ⟨n, rfl, _, rfl, rfl, rfl, hn⟩

theorem tracks_index : Tracks (fun t xs m => ∃ i : Meaning Int64, m = i.map .index ∧
    IsPart (.rule .index) integerIn t xs i) Parts.index Grammar.index := by
  refine (Parts.tracks_ruled .index (R := fun _ inner m => ∃ i : Meaning Int64, m = i.map .index ∧
    OnePart integer [] inner i) (.map_right (tracks_integer.mono ?_))).mono ?_
  · rintro _ _ n ⟨x, rfl, -, -, hn⟩
    exact ⟨n, rfl, x, rfl, hn⟩
  · rintro t _ _ ⟨_, rfl, n, rfl, x, rfl, hn⟩
    exact ⟨n, rfl, _, rfl, rfl, rfl, hn⟩

theorem tracks_item : Tracks (OnePart item) (or Parts.name Parts.index)
    (or Grammar.name Grammar.index) := by
  refine .or (tracks_name.mono ?_) (tracks_index.mono ?_)
  all_goals
    rintro t _ _ ⟨m, rfl, x, rfl, hkind, -, hm⟩
    refine ⟨x, rfl, ?_⟩
    rw [item, hkind, ofMeaning_map, ← hm]

theorem tracks_another {convert : Part → Converted α} {r : Reader (List Part)}
    {s : Reader (Meaning α)} (sign : List Char) (h : Tracks (OnePart convert) r s) :
    Tracks (OnePart convert) (Parts.another sign r) (another sign s) := by
  refine Parts.tracks_inRow_plain takes_blanks fun _ _ _ => ?_
  refine Parts.tracks_inRow_plain (takes_text _) fun _ _ _ => ?_
  exact Parts.tracks_inRow_plain takes_blanks fun _ _ _ => Parts.tracks_inRow_last h

theorem mapM_flatten {convert : Part → Converted α} {xss : List (List Part)} {ms : List (Meaning α)}
    (h : Each (OnePart convert) xss ms) : xss.flatten.mapM convert = ofMeaning (inOrder ms) := by
  induction h with
  | nil => rfl
  | cons h _ ih =>
    obtain ⟨_, x, rfl, hx⟩ := h
    rw [List.flatten_cons, List.singleton_append, List.mapM_cons, hx, ih, inOrder, ofMeaning_bind]
    simp only [ofMeaning_bind]
    rfl

theorem tracks_union : Tracks (IsPart (.rule .union) selector) Parts.union Grammar.union := by
  refine tracks_converted _ (Parts.tracks_inRow tracks_item ?_)
  rintro _ _ first hfirst
  refine Parts.tracks_inRow (tracks_another [','] tracks_item) ?_
  rintro _ _ second hsecond
  refine Parts.tracks_inRow (Parts.tracks_repeated (tracks_another [','] tracks_item)) ?_
  rintro _ _ more ⟨xss, rfl, hmore⟩
  refine Parts.tracks_inRow_nil ?_
  have hall := mapM_flatten (.cons ⟨[], hfirst⟩ (.cons ⟨[], hsecond⟩ hmore))
  rw [selector, ofMeaning_map, ← hall]
  simp [Part.kind, Part.inner]

/-- The part of a bound, or none. -/
def BoundParts (which : Rule) (xs : List Part) (o : Option (Meaning Int64)) : Prop :=
  (xs = [] ∧ o = none) ∨
    ∃ x m, xs = [x] ∧ o = some m ∧ x.kind = .rule which ∧ integerIn x = ofMeaning m

theorem tracks_bound (which : Rule) :
    Tracks (fun _ => BoundParts which) (Parts.bound which) (bound which) := by
  refine (Parts.tracks_perhaps (Parts.tracks_ruled which tracks_integer)).mono ?_
  rintro _ _ _ (⟨rfl, rfl, -⟩ | ⟨m, rfl, _, rfl, x, rfl, -, -, hm⟩)
  · exact .inl ⟨rfl, rfl⟩
  · exact .inr ⟨_, m, rfl, rfl, rfl, hm⟩

theorem BoundParts.foldlM_setBound {which : Rule} {xs : List Part} {o : Option (Meaning Int64)}
    (h : BoundParts which xs o) (set : Option Int64 → Bounds)
    (hset : ∀ x : Part, x.kind = .rule which →
      setBound (set none) x = integerIn x >>= fun i => Pure.pure (set (some i))) :
    xs.foldlM setBound (set none) = ofMeaning (optionally o) >>= fun i => Pure.pure (set i) := by
  rcases h with ⟨rfl, rfl⟩ | ⟨x, m, rfl, rfl, hkind, hm⟩
  · rfl
  · rw [optionally, ofMeaning_map, List.foldlM_cons, hset x hkind, hm]
    simp

theorem tracks_slice : Tracks (IsPart (.rule .slice) selector) Parts.slice Grammar.slice := by
  have hstep : Tracks (fun _ xs o => BoundParts .sliceStep xs (o.getD none))
      (Parts.perhaps (Parts.spaced [Parts.plain (text [':']), Parts.bound .sliceStep]))
      (Reader.optional do
        text [':']
        blanks
        bound .sliceStep) := by
    refine (Parts.tracks_perhaps (R := fun _ => BoundParts .sliceStep)
      (Parts.tracks_inRow_plain (takes_text _) fun _ _ _ => Parts.tracks_inRow_plain takes_blanks
        fun _ _ _ => Parts.tracks_inRow_last (tracks_bound _))).mono ?_
    rintro _ _ _ (⟨rfl, rfl, -⟩ | ⟨o, rfl, h⟩)
    · exact .inl ⟨rfl, rfl⟩
    · exact h
  refine tracks_converted _ (Parts.tracks_inRow (tracks_bound _) fun _ xs start hstart => ?_)
  refine Parts.tracks_inRow_plain takes_blanks fun _ _ _ => ?_
  refine Parts.tracks_inRow_plain (takes_text _) fun _ _ _ => ?_
  refine Parts.tracks_inRow_plain takes_blanks fun _ _ _ => ?_
  refine Parts.tracks_inRow (tracks_bound _) fun _ ys stop hstop => ?_
  refine Parts.tracks_inRow_plain takes_blanks fun _ _ _ => ?_
  refine Parts.tracks_inRow hstep fun _ zs step hstep => Parts.tracks_inRow_nil ?_
  have hset₁ := hstart.foldlM_setBound (fun i => ⟨i, none, none⟩) fun x hx => by
    rw [setBound, hx]
  have hset₂ (i : Option Int64) := hstop.foldlM_setBound (fun j => ⟨i, j, none⟩) fun x hx => by
    rw [setBound, hx]
  have hset₃ (i j : Option Int64) := hstep.foldlM_setBound (fun k => ⟨i, j, k⟩) fun x hx => by
    rw [setBound, hx]
  rw [selector]
  show slice _ = _
  simp only [slice, Part.inner, List.foldlM_append, List.append_nil, hset₁, hset₂, hset₃, sliceMeaning,
    ofMeaning_bind, bind_assoc, pure_bind]
  refine bind_congr fun i => bind_congr fun j => bind_congr fun k => ?_
  split <;> rfl

/-! ### Conditions and the paths in them -/

theorem segments_singleton (x : Part) : segments [x] = segment x := by
  rw [segments, segments]
  simp

theorem segments_append (xs ys : List Part) :
    segments (xs ++ ys) = (do return (← segments xs) ++ (← segments ys)) := by
  induction xs with
  | nil => simp [segments]
  | cons x xs ih =>
    rw [List.cons_append, segments, ih, segments]
    simp only [bind_assoc, pure_bind, List.append_assoc]

theorem segments_flatten {xss : List (List Part)} {ms : List (Meaning (List Segment))}
    (h : Each (fun _ xs m => segments xs = ofMeaning m) xss ms) :
    segments xss.flatten = ofMeaning ((inOrder ms).map List.flatten) := by
  induction h with
  | nil => rw [List.flatten_nil, segments]; rfl
  | cons h _ ih =>
    obtain ⟨_, hx⟩ := h
    rw [List.flatten_cons, segments_append, hx, ih, inOrder]
    simp only [ofMeaning_map, ofMeaning_bind, bind_assoc]
    rfl

theorem foldlM_flatten {convert : Part → Converted Condition}
    (join : Condition → Condition → Condition) {xss : List (List Part)}
    {ms : List (Meaning Condition)} (h : Each (OnePart convert) xss ms) (c : Condition) :
    xss.flatten.foldlM (fun c x => return join c (← convert x)) c =
      ofMeaning (inOrder ms) >>= fun cs => Pure.pure (cs.foldl join c) := by
  induction h generalizing c with
  | nil => rfl
  | cons h _ ih =>
    obtain ⟨_, x, rfl, hx⟩ := h
    rw [List.flatten_cons, List.singleton_append, List.foldlM_cons, hx, inOrder]
    simp only [ofMeaning_bind, bind_assoc, pure_bind, ih]
    rfl

theorem foldlM_attachWith {p : Part → Prop} {xs : List Part} (h : ∀ x ∈ xs, p x)
    (f : Condition → Part → Converted Condition) (c : Condition) :
    (xs.attachWith p h).foldlM (fun c x => f c x.1) c = xs.foldlM f c := by
  rw [List.foldlM_subtype (g := f) fun _ _ _ => rfl, List.unattach_attachWith]

theorem disjunction_mk (kind : PartKind) (t : List Char) (x : Part) (xs : List Part) :
    disjunction (.mk kind t (x :: xs)) =
      conjunction x >>= xs.foldlM fun c y => return .or c (← conjunction y) := by
  rw [disjunction, Part.smaller]
  simp only [Part.inner, List.attachWith_cons]
  exact bind_congr fun c => foldlM_attachWith _ (fun c y => return .or c (← conjunction y)) c

theorem conjunction_mk (kind : PartKind) (t : List Char) (x : Part) (xs : List Part) :
    conjunction (.mk kind t (x :: xs)) =
      unary x >>= xs.foldlM fun c y => return .and c (← unary y) := by
  rw [conjunction, Part.smaller]
  simp only [Part.inner, List.attachWith_cons]
  exact bind_congr fun c => foldlM_attachWith _ (fun c y => return .and c (← unary y)) c

theorem tracks_chain (which : Rule) (sign : List Char) {join : Condition → Condition → Condition}
    {whole convert : Part → Converted Condition} {r : Reader (List Part)}
    {s : Reader (Meaning Condition)} (hwhole : ∀ t x xs, whole (.mk (.rule which) t (x :: xs)) =
      convert x >>= xs.foldlM fun c y => return join c (← convert y))
    (h : Tracks (OnePart convert) r s) :
    Tracks (OnePart whole) (Parts.chain which sign r) (chain which sign join s) := by
  have hpart : Tracks (IsPart (.rule which) whole) (Parts.chain which sign r)
      (chain which sign join s) := by
    refine tracks_converted which (Parts.tracks_inRow h ?_)
    rintro _ _ first ⟨x, rfl, hx⟩
    refine Parts.tracks_inRow (Parts.tracks_repeated (tracks_another sign h)) ?_
    rintro _ _ more ⟨xss, rfl, hmore⟩
    refine Parts.tracks_inRow_nil ?_
    rw [List.singleton_append, hwhole, hx, ofMeaning_bind]
    refine bind_congr fun c => ?_
    rw [List.append_nil, foldlM_flatten join hmore, ofMeaning_bind]
    rfl
  exact tracks_one hpart

theorem comparison_mk (kind : PartKind) (t : List Char) (x o y : Part) :
    comparison (.mk kind t [x, o, y]) = (do
      let left ← operand x
      if o.text = ['=', '~'] then return .like left (← pattern y)
      match comparison? o.text with
      | none => throw (.unknownOperator (String.ofList o.text))
      | some op =>
        if y.kind = .rule .regex then throw (.path (.strayPattern (String.ofList y.text)))
        return .compare left op (← operand y)) := by
  rw [comparison]
  rfl

theorem comparison?_eq {t : List Char} {op : Comparison} (h : ComparisonText t op) :
    comparison? t = some op ∧ t ≠ ['=', '~'] := by
  cases h <;> exact ⟨rfl, by decide⟩

theorem comparison_eq {kind : PartKind} {t : List Char} {x o y : Part} {left : Side}
    {op : Option Comparison} {right : RightSide} (hx : SidePart x left) (ho : OperatorText o.text op)
    (hy : RightPart y right) :
    comparison (.mk kind t [x, o, y]) = ofMeaning (comparisonMeaning left op right) := by
  rw [comparison_mk, hx.operand_eq, comparisonMeaning, ofMeaning_bind]
  refine bind_congr fun a => ?_
  -- which right sides convert depends on the operator: `=~` needs a pattern or a string, and the
  -- others refuse a pattern
  generalize o.text = text at ho
  cases ho with
  | like =>
    rw [if_pos rfl]
    match right with
    | .regex text source flags =>
      obtain rfl := hy
      simp only [ofMeaning_bind]
      rfl
    | .side (.string value) =>
      obtain ⟨hkind, hvalue⟩ := hy
      rw [pattern, hkind]
      simp only [hvalue, ofMeaning_bind, bind_assoc]
      rfl
    | .side (.other text value) =>
      obtain ⟨hstring, hregex, rfl, -⟩ := hy
      have hpattern : pattern y = throw (.path (.patternExpected (String.ofList y.text))) := by
        rw [pattern]
        split
        · next hkind => exact absurd hkind hregex
        · next hkind => exact absurd hkind hstring
        · rfl
      rw [hpattern]
      rfl
  | compare hop =>
    obtain ⟨hop, hne⟩ := comparison?_eq hop
    rw [if_neg hne, hop]
    match right with
    | .regex text source flags =>
      obtain rfl := hy
      rfl
    | .side side =>
      have hregex : y.kind ≠ .rule .regex := by
        cases side with
        | string value => simp [hy.1]
        | other text value => exact hy.2.1
      simp only [hregex, if_false, hy.operand_eq, ofMeaning_bind]
      rfl

section

variable {r : Reader (List Part)} {s : Reader (Meaning Condition)} (h : Tracks (OnePart unary) r s)

include h

theorem tracks_disjunction :
    Tracks (OnePart disjunction) (Parts.disjunction r) (Grammar.disjunction s) :=
  tracks_chain _ _ (disjunction_mk _) (tracks_chain _ _ (conjunction_mk _) h)

theorem tracks_filter : Tracks (IsPart (.rule .filter) selector) (Parts.filter r) (filter s) := by
  refine tracks_converted _ (Parts.tracks_inRow_plain (takes_text _) fun _ _ _ => ?_)
  refine Parts.tracks_inRow_plain takes_blanks fun _ _ _ => ?_
  refine Parts.tracks_inRow_plain (takes_text _) fun _ _ _ => ?_
  refine Parts.tracks_inRow_plain takes_blanks fun _ _ _ => ?_
  refine Parts.tracks_inRow (tracks_disjunction h) ?_
  rintro _ _ m ⟨x, rfl, hx⟩
  refine Parts.tracks_inRow_plain takes_blanks fun _ _ _ => ?_
  refine Parts.tracks_inRow_plain (takes_text _) fun _ _ _ => Parts.tracks_inRow_nil ?_
  rw [selector, ofMeaning_map, ← hx]
  rfl

theorem tracks_selector : Tracks (OnePart selector) (Parts.selector r) (Grammar.selector s) := by
  refine .or (tracks_one (tracks_filter h)) (.or (tracks_one tracks_union)
    (.or (tracks_one tracks_slice) (.or (tracks_wildcard.mono ?_)
      (.or (.map_right (tracks_index.mono ?_)) (.map_right (tracks_name.mono ?_))))))
  · rintro _ _ m ⟨x, rfl, hkind, -, hm⟩
    refine ⟨x, rfl, ?_⟩
    rw [member, hkind] at hm
    rw [selector, hkind]
    exact hm
  all_goals
    rintro _ _ _ ⟨m, rfl, x, rfl, hkind, -, hm⟩
    refine ⟨x, rfl, ?_⟩
    rw [selector, hkind, ofMeaning_map, ofMeaning_map, ← hm, bind_assoc]
    rfl

theorem tracks_bracket : Tracks (fun _ xs m => ∃ t y, xs = [.mk (.rule .bracket) t [y]] ∧
    selector y = ofMeaning m) (Parts.bracket r) (Grammar.bracket s) := by
  refine (Parts.tracks_ruled .bracket (R := fun _ => OnePart selector [])
    (Parts.tracks_inRow_plain (takes_text _) fun _ _ _ => ?_)).mono ?_
  · refine Parts.tracks_inRow_plain takes_blanks fun _ _ _ => ?_
    refine Parts.tracks_inRow (tracks_selector h) ?_
    rintro _ _ m ⟨x, rfl, hx⟩
    refine Parts.tracks_inRow_plain takes_blanks fun _ _ _ => ?_
    exact Parts.tracks_inRow_plain (takes_text _) fun _ _ _ => Parts.tracks_inRow_nil ⟨x, rfl, hx⟩
  · rintro t _ m ⟨_, rfl, y, rfl, hy⟩
    exact ⟨t, y, rfl, hy⟩

theorem tracks_descendant :
    Tracks (IsPart (.rule .descendant) segment) (Parts.descendant r) (descendant s) := by
  have hbracket : Tracks (OnePart member) (Parts.bracket r) (Grammar.bracket s) := by
    refine (tracks_bracket h).mono ?_
    rintro _ _ _ ⟨t, y, rfl, hm⟩
    refine ⟨_, rfl, ?_⟩
    rw [member, ← hm]
    rfl
  have hmember := Tracks.or (tracks_one tracks_wildcard) (.or (tracks_one tracks_fieldName) hbracket)
  refine tracks_converted _ (Parts.tracks_inRow_plain (takes_text _) fun _ _ _ => ?_)
  refine .map_right ((Parts.tracks_inRow_last hmember).mono ?_)
  rintro _ _ m ⟨y, rfl, hm⟩
  rw [segment, ofMeaning_map, ← hm]
  rfl

theorem tracks_segment : Tracks (fun _ xs m => segments xs = ofMeaning m) (Parts.segment r)
    (Grammar.segment s) := by
  have hchild : Tracks (IsPart (.rule .child) segment) Parts.child child := by
    have hmember := Tracks.or (tracks_one tracks_wildcard) (tracks_one tracks_fieldName)
    refine tracks_converted _ (Parts.tracks_inRow_plain (takes_text _) fun _ _ _ => ?_)
    refine .map_right ((Parts.tracks_inRow_last hmember).mono ?_)
    rintro _ _ m ⟨y, rfl, hm⟩
    rw [segment, ofMeaning_map, ← hm]
    rfl
  refine .or ((tracks_descendant h).mono ?_) (.or (hchild.mono ?_)
    (.map_right ((tracks_bracket h).mono ?_)))
  · rintro _ _ _ ⟨x, rfl, -, -, hm⟩
    rw [segments_singleton, hm]
  · rintro _ _ _ ⟨x, rfl, -, -, hm⟩
    rw [segments_singleton, hm]
  · rintro _ _ m ⟨t, y, rfl, hm⟩
    rw [segments_singleton, segment, ofMeaning_map, ← hm]
    rfl

theorem tracks_segments : Tracks (fun _ xs m => segments xs = ofMeaning m) (Parts.segments r)
    (Grammar.segments s) := by
  refine .map_right ((Parts.tracks_repeated (tracks_segment h)).mono ?_)
  rintro _ _ ms ⟨xss, rfl, hms⟩
  exact segments_flatten hms

theorem tracks_query : Tracks (fun t xs m => ∃ x : Part, xs = [x] ∧ x.kind ≠ .rule .string ∧
    x.kind ≠ .rule .regex ∧ x.text = t ∧ operand x = ofMeaning m) (Parts.query r) (query s) := by
  have hstart (which : Rule) (sign : Char) (start : List Segment → Operand)
      (hstart : ∀ t inner, operand (.mk (.rule which) t inner) = do return start (← segments inner)) :
      Tracks (IsPart (.rule which) operand)
        (Parts.ruled which (Parts.inRow [Parts.plain (text [sign]), Parts.segments r]))
        (rule which do
          text [sign]
          return (← Grammar.segments s).map start) := by
    refine tracks_converted _ (Parts.tracks_inRow_plain (takes_text _) fun _ _ _ => ?_)
    refine .map_right ((Parts.tracks_inRow_last (tracks_segments h)).mono ?_)
    rintro _ xs m hm
    rw [hstart, ofMeaning_map, ← hm]
  have hcurrent := hstart .currentQuery '@' .current fun t inner => by rw [operand]; rfl
  have hroot := hstart .rootQuery '$' .root fun t inner => by rw [operand]; rfl
  refine .or (hcurrent.mono ?_) (hroot.mono ?_)
  · rintro _ _ _ ⟨x, rfl, hkind, ht, hm⟩
    exact ⟨x, rfl, by simp [hkind], by simp [hkind], ht, hm⟩
  · rintro _ _ _ ⟨x, rfl, hkind, ht, hm⟩
    exact ⟨x, rfl, by simp [hkind], by simp [hkind], ht, hm⟩

theorem tracks_operand : TracksSide (Parts.operand r) (Grammar.operand s) := by
  refine .or (.map_right ((tracks_query h).withText_right.mono ?_)) tracks_literal
  rintro _ _ ⟨m, _⟩ ⟨rfl, x, rfl, hstring, hregex, ht, hm⟩
  exact ⟨x, rfl, hstring, hregex, ht, hm⟩

theorem tracks_right : Tracks (fun _ xs right => ∃ x, xs = [x] ∧ RightPart x right)
    (or Parts.regex (Parts.operand r)) (or Grammar.regex do return .side (← Grammar.operand s)) :=
  .or tracks_regex (.map_right (tracks_operand h))

theorem tracks_comparison :
    Tracks (IsPart (.rule .comparison) unary) (Parts.comparison r) (Grammar.comparison s) := by
  refine tracks_converted _ (Parts.tracks_inRow (tracks_operand h) ?_)
  rintro _ _ left ⟨x, rfl, hx⟩
  refine Parts.tracks_inRow_plain takes_blanks fun _ _ _ => ?_
  refine Parts.tracks_inRow tracks_operator ?_
  rintro t _ op ⟨o, rfl, rfl, ho⟩
  refine Parts.tracks_inRow_plain takes_blanks fun _ _ _ => ?_
  refine Parts.tracks_inRow (tracks_right h) ?_
  rintro _ _ right ⟨y, rfl, hy⟩
  refine Parts.tracks_inRow_nil ?_
  rw [unary]
  exact comparison_eq hx ho hy

theorem tracks_existence :
    Tracks (IsPart (.rule .existence) unary) (Parts.existence r) (Grammar.existence s) := by
  refine tracks_converted _ (.map_right ((tracks_query h).mono ?_))
  rintro _ _ m ⟨x, rfl, -, -, -, hm⟩
  rw [unary, ofMeaning_map, ← hm]
  rfl

theorem tracks_negation :
    Tracks (IsPart (.rule .negation) unary) (Parts.negation r) (Grammar.negation s) := by
  refine tracks_converted _ (Parts.tracks_inRow_plain (takes_text _) fun _ _ _ => ?_)
  refine Parts.tracks_inRow_plain takes_blanks fun _ _ _ => ?_
  refine .map_right ((Parts.tracks_inRow_last h).mono ?_)
  rintro _ _ m ⟨x, rfl, hm⟩
  rw [unary, ofMeaning_map, ← hm]
  rfl

theorem tracks_group :
    Tracks (IsPart (.rule .group) unary) (Parts.group r) (Grammar.group s) := by
  refine tracks_converted _ (Parts.tracks_inRow_plain (takes_text _) fun _ _ _ => ?_)
  refine Parts.tracks_inRow_plain takes_blanks fun _ _ _ => ?_
  refine Parts.tracks_inRow (tracks_disjunction h) ?_
  rintro _ _ m ⟨x, rfl, hm⟩
  refine Parts.tracks_inRow_plain takes_blanks fun _ _ _ => ?_
  refine Parts.tracks_inRow_plain (takes_text _) fun _ _ _ => Parts.tracks_inRow_nil ?_
  rw [unary, ← hm]
  rfl

theorem tracks_unaryOf : Tracks (OnePart unary) (Parts.unaryOf r) (Grammar.unaryOf s) :=
  .or (tracks_one (tracks_negation h)) (.or (tracks_one (tracks_group h))
    (.or (tracks_one (tracks_comparison h)) (tracks_one (tracks_existence h))))

end

theorem tracks_unary (depth : Nat) :
    Tracks (OnePart unary) (Parts.unary depth) (Grammar.unary depth) := by
  induction depth with
  | zero => exact tracks_fail
  | succ depth ih => exact tracks_unaryOf ih

theorem tracks_path (depth : Nat) :
    Tracks (OnePart fun x => segments x.inner) (Parts.path depth) (Grammar.path depth) := by
  have hmark (which : Rule) (hnone : ∀ t inner, segment (.mk (.rule which) t inner) = Pure.pure [])
      {s : Reader Unit} {S : List Char → Unit → Prop} (h : Takes s S) :
      Tracks (fun _ xs _ => segments xs = Pure.pure []) (Parts.ruled which (Parts.plain s))
        (rule which s) := by
    refine (Parts.tracks_ruled which (Parts.tracks_plain h)).mono ?_
    rintro t _ _ ⟨inner, rfl, -⟩
    rw [segments_singleton, hnone]
  -- the parts of the root and of the end convert to no segments
  have hroot := hmark .root (fun t inner => by rw [segment]; rfl) (takes_text ['$'])
  have hend := hmark .endOfText (fun t inner => by rw [segment]; rfl) takes_atEnd
  have hpath : Tracks (IsPart (.rule .path) fun x => segments x.inner) (Parts.path depth)
      (Grammar.path depth) := by
    refine tracks_converted .path (Parts.tracks_inRow hroot fun _ xs _ hxs => ?_)
    refine Parts.tracks_inRow (tracks_segments (tracks_unary depth)) fun _ ys m hys => ?_
    refine Parts.tracks_inRow hend fun _ zs _ hzs => Parts.tracks_inRow_nil ?_
    rw [Part.inner, List.append_nil, segments_append, segments_append, hxs, hys, hzs]
    simp
  exact tracks_one hpath

/-! ### Paths -/

theorem ofChars_eq (cs : List Char) : ofChars cs = ofMeaning (Path.ofChars cs) := by
  have h := tracks_path (cs.length + 1) ⟨0, cs⟩
  unfold ofChars Path.ofChars
  generalize Parts.path (cs.length + 1) ⟨0, cs⟩ = x, Grammar.path (cs.length + 1) ⟨0, cs⟩ = y at h ⊢
  cases h with
  | failed note => rfl
  | read note ht h =>
    obtain ⟨x, rfl, hm⟩ := h
    exact hm

/-- The conversion of the parts of a text gives the path that is read from it, or the same error: none
of the faults of its own. -/
theorem parse_eq (s : String) : parse s = ofMeaning (Path.parse s) := by
  rw [parse, Path.parse, ofMeaning_bind]
  exact bind_congr fun _ => ofChars_eq _

end Conversion

end JsonSpan
